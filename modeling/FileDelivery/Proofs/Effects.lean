import FileDelivery.Bridge.System
import FileDelivery.Library.Fallible
import FileDelivery.Proofs.ApplyResult
import FileDelivery.Proofs.Moves

namespace FileDelivery.Proofs.Effects
open FileDelivery.Library FileDelivery.Library.Fallible FileDelivery.Control
open FileDelivery.Bridge FileDelivery.Proofs.ApplyResult FileDelivery.Proofs.Moves

@[simp] theorem append_tasks : (EventRepo.append db t p).tasks = db.tasks := rfl
@[simp] theorem append_items : (EventRepo.append db t p).items = db.items := rfl
@[simp] theorem append_physical :
    (EventRepo.append db t p).physical_objects = db.physical_objects := rfl
@[simp] theorem append_objects :
    (EventRepo.append db t p).workspace_objects = db.workspace_objects := rfl
@[simp] theorem append_next : (EventRepo.append db t p).next_id = db.next_id + 1 := rfl

/-- Appending events touches no other table. -/
theorem appends_frame (events : List (Nat × EventPayload)) (db : Db) :
    let db' := events.foldl (fun db e => EventRepo.append db e.1 e.2) db
    db'.tasks = db.tasks ∧ db'.items = db.items ∧ db'.physical_objects = db.physical_objects ∧
      db'.workspace_objects = db.workspace_objects ∧ db.next_id ≤ db'.next_id := by
  induction events generalizing db with
  | nil => exact ⟨rfl, rfl, rfl, rfl, Nat.le_refl _⟩
  | cons e events ih =>
    obtain ⟨ht, hi, hp, hw, hn⟩ := ih (EventRepo.append db e.1 e.2)
    exact ⟨ht, hi, hp, hw, Nat.le_trans (Nat.le_succ _) hn⟩

/-- The tasks after a write to the row of one of them, which leaves it in status `st`. -/
structure StatusWrite (t : Nat) (st : TaskStatus) (f : Task → Task) (a b : List Task) : Prop where
  rows : b = Rows.update a t f
  id : ∀ x, (f x).id = x.id
  owner : ∀ x, (f x).owner_tenant_id = x.owner_tenant_id
  dir : ∀ x, (f x).temp_dir = x.temp_dir
  status : ∀ x, (f x).status = st

/-- A row after the write comes from a row before it. -/
theorem StatusWrite.mem (h : StatusWrite t st f a b) (hx : x ∈ b) :
    ∃ y ∈ a, y.id = x.id ∧ y.owner_tenant_id = x.owner_tenant_id ∧ y.temp_dir = x.temp_dir ∧
      (x.id = t ∧ x.status = st ∨ x.id ≠ t ∧ x = y) := by
  rw [h.rows] at hx
  obtain ⟨y, hy, he⟩ := Rows.mem_update.mp hx
  refine ⟨y, hy, ?_⟩
  by_cases hk : y.id = t
  · simp only [task_key, hk, beq_self_eq_true, if_true] at he
    subst he
    exact ⟨(h.id y).symm, (h.owner y).symm, (h.dir y).symm, .inl ⟨(h.id y).trans hk, h.status y⟩⟩
  · simp only [task_key, beq_iff_eq, hk, if_false] at he
    subst he
    exact ⟨rfl, rfl, rfl, .inr ⟨hk, rfl⟩⟩

/-- Every row before the write has a successor. -/
theorem StatusWrite.image (h : StatusWrite t st f a b) (hy : y ∈ a) :
    ∃ x ∈ b, x.id = y.id ∧ x.owner_tenant_id = y.owner_tenant_id ∧ x.temp_dir = y.temp_dir := by
  rw [h.rows]
  by_cases hk : y.id = t
  · exact ⟨f y, Rows.mem_update_of_mem hy hk, h.id y, h.owner y, h.dir y⟩
  · exact ⟨y, Rows.mem_update_of_ne hy hk, rfl, rfl, rfl⟩

theorem StatusWrite.ids (h : StatusWrite t st f a b) : b.map Task.id = a.map Task.id := by
  rw [h.rows]
  exact Rows.update_map Task.id h.id

/-- The two outcomes of a status write: the task is not there, or its row changes. -/
theorem update_status_tasks (db : Db) (t : Nat) (st : TaskStatus) (ten : Option String)
    (c f : Option Time) :
    (TaskRepo.get db t ten = none ∧ (TaskRepo.update_status db t st ten c f).tasks = db.tasks) ∨
    ((TaskRepo.get db t ten).isSome ∧ ∃ g,
      StatusWrite t st g db.tasks (TaskRepo.update_status db t st ten c f).tasks) := by
  unfold TaskRepo.update_status
  cases h : TaskRepo.get db t ten with
  | none => exact .inl ⟨rfl, rfl⟩
  | some task =>
    exact .inr ⟨rfl, _, rfl, fun _ => rfl, fun _ => rfl, fun _ => rfl, fun _ => rfl⟩

/-- The workspace tables and the counter of an unrelated write. -/
structure SameObjects (a b : Db) : Prop where
  physical : b.physical_objects = a.physical_objects
  objects : b.workspace_objects = a.workspace_objects
  next : a.next_id ≤ b.next_id

theorem SameObjects.refl (a : Db) : SameObjects a a := ⟨rfl, rfl, Nat.le_refl _⟩

theorem SameObjects.append (h : SameObjects a b) : SameObjects a (EventRepo.append b t p) :=
  ⟨h.physical, h.objects, Nat.le_succ_of_le h.next⟩

theorem update_status_objects (db : Db) (t : Nat) (st : TaskStatus) (ten : Option String)
    (c f : Option Time) : SameObjects db (TaskRepo.update_status db t st ten c f) := by
  obtain ⟨_, hp, hw, _, _, hn, _⟩ := update_status_same db t st ten c f
  exact ⟨hp, hw, Nat.le_of_eq hn.symm⟩

/-- The reset of a retry on one row. -/
def resetRow (db : Db) (r : WriteRequest) (i : TaskItem) : TaskItem :=
  if ItemRepo.resettable db r.task.id (some r.actor.tenant_id) i
  then ItemRepo.setUpload .pending "" none i else i

/-- A retry that finds failed items and has read a failed status. -/
def Reopens (db : Db) (r : WriteRequest) : Prop :=
  (∃ i ∈ db.items, ItemRepo.resettable db r.task.id (some r.actor.tenant_id) i = true) ∧
    (r.task.status = .failed ∨ r.task.status = .partial_failed)

/-- What one step may do to the tables of tasks and items. -/
inductive Effect (cfg : Config) (s s' : State) : Action → Prop
  | quiet (ht : s'.db.tasks = s.db.tasks) (hi : s'.db.items = s.db.items)
      (ho : SameObjects s.db s'.db) : Effect cfg s s' a
  | created (task : Task) (hid : task.id = s.db.next_id) (hst : task.status = .draft)
      (hdir : task.temp_dir = cfg.settings.task_dir_base ++ ['/'] ++ idText task.id)
      (ht : s'.db.tasks = s.db.tasks ++ [task]) (hi : s'.db.items = s.db.items)
      (hn : s.db.next_id < s'.db.next_id) (ho : SameObjects s.db s'.db) :
      Effect cfg s s' (.create actor key uploads label)
  | classified (rows : List TaskItem)
      (hids : rows.map TaskItem.id = List.range' s.db.next_id rows.length)
      (htask : ∀ i ∈ rows, i.task_id = t)
      (hpending : ∀ i ∈ rows, i.upload_status = .pending)
      (ht : ∃ f, StatusWrite t .classified f s.db.tasks s'.db.tasks)
      (hi : s'.db.items = s.db.items ++ rows)
      (hn : s.db.next_id + rows.length ≤ s'.db.next_id) (ho : SameObjects s.db s'.db) :
      Effect cfg s s' (.classify actor t profile)
  | confirmed (r : WriteRequest) (hr : Rows.find? s.writes rid = some r)
      (hkind : r.kind = .confirm)
      (ht : ∃ f, StatusWrite r.task.id .confirmed f s.db.tasks s'.db.tasks)
      (hi : s'.db.items = s.db.items) (ho : SameObjects s.db s'.db) :
      Effect cfg s s' (.write rid)
  | retried (r : WriteRequest) (hr : Rows.find? s.writes rid = some r)
      (hkind : r.kind = .retry)
      (hquiet : ¬Reopens s.db r → s'.db.tasks = s.db.tasks)
      (hwrite : Reopens s.db r → ∃ f, StatusWrite r.task.id .confirmed f s.db.tasks s'.db.tasks)
      (hi : s'.db.items = s.db.items.map (resetRow s.db r))
      (ho : SameObjects s.db s'.db) : Effect cfg s s' (.write rid)
  | queued (r : UploadRequest) (message : DeliveryTaskMessage)
      (hr : Rows.find? s.uploads rid = some r) (hstage : r.stage = .written message)
      (ht : ∃ f, StatusWrite r.task.id .queued f s.db.tasks s'.db.tasks)
      (hi : s'.db.items = s.db.items) (ho : SameObjects s.db s'.db) :
      Effect cfg s s' (.upload rid .commit)
  | applied (p : Produced) (hp : s.results[pid]? = some p)
      (hdb : s'.db = (apply_delivery_result cfg.settings.s3_bucket_name s.db p.message).1) :
      Effect cfg s s' (.apply pid)

/-- A step that leaves the database alone. -/
theorem Effect.of_db (h : s'.db = s.db) : Effect cfg s s' a :=
  .quiet (by rw [h]) (by rw [h]) (by rw [h]; exact .refl _)

/-- A draft is a new row and its event. -/
theorem create_spec
    (h : Tasks.create_task py settings db actor key uploads label = .ok (.created db' t dir)) :
    ∃ text, t = db.next_id ∧
      db' = EventRepo.append
        { db with tasks := db.tasks ++ [Tasks.draftTask settings db actor key text],
                  next_id := db.next_id + 1 } t (.task_created actor text) := by
  simp only [Tasks.create_task] at h
  split at h
  · split at h
    · cases h
    · obtain ⟨prepared, _, h⟩ := bind_ok.mp h
      obtain ⟨files, _, h⟩ := map_ok.mp h
      cases h
      exact ⟨_, rfl, rfl⟩
  · cases h

theorem create_effect (hdb : s'.db = db)
    (h : Tasks.create_task cfg.py cfg.settings s.db actor key uploads label =
      .ok (.created db t dir)) : Effect cfg s s' (.create actor key uploads label) := by
  obtain ⟨text, rfl, rfl⟩ := create_spec h
  refine .created (Tasks.draftTask cfg.settings s.db actor key text) rfl rfl rfl
    (by rw [hdb]; rfl) (by rw [hdb]; rfl) ?_ ⟨by rw [hdb]; rfl, by rw [hdb]; rfl, ?_⟩
  all_goals
    simp only [hdb, append_next]
    omega

/-- Classification inserts the classified rows, or nothing happens. -/
theorem classify_spec
    (h : Tasks.classify_task py profile dir db actor t = .ok db') :
    ∃ archive items summary inserted, dir.archive = some archive ∧
      Classifier.classify_zip py profile archive = some (items, summary) ∧
      (TaskRepo.get db t (some actor.tenant_id)).isSome ∧
      ItemRepo.bulk_insert db t (items.map Tasks.itemRow) = some inserted ∧
      db' = EventRepo.append (TaskRepo.update_status
        { inserted with tasks := Rows.update inserted.tasks t (Tasks.setSummary summary) } t
        .classified (some actor.tenant_id) none none) t (.classified actor summary) := by
  simp only [Tasks.classify_task] at h
  obtain ⟨task, hread, h⟩ := bind_ok.mp h
  split at h
  · cases h
  · rename_i archive harchive
    split at h
    · cases h
    · rename_i items summary hzip
      split at h
      · cases h
      · rename_i inserted hinsert
        cases h
        refine ⟨archive, items, summary, inserted, harchive, hzip, ?_, hinsert, rfl⟩
        simp only [Tasks.readTask] at hread
        split at hread
        · split at hread
          · rename_i row hrow
            simp [hrow]
          · cases hread
        · cases hread

theorem assignIds_ids (next : Nat) (items : List TaskItem) :
    (ItemRepo.assignIds next items).map TaskItem.id = List.range' next items.length := by
  induction items generalizing next with
  | nil => rfl
  | cons i items ih => simp [ItemRepo.assignIds, List.range'_succ, ih]

theorem assignIds_pending (h : ∀ i ∈ items, i.upload_status = .pending) :
    ∀ i ∈ ItemRepo.assignIds next items, i.upload_status = .pending := by
  induction items generalizing next with
  | nil => simp [ItemRepo.assignIds]
  | cons j items ih =>
    intro i hi
    simp only [ItemRepo.assignIds, List.mem_cons] at hi
    rcases hi with rfl | hi
    · exact h j List.mem_cons_self
    · exact ih (fun k hk => h k (List.mem_cons_of_mem _ hk)) i hi

/-- The rows that a bulk insert appends. -/
theorem insert_spec (h : ItemRepo.bulk_insert db t items = some db')
    (hp : ∀ i ∈ items, i.upload_status = .pending) :
    ∃ rows, rows.map TaskItem.id = List.range' db.next_id rows.length ∧
      (∀ i ∈ rows, i.task_id = t) ∧ (∀ i ∈ rows, i.upload_status = .pending) ∧
      db' = { db with items := db.items ++ rows, next_id := db.next_id + rows.length } := by
  simp only [ItemRepo.bulk_insert] at h
  split at h
  · cases h
    refine ⟨(ItemRepo.assignIds db.next_id items).map (fun i => { i with task_id := t }),
      ?_, by simp, ?_, ?_⟩
    · have hlen := congrArg List.length (assignIds_ids db.next_id items)
      simp only [List.length_map, List.length_range'] at hlen
      simpa [List.map_map, Function.comp_def, hlen] using assignIds_ids db.next_id items
    · intro i hi
      obtain ⟨j, hj, rfl⟩ := List.mem_map.mp hi
      exact assignIds_pending hp j hj
    · have hlen := congrArg List.length (assignIds_ids db.next_id items)
      simp only [List.length_map, List.length_range'] at hlen
      simp [hlen]
  · cases h

/-- A write that keeps keys and owners hides no task from its tenant. -/
theorem get_kept (f : Task → Task) (ht : db'.tasks = Rows.update db.tasks k f)
    (hid : ∀ x, (f x).id = x.id) (howner : ∀ x, (f x).owner_tenant_id = x.owner_tenant_id) :
    (TaskRepo.get db' t ten).isSome = (TaskRepo.get db t ten).isSome := by
  simp only [TaskRepo.get, ht]
  rw [Rows.find_update hid]
  cases Rows.find? db.tasks t with
  | none => rfl
  | some row =>
    by_cases hk : t = k
    · simp only [hk, if_true, Option.map_some, Option.filter, howner]
      split <;> rfl
    · simp [hk]

/-- The task of a successful classification is there, and its row is written. -/
theorem classify_write (h : Tasks.classify_task py profile dir db actor t = .ok db') :
    (TaskRepo.get db t (some actor.tenant_id)).isSome ∧
      ∃ f, StatusWrite t .classified f db.tasks db'.tasks := by
  obtain ⟨_, items, summary, inserted, _, _, hget, hinsert, rfl⟩ := classify_spec h
  obtain ⟨rows, _, _, _, rfl⟩ := insert_spec hinsert (by simp [Tasks.itemRow])
  refine ⟨hget, ?_⟩
  set summed : Db := { db with
    items := db.items ++ rows
    next_id := db.next_id + rows.length
    tasks := Rows.update db.tasks t (Tasks.setSummary summary) } with hsummed
  have hpresent : (TaskRepo.get summed t (some actor.tenant_id)).isSome :=
    (get_kept (Tasks.setSummary summary) rfl (fun _ => rfl) (fun _ => rfl)).trans hget
  rcases update_status_tasks summed t .classified (some actor.tenant_id) none none with
    ⟨hnone, _⟩ | ⟨_, g, hg⟩
  · simp [hnone] at hpresent
  · refine ⟨fun x => g (Tasks.setSummary summary x), ?_, ?_, ?_, ?_, fun x => hg.status _⟩
    · rw [append_tasks, hg.rows]
      exact Rows.update_update (fun _ => rfl)
    · exact fun x => hg.id _
    · exact fun x => hg.owner _
    · exact fun x => hg.dir _

theorem classify_effect (hdb : s'.db = db)
    (h : Tasks.classify_task py profile dir s.db actor t = .ok db) :
    Effect cfg s s' (.classify actor t profile) := by
  have hwrite := (classify_write h).2
  obtain ⟨archive, items, summary, inserted, _, _, _, hinsert, rfl⟩ := classify_spec h
  obtain ⟨rows, hids, htask, hpending, rfl⟩ := insert_spec hinsert (by simp [Tasks.itemRow])
  set summed : Db := { s.db with
    items := s.db.items ++ rows
    next_id := s.db.next_id + rows.length
    tasks := Rows.update s.db.tasks t (Tasks.setSummary summary) } with hsummed
  have hframe := update_status_objects summed t .classified (some actor.tenant_id) none none
  have hitems := (update_status_same summed t .classified (some actor.tenant_id) none none).1
  have hnext : s.db.next_id + rows.length ≤
      (TaskRepo.update_status summed t .classified (some actor.tenant_id) none none).next_id :=
    hframe.next
  refine .classified rows hids htask hpending (hdb ▸ hwrite) (by rw [hdb]; exact hitems) ?_ ?_
  · rw [hdb]
    exact Nat.le_succ_of_le hnext
  · rw [hdb]
    exact ⟨hframe.physical, hframe.objects,
      Nat.le_succ_of_le (Nat.le_trans (Nat.le_add_right _ _) hnext)⟩

theorem reset_count (db : Db) (r : WriteRequest) :
    (ItemRepo.batch_reset_failed db r.task.id (some r.actor.tenant_id)).2 > 0 ↔
      ∃ i ∈ db.items, ItemRepo.resettable db r.task.id (some r.actor.tenant_id) i = true := by
  simp only [ItemRepo.batch_reset_failed, gt_iff_lt, List.length_pos_iff_exists_mem,
    List.mem_filter]

/-- The tables after the write of a retry. -/
theorem retry_tables (db : Db) (r : WriteRequest) :
    let db' := Tasks.retry_write db r.actor r.task
    (¬Reopens db r → db'.tasks = db.tasks) ∧
      (Reopens db r → db'.tasks = Rows.update db.tasks r.task.id (Tasks.reopen r.task)) ∧
      db'.items = db.items.map (resetRow db r) ∧ SameObjects db db' := by
  have hiff : Reopens db r ↔
      (ItemRepo.batch_reset_failed db r.task.id (some r.actor.tenant_id)).2 > 0 ∧
        (r.task.status = .failed ∨ r.task.status = .partial_failed) := by
    rw [reset_count]
    rfl
  refine ⟨?_, ?_, ?_, ?_⟩
  · intro hno
    rw [hiff] at hno
    simp only [Tasks.retry_write, if_neg hno, append_tasks]
    rfl
  · intro hyes
    rw [hiff] at hyes
    simp only [Tasks.retry_write, if_pos hyes, append_tasks]
    rfl
  · simp only [Tasks.retry_write, append_items]
    split <;> rfl
  · simp only [Tasks.retry_write]
    split <;> exact ⟨rfl, rfl, Nat.le_succ _⟩

theorem retry_effect (hr : Rows.find? s.writes rid = some r) (hk : r.kind = .retry)
    (hdb : s'.db = Tasks.retry_write s.db r.actor r.task) : Effect cfg s s' (.write rid) := by
  obtain ⟨hquiet, hwrite, hitems, hsame⟩ := retry_tables s.db r
  refine .retried r hr hk ?_ ?_ (hdb ▸ hitems) (hdb ▸ hsame)
  · intro hno
    rw [hdb]
    exact hquiet hno
  · intro hyes
    refine ⟨Tasks.reopen r.task, ?_, fun _ => rfl, fun _ => rfl, fun _ => rfl, fun _ => rfl⟩
    rw [hdb]
    exact hwrite hyes

theorem write_effect (hr : Rows.find? s.writes rid = some r) (hdb : s'.db = writeDb s.db r) :
    Effect cfg s s' (.write rid) := by
  cases hk : r.kind with
  | retry => exact retry_effect hr hk (by simp only [hdb, writeDb, hk])
  | confirm =>
    replace hdb : s'.db = Tasks.confirm_write s.db r.actor r.task.id := by
      simp only [hdb, writeDb, hk]
    have hitems := (update_status_same s.db r.task.id .confirmed (some r.actor.tenant_id)
      (some s.db.now) none).1
    have hframe := update_status_objects s.db r.task.id .confirmed (some r.actor.tenant_id)
      (some s.db.now) none
    rcases update_status_tasks s.db r.task.id .confirmed (some r.actor.tenant_id) (some s.db.now)
      none with ⟨_, hsame⟩ | ⟨_, hwrite⟩
    · refine .quiet ?_ ?_ ?_
      all_goals simp only [hdb, Tasks.confirm_write]
      · exact hsame
      · exact hitems
      · exact hframe.append
    · refine .confirmed r hr hk ?_ ?_ ?_
      all_goals simp only [hdb, Tasks.confirm_write]
      · exact hwrite
      · exact hitems
      · exact hframe.append

theorem commit_effect (hr : Rows.find? s.uploads rid = some r) (hstage : r.stage = .written message)
    (hdb : s'.db = Tasks.queue_write settings s.db r.actor r.task.id n) :
    Effect cfg s s' (.upload rid .commit) := by
  have hitems := (update_status_same s.db r.task.id .queued (some r.actor.tenant_id) none none).1
  have hframe := update_status_objects s.db r.task.id .queued (some r.actor.tenant_id) none none
  rcases update_status_tasks s.db r.task.id .queued (some r.actor.tenant_id) none none with
    ⟨_, hsame⟩ | ⟨_, hwrite⟩
  · refine .quiet ?_ ?_ ?_
    all_goals simp only [hdb, Tasks.queue_write]
    · exact hsame
    · exact hitems
    · exact hframe.append
  · refine .queued r message hr hstage ?_ ?_ ?_
    all_goals simp only [hdb, Tasks.queue_write]
    · exact hwrite
    · exact hitems
    · exact hframe.append

/-- An event changes neither tasks nor items. -/
theorem Effect.of_event (h : s'.db = EventRepo.append s.db t p) : Effect cfg s s' a :=
  .quiet (by rw [h]; rfl) (by rw [h]; rfl) (by rw [h]; exact (SameObjects.refl _).append)

theorem upload_effect (hr : Rows.find? s.uploads rid = some r)
    (h : UploadMove cfg s r r.stage action u next) (hdb : s'.db = u.db) :
    Effect cfg s s' (.upload rid action) := by
  generalize hstage : r.stage = stage at h
  cases h with
  | committed => exact commit_effect hr hstage hdb
  | recorded | reported _ => exact .of_event hdb
  | _ => exact .of_db hdb

/-- Workers do not see the database. -/
theorem worker_db (h : WorkerMove cfg s action s') : s'.db = s.db := by
  cases h <;> rfl

theorem cleanup_effect (h : CleanupMove s action s') : Effect cfg s s' (.cleanup action) := by
  cases h with
  | committed c hc =>
    obtain ⟨ht, hi, hp, hw, hn⟩ := appends_frame c.events s.db
    exact .quiet ht hi ⟨hp, hw, hn⟩
  | _ => exact .of_db rfl

theorem step_effect (h : step cfg s a = some s') : Effect cfg s s' a := by
  cases step_moves h with
  | created db t dir hcreate => exact create_effect rfl hcreate
  | classified dir db hclassify => exact classify_effect rfl hclassify
  | read task _ => exact .of_db rfl
  | wrote r hr => exact write_effect hr rfl
  | began task _ => exact .of_db rfl
  | requested r u next hr hmove => exact upload_effect hr hmove rfl
  | worked hmove => exact .of_db (worker_db hmove)
  | applied p hp => exact .applied p hp rfl
  | cleaned hmove => exact cleanup_effect hmove
  | workspace => exact .quiet rfl rfl ⟨rfl, rfl, Nat.le_succ _⟩
  | expired => exact .of_db rfl
  | ticked => exact .quiet rfl rfl ⟨rfl, rfl, Nat.le_refl _⟩

end FileDelivery.Proofs.Effects
