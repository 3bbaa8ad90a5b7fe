import FileDelivery.Proofs.Flow

namespace FileDelivery.Proofs.Recovery
open FileDelivery.Library FileDelivery.Library.Fallible FileDelivery.Control FileDelivery.Bridge
open FileDelivery.Proofs.Effects FileDelivery.Proofs.Tables FileDelivery.Proofs.Flow

variable {db : Db} {items items' : List TaskItem} {i j : TaskItem} {t : Task} {r : WriteRequest}

/-- Statuses of a task that has reached confirmation. -/
def ReachedConfirmation : TaskStatus → Bool
  | .draft | .classifying | .classified | .classification_failed => false
  | _ => true

/-- An item of the task with severity ok or warning that is not uploaded. -/
structure Undelivered (db : Db) (t : Nat) (i : TaskItem) : Prop where
  row : i ∈ db.items
  task : i.task_id = t
  deliverable : i.deliverable = true
  missing : i.upload_status ≠ .uploaded

/-- Some user of the task's tenant who may write tasks. -/
structure Writer (t : Task) (actor : CurrentActor) : Prop where
  tenant : actor.tenant_id = t.owner_tenant_id
  writes : actor.can_write_tasks = true

/-- The next upload request is accepted, gets its claim and selects what was undelivered before. -/
structure Resumes (settings : Settings) (select : Db → CurrentActor → Nat → List TaskItem)
    (claims : IdempotencyGuard.Store) (before after : Db) (actor : CurrentActor) (t : Nat) : Prop where
  accepted : ∃ task, Tasks.upload_check after actor t = .ok task
  granted : ∀ token, (IdempotencyGuard.acquire settings.redis_idempotency_enabled claims
    (Tasks.upload_key actor t) token).isSome
  selected : ∀ i, Undelivered before t i → i.id ∈ (select after actor t).map TaskItem.id

/-- The task can be uploaded as it is where it is confirmed, and else after one retry request. -/
def Recoverable (settings : Settings) (select : Db → CurrentActor → Nat → List TaskItem)
    (claims : IdempotencyGuard.Store) (db : Db) (t : Task) : Prop :=
  ∀ retrier uploader, Writer t retrier → Writer t uploader →
    (t.status = .confirmed → Resumes settings select claims db db uploader t.id) ∧
      (t.status ≠ .confirmed → ∃ after, Tasks.retry_task db retrier t.id = .ok after ∧
        Resumes settings select claims db after uploader t.id)

/-- No claim is held on the uploads of the task: those before have released it, or it has expired. -/
def Unclaimed (settings : Settings) (claims : IdempotencyGuard.Store) (t : Task) : Prop :=
  settings.redis_idempotency_enabled = true → claims (IdempotencyGuard._guard_key "upload_task"
    (t.owner_tenant_id.toList ++ [':'] ++ idText t.id)) = none

instance (settings : Settings) (claims : IdempotencyGuard.Store) (t : Task) :
    Decidable (Unclaimed settings claims t) := inferInstanceAs (Decidable (_ → _))

/-- Not in the middle of an upload, and not skipped. -/
def Decided (i : TaskItem) : Prop :=
  i.upload_status = .pending ∨ i.upload_status = .failed ∨ i.upload_status = .uploaded

/-- Status and items of a task for which no work is in flight. -/
structure Settled (items : List TaskItem) (t : Task) : Prop where
  each : ∀ i ∈ items, i.task_id = t.id → i.deliverable = true → Decided i
  confirmed : t.status = .confirmed →
    ∀ i ∈ items, i.task_id = t.id → i.deliverable = true → i.upload_status ≠ .failed
  ended : ReachedConfirmation t.status = true → t.status ≠ .confirmed →
    (∀ i ∈ items, i.task_id = t.id → i.deliverable = true → i.upload_status = .uploaded) ∨
      (t.status = .failed ∨ t.status = .partial_failed) ∧
        ∃ i ∈ items, i.task_id = t.id ∧ i.deliverable = true ∧ i.upload_status = .failed

/-- What a backend uploads includes the task's pending items. -/
def SelectsPending (select : Db → CurrentActor → Nat → List TaskItem) : Prop :=
  ∀ db actor t i, t ∈ db.tasks → Writer t actor → i ∈ db.items → i.task_id = t.id →
    i.deliverable = true → i.upload_status = .pending → i ∈ select db actor t.id

/-- A claim is granted to any writer just where none is held. -/
theorem granted_iff (ha : Writer t actor) :
    (∀ token, (IdempotencyGuard.acquire settings.redis_idempotency_enabled claims
      (Tasks.upload_key actor t.id) token).isSome) ↔ Unclaimed settings claims t := by
  unfold Unclaimed Tasks.upload_key
  rw [ha.tenant]
  cases settings.redis_idempotency_enabled with
  | false => simp [IdempotencyGuard.acquire]
  | true =>
    simp only [IdempotencyGuard.acquire, if_true, forall_const]
    split <;> simp_all

theorem read_task (hn : (db.tasks.map Task.id).Nodup) (ht : t ∈ db.tasks) (ha : Writer t actor) :
    Tasks.readTask db actor t.id = .ok t := by
  have hfind : Rows.find? db.tasks t.id = some t := Rows.find_of_mem hn ht
  simp [Tasks.readTask, TaskRepo.get, hfind, tenantAllows, ha.tenant, ha.writes, Option.filter]

/-- A task that is `confirmed` without failed items resumes. -/
theorem confirmed_resumes (hs : SelectsPending select) (hn : (after.tasks.map Task.id).Nodup)
    (hfree : Unclaimed settings claims t) (ht : t ∈ after.tasks) (hst : t.status = .confirmed)
    (ha : Writer t actor)
    (hi : ∀ i, Undelivered before t.id i → ∃ j ∈ after.items, j.id = i.id ∧ j.task_id = t.id ∧
      j.deliverable = true ∧ j.upload_status = .pending) :
    Resumes settings select claims before after actor t.id := by
  refine ⟨⟨t, ?_⟩, (granted_iff ha).mpr hfree, fun i hu => ?_⟩
  · simp [Tasks.upload_check, read_task hn ht ha, Except.bind, hst]
  · obtain ⟨j, hj, hid, htask, hdel, hpend⟩ := hi i hu
    exact List.mem_map.mpr ⟨j, hs after actor t j ht ha hj htask hdel hpend, hid⟩

/-- Reset items are pending, other items are as they were. -/
theorem reset_pending (hst : i.upload_status = .failed)
    (ho : ItemRepo.ownerAllows db (some r.actor.tenant_id) i.task_id = true)
    (ht : i.task_id = r.task.id) : (resetRow db r i).upload_status = .pending := by
  have hreset : ItemRepo.resettable db r.task.id (some r.actor.tenant_id) i = true := by
    simp [ItemRepo.resettable, hst, ← ht, ho]
  simp [resetRow, hreset]

/-- A change that leaves the rows of a task alone. -/
theorem mem_map_other {f : TaskItem → TaskItem} (hcore : ∀ i, (f i).core = i.core)
    (hsame : ∀ i, i.task_id = k → f i = i) (ht : i.task_id = k) :
    i ∈ items.map f ↔ i ∈ items := by
  refine ⟨fun hmem => ?_, fun hmem => List.mem_map.mpr ⟨i, hmem, hsame i ht⟩⟩
  obtain ⟨j, hj, rfl⟩ := List.mem_map.mp hmem
  rw [hsame j ((core_eq_fields (hcore j)).2.1.symm.trans ht)]
  exact hj

theorem resetRow_other (h : i.task_id ≠ r.task.id) : resetRow db r i = i := by
  have : ItemRepo.resettable db r.task.id (some r.actor.tenant_id) i = false := by
    simp [ItemRepo.resettable, h]
  simp [resetRow, this]

theorem resetRow_decided (h : Decided i) : Decided (resetRow db r i) := by
  unfold resetRow
  split
  · exact .inl rfl
  · exact h

/-- A reset leaves no failed item where it resets any. -/
theorem reset_none_failed (hre : ItemRepo.resettable db r.task.id (some r.actor.tenant_id) j = true)
    (hi : i ∈ items.map (resetRow db r)) (ht : i.task_id = r.task.id) : i.upload_status ≠ .failed := by
  obtain ⟨k, _, rfl⟩ := List.mem_map.mp hi
  have htask : k.task_id = r.task.id := (core_eq_fields (resetRow_core db r k)).2.1.symm.trans ht
  simp only [ItemRepo.resettable, Bool.and_eq_true] at hre
  by_cases hk : k.upload_status = .failed
  · simp [reset_pending hk (htask ▸ hre.2) htask]
  · unfold resetRow
    split
    · simp
    · exact hk

/-- A retry that resets nothing leaves the items as they are. -/
theorem reset_nothing
    (h : ¬∃ i ∈ db.items, ItemRepo.resettable db r.task.id (some r.actor.tenant_id) i = true) :
    db.items.map (resetRow db r) = db.items := by
  refine (List.map_congr_left (fun i hi => ?_)).trans (List.map_id _)
  exact if_neg (fun hr => h ⟨i, hi, hr⟩)

theorem status_of (hn : (db.tasks.map Task.id).Nodup) (ht : t ∈ db.tasks) :
    statusOf db t.id = some t.status := by
  have hfind : Rows.find? db.tasks t.id = some t := Rows.find_of_mem hn ht
  simp [statusOf, hfind]

theorem owner_allows (ht : t ∈ db.tasks) (ha : Writer t actor) :
    ItemRepo.ownerAllows db (some actor.tenant_id) t.id = true := by
  simp only [ItemRepo.ownerAllows, List.any_eq_true]
  exact ⟨t, ht, by simp [ha.tenant]⟩

/-- A retry of a failed task resets its failed items, and the task resumes. -/
theorem retried_resumes (hs : SelectsPending select) (hn : (db.tasks.map Task.id).Nodup)
    (hfree : Unclaimed settings claims t) (ht : t ∈ db.tasks)
    (heach : ∀ i ∈ db.items, i.task_id = t.id → i.deliverable = true → Decided i)
    (hfailed : t.status = .failed ∨ t.status = .partial_failed)
    (hsome : ∃ i ∈ db.items, i.task_id = t.id ∧ i.deliverable = true ∧ i.upload_status = .failed)
    (hr : Writer t retrier) (hu : Writer t uploader) :
    Resumes settings select claims db (Tasks.retry_write db retrier t) uploader t.id := by
  let r : WriteRequest := ⟨0, .retry, retrier, t⟩
  have howner := owner_allows ht hr
  obtain ⟨_, hwrite, hitems, _⟩ := retry_tables db r
  have hre : Reopens db r := by
    obtain ⟨f, hf, hft, _, hfs⟩ := hsome
    exact ⟨⟨f, hf, by simp [ItemRepo.resettable, r, hft, hfs, howner]⟩, hfailed⟩
  have hrow : Tasks.reopen t t ∈ (Tasks.retry_write db retrier t).tasks := by
    rw [hwrite hre]
    exact Rows.mem_update_of_mem ht rfl
  have hkeys : ((Tasks.retry_write db retrier t).tasks.map Task.id).Nodup := by
    rw [hwrite hre, Rows.update_map (f := Tasks.reopen t) Task.id (fun _ => rfl)]
    exact hn
  refine confirmed_resumes (t := Tasks.reopen t t) hs hkeys hfree hrow rfl ⟨hu.tenant, hu.writes⟩
    (fun i hi => ⟨resetRow db r i, hitems ▸ List.mem_map_of_mem hi.row, ?_⟩)
  obtain ⟨hid, htask, _, _, hdel⟩ := core_eq_fields (resetRow_core db r i)
  refine ⟨hid, htask.trans hi.task, hdel.trans hi.deliverable, ?_⟩
  rcases heach i hi.row hi.task hi.deliverable with hp | hfail | hup
  · unfold resetRow
    split <;> simp [hp]
  · exact reset_pending hfail (hi.task ▸ howner) hi.task
  · exact absurd hup hi.missing

/-- A settled task with something left to deliver can be uploaded again, unless its claim is held. -/
theorem settled_recoverable (hs : SelectsPending select) (hn : (db.tasks.map Task.id).Nodup)
    (ht : t ∈ db.tasks) (h : Settled db.items t) (hpast : ReachedConfirmation t.status = true)
    (hleft : ∃ i, Undelivered db t.id i) :
    Recoverable settings select claims db t ↔ Unclaimed settings claims t := by
  constructor
  · intro hrec
    have ha : Writer t ⟨t.owner_tenant_id, "", .hq_uploader⟩ := ⟨rfl, rfl⟩
    obtain ⟨hconfirmed, hretried⟩ := hrec _ _ ha ha
    by_cases hst : t.status = .confirmed
    · exact (granted_iff ha).mp (hconfirmed hst).granted
    · obtain ⟨_, _, hr⟩ := hretried hst
      exact (granted_iff ha).mp hr.granted
  intro hfree retrier uploader hr hu
  refine ⟨fun hst => confirmed_resumes hs hn hfree ht hst hu (fun i hi => ?_), fun hst => ?_⟩
  · have hno := h.confirmed hst i hi.row hi.task hi.deliverable
    rcases h.each i hi.row hi.task hi.deliverable with hp | hf | hup
    · exact ⟨i, hi.row, rfl, hi.task, hi.deliverable, hp⟩
    · exact absurd hf hno
    · exact absurd hup hi.missing
  · obtain ⟨i, hi⟩ := hleft
    rcases h.ended hpast hst with hall | ⟨hfailed, hsome⟩
    · exact absurd (hall i hi.row hi.task hi.deliverable) hi.missing
    · refine ⟨Tasks.retry_write db retrier t, ?_,
        retried_resumes hs hn hfree ht h.each hfailed hsome hr hu⟩
      simp [Tasks.retry_task, read_task hn ht hr, Except.map]

end FileDelivery.Proofs.Recovery
