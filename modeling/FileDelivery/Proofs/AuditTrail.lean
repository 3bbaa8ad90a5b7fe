import FileDelivery.Bridge.Replay
import FileDelivery.Library.Journal
import FileDelivery.Proofs.LostWrites
import FileDelivery.Proofs.PlatformTables

namespace FileDelivery.Proofs.AuditTrail
open FileDelivery.Library FileDelivery.Library.Runs FileDelivery.Library.Journal
open FileDelivery.Control FileDelivery.Bridge FileDelivery.Proofs.ApplyResult
open FileDelivery.Bridge.RowLoads (platform)
open FileDelivery.Proofs.Effects FileDelivery.Proofs.Tables FileDelivery.Proofs.Moves
open FileDelivery.Proofs.LostWrites FileDelivery.Proofs.PlatformTables FileDelivery.Proofs.RunMoves

/-- The columns of a task that its events account for. -/
structure Shown where
  status : TaskStatus
  summary_json : Option ClassifySummary
  deriving DecidableEq, Repr

def shown (task : Task) : Option Shown := some ⟨task.status, task.summary_json⟩

/-- What an event tells about its task. A retry that resets items reopens the task or does
not, by the status that it has read. -/
def Tells : EventPayload → Option Shown → Option Shown → Prop
  | .task_created _ _, _, after => after = some ⟨.draft, none⟩
  | .classified _ summary, some _, after => after = some ⟨.classified, some summary⟩
  | .confirmed _, some before, after => after = some { before with status := .confirmed }
  | .task_queued _ _ _ _, some before, after => after = some { before with status := .queued }
  | .task_retry_requested _ reset_count, some before, after =>
    after = some before ∨ 0 < reset_count ∧ after = some { before with status := .confirmed }
  | .delivery_result_applied _ status _ _ _ _ _ _ _, some before, after =>
    after = some { before with status := .ofString status }
  | .upload_started, some before, after => after = some { before with status := .uploading }
  | .task_completed _ failed _ _, some before, after =>
    after = some { before with status := TaskRunner.final_status failed }
  | .task_failed _, some before, after => after = some { before with status := .failed }
  | _, before, after => after = before

/-- The actor that the event of a task request names. -/
def actorOf : EventPayload → Option CurrentActor
  | .task_created actor _ | .classified actor _ | .confirmed actor | .task_staged_source actor _
  | .task_queued actor _ _ _ | .task_upload_requested actor | .task_retry_requested actor _ => some actor
  | .task_staged_source_deleted actor _ _ _ _ _ => actor
  | _ => none

/-- The events of a task, in the order of their commits. -/
def history (db : Db) : List (Nat × EventPayload) := db.events.map (fun e => (e.task_id, e.payload))

/-- A writer of the tenant that owns the task. -/
def Allowed (db : Db) (k : Nat) (actor : CurrentActor) : Prop :=
  actor.can_write_tasks = true ∧ ∃ dir, KnownTask db k actor.tenant_id dir

def Present (db : Db) (k : Nat) : Prop := ∃ owner dir, KnownTask db k owner dir

theorem Allowed.present (h : Allowed db k actor) : Present db k :=
  ⟨actor.tenant_id, h.2⟩

/-- No task goes away, and none changes hands. -/
def Kept (a b : Db) : Prop := ∀ k owner dir, KnownTask a k owner dir → KnownTask b k owner dir

theorem Allowed.kept (h : Allowed a k actor) (hk : Kept a b) : Allowed b k actor :=
  ⟨h.1, h.2.imp (fun _ => hk _ _ _)⟩

theorem Present.kept (h : Present a k) (hk : Kept a b) : Present b k :=
  h.imp (fun _ => Exists.imp (fun _ => hk _ _ _))

theorem Kept.of_tasks (h : b.tasks = a.tasks) : Kept a b := by
  intro k owner dir hk
  unfold KnownTask
  rwa [h]

theorem Kept.of_update {f : Task → Task} (h : b.tasks = Rows.update a.tasks j f)
    (hid : ∀ x, (f x).id = x.id) (howner : ∀ x, (f x).owner_tenant_id = x.owner_tenant_id)
    (hdir : ∀ x, (f x).temp_dir = x.temp_dir) : Kept a b := by
  intro k owner dir hk
  obtain ⟨x, hx, hxid, hxowner, hxdir⟩ := hk
  unfold KnownTask
  rw [h]
  by_cases hk : x.id = j
  · exact ⟨f x, Rows.mem_update_of_mem hx hk, (hid x).trans hxid, (howner x).trans hxowner,
      (hdir x).trans hxdir⟩
  · exact ⟨x, Rows.mem_update_of_ne hx hk, hxid, hxowner, hxdir⟩

/-- The log tells how every row came about, and who was allowed to write to it. -/
structure Audited (db : Db) : Prop where
  accounts : Accounts Tells none shown db.tasks (history db)
  present : ∀ e ∈ db.events, Present db e.task_id
  actors : ∀ e ∈ db.events, ∀ actor ∈ actorOf e.payload, Allowed db e.task_id actor

/-- One more event, with the write that it tells about. -/
theorem Audited.snoc (h : Audited a)
    (hacc : Accounts Tells none shown b.tasks (history a ++ [(k, payload)])) (hk : Kept a b)
    (he : b.events = a.events) (hpresent : Present b k)
    (hactor : ∀ actor ∈ actorOf payload, Allowed b k actor) :
    Audited (EventRepo.append b k payload) := by
  refine ⟨?_, ?_, ?_⟩
  · simpa only [history, EventRepo.append, he, List.map_append, List.map_cons, List.map_nil] using hacc
  · simp only [EventRepo.append, he]
    exact Rows.append_all (fun e hmem => (h.present e hmem).kept hk) hpresent
  · simp only [EventRepo.append, he]
    exact Rows.append_all (fun e hmem actor ha => (h.actors e hmem actor ha).kept hk) hactor

/-- An event that leaves the rows as they are. -/
theorem Audited.note (h : Audited a) (ht : b.tasks = a.tasks) (he : b.events = a.events)
    (htells : ∀ x : Task, Tells payload (shown x) (shown x)) (hpresent : Present a k)
    (hactor : ∀ actor ∈ actorOf payload, Allowed a k actor) :
    Audited (EventRepo.append b k payload) := by
  have hk : Kept a b := .of_tasks ht
  refine h.snoc ?_ hk he (hpresent.kept hk) (fun actor ha => (hactor actor ha).kept hk)
  rw [ht]
  exact h.accounts.note (fun x _ _ => htells x)

theorem Audited.write {f : Task → Task} (h : Audited a) (ht : b.tasks = Rows.update a.tasks k f)
    (he : b.events = a.events) (hid : ∀ x, (f x).id = x.id)
    (howner : ∀ x, (f x).owner_tenant_id = x.owner_tenant_id)
    (hdir : ∀ x, (f x).temp_dir = x.temp_dir)
    (htells : ∀ x, Tells payload (shown x) (shown (f x))) (hpresent : Present a k)
    (hactor : ∀ actor ∈ actorOf payload, Allowed a k actor) :
    Audited (EventRepo.append b k payload) := by
  have hk : Kept a b := .of_update ht hid howner hdir
  refine h.snoc ?_ hk he (hpresent.kept hk) (fun actor ha => (hactor actor ha).kept hk)
  rw [ht]
  exact h.accounts.write hid (fun x _ _ => htells x)

/-- The columns that a status write assigns. -/
def restatus (st : TaskStatus) (c f : Option Time) (t : Task) : Task :=
  { t with status := st, confirmed_at := c.or t.confirmed_at, finished_at := f.or t.finished_at }

/-- A status write reaches the row, unless the tenant filter hides it. -/
theorem update_status_rows (db : Db) (k : Nat) (st : TaskStatus) (ten : Option String)
    (c f : Option Time) (h : ∀ x, Rows.find? db.tasks k = some x →
      tenantAllows ten x.owner_tenant_id = true) :
    (TaskRepo.update_status db k st ten c f).tasks = Rows.update db.tasks k (restatus st c f) := by
  simp only [TaskRepo.update_status, TaskRepo.get]
  cases hf : Rows.find? db.tasks k with
  | none => exact (Rows.update_absent hf).symm
  | some x =>
    rw [Option.filter_some, if_pos (h x hf)]
    rfl

/-- The owner's filter hides no row of the task. -/
theorem Allowed.finds (hw : Wellformed cfg db) (h : Allowed db k actor)
    (hx : Rows.find? db.tasks k = some x) :
    tenantAllows (some actor.tenant_id) x.owner_tenant_id = true := by
  obtain ⟨_, dir, hk⟩ := h
  have hmem : KnownTask db k x.owner_tenant_id x.temp_dir :=
    ⟨x, Rows.find_mem hx, Rows.find_key hx, rfl, rfl⟩
  simp [tenantAllows, (known_unique hw hk hmem).1]

/-- A status write with its event. -/
theorem Audited.restatus (h : Audited db) (st : TaskStatus) (ten : Option String)
    (c f : Option Time)
    (hten : ∀ x, Rows.find? db.tasks k = some x → tenantAllows ten x.owner_tenant_id = true)
    (htells : ∀ x : Task, Tells payload (shown x) (some ⟨st, x.summary_json⟩))
    (hpresent : Present db k) (hactor : ∀ actor ∈ actorOf payload, Allowed db k actor) :
    Audited (EventRepo.append (TaskRepo.update_status db k st ten c f) k payload) :=
  h.write (update_status_rows db k st ten c f hten) (update_status_events _ _ _ _ _ _)
    (fun _ => rfl) (fun _ => rfl) (fun _ => rfl) htells hpresent hactor

/-- Rows and events as they were. -/
theorem Audited.of_same (h : Audited a) (ht : b.tasks = a.tasks) (he : b.events = a.events) :
    Audited b := by
  have hk : Kept a b := .of_tasks ht
  refine ⟨?_, fun e hmem => (h.present e (he ▸ hmem)).kept hk,
    fun e hmem actor ha => (h.actors e (he ▸ hmem) actor ha).kept hk⟩
  rw [ht, history, he]
  exact h.accounts

theorem read_allowed (h : Tasks.readTask db actor t = .ok task) : Allowed db task.id actor := by
  refine ⟨?_, task.temp_dir, Flow.read_known h⟩
  unfold Tasks.readTask at h
  split at h
  · assumption
  · cases h

theorem create_audited (hw : Wellformed cfg db) (ha : Audited db)
    (h : Tasks.create_task py settings db actor key uploads label = .ok (.created db' t dir)) :
    Audited db' := by
  have hwriter : actor.can_write_tasks = true := by
    unfold Tasks.create_task at h
    split at h
    · assumption
    · cases h
  obtain ⟨text, rfl, rfl⟩ := create_spec h
  let task := Tasks.draftTask settings db actor key text
  have hnew : KnownTask { db with tasks := db.tasks ++ [task], next_id := db.next_id + 1 } db.next_id
      actor.tenant_id task.temp_dir :=
    ⟨task, List.mem_append_right _ (List.mem_singleton_self _), rfl, rfl, rfl⟩
  refine ha.snoc ?_ ?_ rfl ⟨_, _, hnew⟩ ?_
  · refine ha.accounts.insert (r := task) ?_ ?_ rfl
    · intro x hx
      obtain ⟨e, he, rfl⟩ := List.mem_map.mp hx
      obtain ⟨_, _, row, hrow, hid, _⟩ := ha.present e he
      have := hw.task_fresh row hrow
      exact Nat.ne_of_lt (hid ▸ this)
    · exact fun q hq => Nat.ne_of_lt (hw.task_fresh q hq)
  · rintro k owner path ⟨row, hrow, hrest⟩
    exact ⟨row, List.mem_append_left _ hrow, hrest⟩
  · intro a hmem
    cases hmem
    exact ⟨hwriter, _, hnew⟩

theorem classify_audited (hw : Wellformed cfg db) (ha : Audited db)
    (h : Tasks.classify_task py profile dir db actor t = .ok db') : Audited db' := by
  have hallowed : Allowed db t actor := by
    unfold Tasks.classify_task at h
    obtain ⟨task, hread, _⟩ := Fallible.bind_ok.mp h
    obtain rfl : task.id = t := Rows.find_key (Flow.read_spec hread).1
    exact read_allowed hread
  obtain ⟨_, items, summary, inserted, _, _, _, hinsert, rfl⟩ := classify_spec h
  obtain ⟨rows, _, _, _, rfl⟩ := insert_spec hinsert (by simp [Tasks.itemRow])
  refine ha.write (f := fun x => restatus .classified none none (Tasks.setSummary summary x)) ?_
    (update_status_events _ _ _ _ _ _) (fun _ => rfl) (fun _ => rfl) (fun _ => rfl) (fun _ => rfl)
    hallowed.present ?_
  · rw [update_status_rows]
    · exact Rows.update_update (fun _ => rfl)
    · intro x hx
      simp only at hx
      rw [Rows.find_update (f := Tasks.setSummary summary) (fun _ => rfl)] at hx
      cases hf : Rows.find? db.tasks t with
      | none => simp [hf] at hx
      | some row =>
        simp only [hf, if_true, Option.map_some, Option.some.injEq] at hx
        subst hx
        have howner := hallowed.finds hw hf
        exact howner
  · intro a hmem
    cases hmem
    exact hallowed

/-- The writes of confirm and retry requests. -/
theorem write_audited (hw : Wellformed cfg db) (ha : Audited db) (r : WriteRequest)
    (hallowed : Allowed db r.task.id r.actor) : Audited (writeDb db r) := by
  have hactor : ∀ actor ∈ some r.actor, Allowed db r.task.id actor := by
    intro actor hmem
    cases hmem
    exact hallowed
  unfold writeDb
  split
  · exact ha.restatus _ _ _ _ (fun x hx => hallowed.finds hw hx) (fun _ => rfl) hallowed.present hactor
  · unfold Tasks.retry_write
    simp only
    split
    · rename_i hreset
      exact ha.write (f := Tasks.reopen r.task) rfl rfl (fun _ => rfl) (fun _ => rfl) (fun _ => rfl)
        (fun _ => .inr ⟨hreset.1, rfl⟩) hallowed.present hactor
    · exact ha.note rfl rfl (fun _ => .inl rfl) hallowed.present hactor

theorem queue_audited (hw : Wellformed cfg db) (ha : Audited db) (hallowed : Allowed db t actor)
    (settings : Settings) (count : Nat) :
    Audited (Tasks.queue_write settings db actor t count) := by
  refine ha.restatus _ _ _ _ (fun x hx => hallowed.finds hw hx) (fun _ => rfl) hallowed.present ?_
  intro a hmem
  cases hmem
  exact hallowed

theorem nobody_allowed (h : actorOf payload = none) : ∀ actor ∈ actorOf payload, Allowed db t actor := by
  simp [h]

theorem apply_audited (bucket : Text) (ha : Audited db) (m : DeliveryResultMessage) :
    Audited (apply_delivery_result bucket db m).1 := by
  cases h : TaskRepo.get db m.task_id none with
  | none => rwa [apply_missing h]
  | some task =>
    have hframe := apply_loop_frame bucket task m ⟨db, 0, [], 0, []⟩ m.items
    have hfind := get_find h
    simp only [apply_delivery_result, h]
    generalize m.items.foldl (apply_item bucket task m) ⟨db, 0, [], 0, []⟩ = acc at hframe ⊢
    have hacc : Audited acc.db := ha.of_same hframe.tasks hframe.events
    have hpresent : Present acc.db m.task_id := by
      refine ⟨task.owner_tenant_id, task.temp_dir, task, ?_, Rows.find_key hfind, rfl, rfl⟩
      rw [hframe.tasks]
      exact Rows.find_mem hfind
    have hten : ∀ x, Rows.find? acc.db.tasks m.task_id = some x →
        tenantAllows (some task.owner_tenant_id) x.owner_tenant_id = true := by
      intro x hx
      rw [hframe.tasks, hfind] at hx
      cases hx
      simp [tenantAllows]
    have hdone : Audited (EventRepo.append (TaskRepo.update_status acc.db m.task_id
        (.ofString m.status) (some task.owner_tenant_id) none (some m.ended_at)) m.task_id
        (.delivery_result_applied m.topic m.status m.uploaded m.failed m.processed acc.applied_items
          acc.missing_items acc.workspace_objects_created acc.workspace_mapping_missing)) :=
      hacc.restatus _ _ _ _ hten (fun _ => rfl) hpresent (nobody_allowed rfl)
    unfold finish_apply
    split
    · exact hdone
    · refine hdone.note rfl rfl (fun _ => rfl) ?_ (nobody_allowed rfl)
      exact hdone.present _ (List.mem_append_right _ (List.mem_singleton_self _))

/-- A status that a background run writes, with its event. -/
theorem run_audited (ha : Audited db) (hpresent : Present db run.task_id)
    (hm : RunMove db run action db' next) : Audited db' := by
  have written : ∀ st c f payload, (∀ x : Task, Tells payload (shown x) (some ⟨st, x.summary_json⟩)) →
      actorOf payload = none →
      Audited (EventRepo.append (TaskRepo.update_status db run.task_id st none c f) run.task_id payload) := by
    intro st c f payload htells hnobody
    refine ha.restatus st none c f (fun _ _ => rfl) htells hpresent ?_
    simp [hnobody]
  cases hm with
  | started => exact written _ _ _ _ (fun _ => rfl) rfl
  | completed => exact written _ _ _ _ (fun _ => rfl) rfl
  | finalized => exact written _ _ _ _ (fun _ => rfl) rfl
  | failed => exact written _ _ _ _ (fun _ => rfl) rfl
  | item c db' stage hc hitem =>
    rcases (item_moves hitem).2 with ⟨st, e, at', rfl, _⟩ | ⟨rfl, _⟩
    · refine ha.of_same (set_same db c.item st e at').1 ?_
      simp only [TaskRunner.setStatus, ItemRepo.update_upload_status]
      split <;> rfl
    · exact ha
  | _ => exact ha

/-- A run stays with its task. -/
theorem next_task (hm : RunMove db run action db' next) : ∀ q ∈ next, q.task_id = run.task_id := by
  cases hm <;> rintro q ⟨⟩ <;> rfl

theorem runs_present (h : ∀ run ∈ runs, Present db run.task_id) (hr : Rows.find? runs rid = some run)
    (hm : RunMove db run action db' next) :
    ∀ q ∈ Background.setRun runs rid next, Present db q.task_id := by
  intro q hq
  cases next with
  | none => exact h q ((Rows.erase_sublist _ _).subset hq)
  | some stepped =>
    obtain ⟨p, hp, he⟩ := Rows.mem_update.mp hq
    split at he
    all_goals subst he
    · exact next_task hm _ rfl ▸ h run (Rows.find_mem hr)
    · exact h p hp

/-- What a cleanup job reports about deleted sources. -/
def Reported (db : Db) (x : Nat × EventPayload) : Prop :=
  Present db x.1 ∧ ∃ bucket key reason source at',
    x.2 = .task_staged_source_deleted none bucket key reason source at'

theorem Reported.kept (h : Reported a x) (hk : Kept a b) : Reported b x := ⟨h.1.kept hk, h.2⟩

theorem reports_audited (events : List (Nat × EventPayload)) (ha : Audited db)
    (h : ∀ x ∈ events, Reported db x) :
    Audited (events.foldl (fun db e => EventRepo.append db e.1 e.2) db) := by
  induction events generalizing db with
  | nil => exact ha
  | cons x events ih =>
    obtain ⟨k, payload⟩ := x
    obtain ⟨hpresent, bucket, key, reason, source, at', hx⟩ := h _ List.mem_cons_self
    cases hx
    have hfirst : Audited (EventRepo.append db k (.task_staged_source_deleted none bucket key reason
        source at')) :=
      ha.note rfl rfl (fun _ => rfl) hpresent (nobody_allowed rfl)
    exact ih hfirst (fun y hy => (h y (List.mem_cons_of_mem _ hy)).kept (fun _ _ _ hk => hk))

/-- Requests act for writers of the owner, runs and jobs on tasks that exist. -/
structure Sound (s : Platform.State) : Prop where
  audited : Audited s.base.db
  uploads : ∀ r ∈ s.base.uploads, Allowed s.base.db r.task.id r.actor
  writes : ∀ r ∈ s.base.writes, Allowed s.base.db r.task.id r.actor
  runs : ∀ run ∈ s.runs, Present s.base.db run.task_id
  candidates : ∀ c ∈ s.base.cleanups, ∀ e ∈ c.candidates, Present s.base.db e.task_id
  reports : ∀ c ∈ s.base.cleanups, ∀ x ∈ c.events, Reported s.base.db x

/-- A step that at most drops requests, runs and jobs. -/
theorem Sound.step_of (h : Sound s) (ha : Audited t.base.db) (hk : Kept s.base.db t.base.db)
    (hu : ∀ r ∈ t.base.uploads, Allowed s.base.db r.task.id r.actor)
    (hw : ∀ r ∈ t.base.writes, Allowed s.base.db r.task.id r.actor)
    (hr : ∀ run ∈ t.runs, Present s.base.db run.task_id)
    (hc : t.base.cleanups ⊆ s.base.cleanups) : Sound t where
  audited := ha
  uploads := fun r hmem => (hu r hmem).kept hk
  writes := fun r hmem => (hw r hmem).kept hk
  runs := fun run hmem => (hr run hmem).kept hk
  candidates := fun c hmem e he => (h.candidates c (hc hmem) e he).kept hk
  reports := fun c hmem x hx => (h.reports c (hc hmem) x hx).kept hk

/-- The stage of a request has no part in what it is allowed to. -/
theorem stage_allowed (h : ∀ r ∈ uploads, Allowed db r.task.id r.actor) (rid : Nat)
    (next : Option UploadStage) : ∀ r ∈ setStage uploads rid next, Allowed db r.task.id r.actor := by
  intro r hr
  cases next with
  | none => exact h r ((Rows.erase_sublist _ _).subset hr)
  | some stage =>
    obtain ⟨q, hq, he⟩ := Rows.mem_update.mp hr
    split at he
    all_goals
      subst he
      exact h q hq

/-- What a step of an upload request leaves in the database. -/
theorem upload_audited (hw : Wellformed cfg s.db) (ha : Audited s.db)
    (hallowed : Allowed s.db r.task.id r.actor)
    (h : uploadEffect cfg s r stage action = some (u, next)) : Audited u.db := by
  have noted : ∀ payload, (∀ x : Task, Tells payload (shown x) (shown x)) →
      actorOf payload = some r.actor → Audited (EventRepo.append s.db r.task.id payload) := by
    intro payload htells hactor
    refine ha.note rfl rfl htells hallowed.present ?_
    simpa [hactor] using hallowed
  have hmove := uploadEffect_move h
  cases hmove with
  | recorded => exact noted _ (fun _ => rfl) rfl
  | committed => exact queue_audited hw ha hallowed _ _
  | reported =>
    have hdb := congrArg State.db (congrArg Prod.fst (Option.some.inj h))
    exact hdb ▸ noted _ (fun _ => rfl) rfl
  | _ => exact ha

/-- A job that reads its candidates, deletes, reports or goes away. -/
theorem cleanup_sound (hs : Sound s) (h : Bridge.cleanup s.base action = some base) :
    Sound { s with base := base } := by
  have keep : ∀ (cid : Nat) (f : Cleanup → Cleanup) (staging : Objects Archive),
      (∀ c ∈ s.base.cleanups, ∀ e ∈ (f c).candidates, Present s.base.db e.task_id) →
      (∀ c ∈ s.base.cleanups, ∀ x ∈ (f c).events, Reported s.base.db x) →
      Sound { s with base := { s.base with
        staging := staging, cleanups := Rows.update s.base.cleanups cid f } } := by
    intro cid f staging hcand hrep
    refine ⟨hs.audited, hs.uploads, hs.writes, hs.runs, ?_, ?_⟩
    all_goals
      intro c hc
      obtain ⟨q, hq, he⟩ := Rows.mem_update.mp hc
      split at he
      all_goals subst he
    · exact hcand q hq
    · exact hs.candidates q hq
    · exact hrep q hq
    · exact hs.reports q hq
  cases action with
  | read retention bucket_name =>
    cases h
    refine ⟨hs.audited, hs.uploads, hs.writes, hs.runs, ?_, ?_⟩
    · refine Rows.append_all hs.candidates (fun e he => hs.audited.present e ?_)
      exact List.mem_of_mem_filter ((List.mem_insertionSort _).mp he)
    · exact Rows.append_all hs.reports (fun _ hmem => nomatch hmem)
  | delete cid ok =>
    obtain ⟨c, hc, h⟩ := Option.bind_eq_some_iff.mp h
    have hmem := Rows.find_mem hc
    split at h
    · cases h
    · rename_i event rest hcand
      have hrest : ∀ e ∈ rest, Present s.base.db e.task_id :=
        fun e he => hs.candidates c hmem e (hcand ▸ List.mem_cons_of_mem _ he)
      split at h
      all_goals cases h
      · rename_i target _
        refine keep cid (fun c => { c with
          candidates := rest, events := c.events ++ [cleanupEvent s.base.db event target] }) _
          (fun _ _ => hrest) (fun q hq => Rows.append_all (hs.reports q hq) ?_)
        exact ⟨hs.candidates c hmem event (hcand ▸ List.mem_cons_self), _, _, _, _, _, rfl⟩
      · exact keep cid (fun c => { c with candidates := rest }) s.base.staging (fun _ _ => hrest)
          (fun q hq => hs.reports q hq)
  | commit cid =>
    obtain ⟨c, hc, h⟩ := Option.bind_eq_some_iff.mp h
    split at h
    · cases h
      have ha := reports_audited c.events hs.audited (hs.reports c (Rows.find_mem hc))
      exact hs.step_of ha (.of_tasks (appends_frame c.events s.base.db).1) hs.uploads hs.writes hs.runs
        (Rows.erase_sublist _ _).subset
    · cases h
  | crash cid =>
    obtain ⟨c, _, rfl⟩ := Option.map_eq_some_iff.mp h
    exact hs.step_of hs.audited (fun _ _ _ hk => hk) hs.uploads hs.writes hs.runs
      (Rows.erase_sublist _ _).subset

theorem checked_read (h : checked db kind actor t = .ok task) : Tasks.readTask db actor t = .ok task := by
  cases kind with
  | retry => exact h
  | confirm =>
    obtain ⟨row, hread, h⟩ := Fallible.bind_ok.mp h
    split at h
    · cases h
    · split at h
      · cases h
      · cases h
        exact hread

theorem upload_sound (hw : Wellformed cfg s.base.db) (hs : Sound s) (hk : Kept s.base.db base.db)
    (h : Bridge.upload cfg s.base rid action = some base) : Sound { s with base := base } := by
  obtain ⟨r, hr, h⟩ := Option.bind_eq_some_iff.mp h
  obtain ⟨⟨u, next⟩, hu, rfl⟩ := Option.map_eq_some_iff.mp h
  have ha := upload_audited hw hs.audited (hs.uploads r (Rows.find_mem hr)) hu
  have hmove := uploadEffect_move hu
  refine hs.step_of ha hk (stage_allowed hs.uploads rid next) ?_ hs.runs ?_
  · exact fun q hq => hs.writes q ((Flow.move_frame hmove).1 ▸ hq)
  · generalize r.stage = stage at hmove
    cases hmove <;> exact List.Subset.refl _

theorem request_sound (hw : Wellformed cfg s.base.db) (hs : Sound s)
    (h : Bridge.step cfg s.base action = some base) : Sound { s with base := base } := by
  have hk : Kept s.base.db base.db := fun _ _ _ hknown => effect_known_task (step_effect h) hknown
  by_cases hup : ∃ rid action', action = .upload rid action'
  · obtain ⟨rid, action', rfl⟩ := hup
    exact upload_sound hw hs hk h
  cases step_moves h with
  | requested r u next hr hmove => exact absurd ⟨_, _, rfl⟩ hup
  | created db t dir hcreate =>
    exact hs.step_of (create_audited hw hs.audited hcreate) hk hs.uploads hs.writes hs.runs
      (List.Subset.refl _)
  | classified dir db hclassify =>
    exact hs.step_of (classify_audited hw hs.audited hclassify) hk hs.uploads hs.writes hs.runs
      (List.Subset.refl _)
  | read task hread =>
    have hnew := read_allowed (checked_read hread)
    exact hs.step_of hs.audited hk hs.uploads (Rows.append_all hs.writes hnew) hs.runs
      (List.Subset.refl _)
  | wrote r hr =>
    have hallowed := hs.writes r (Rows.find_mem hr)
    exact hs.step_of (write_audited hw hs.audited r hallowed) hk hs.uploads
      (fun q hq => hs.writes q ((Rows.erase_sublist _ _).subset hq)) hs.runs (List.Subset.refl _)
  | began task hcheck =>
    have hnew := read_allowed (Flow.upload_check_spec hcheck).1
    exact hs.step_of hs.audited hk (Rows.append_all hs.uploads hnew) hs.writes hs.runs
      (List.Subset.refl _)
  | worked hmove =>
    cases hmove
    all_goals exact hs.step_of hs.audited hk hs.uploads hs.writes hs.runs (List.Subset.refl _)
  | applied p hp =>
    exact hs.step_of (apply_audited _ hs.audited p.message) hk hs.uploads hs.writes hs.runs
      (List.Subset.refl _)
  | cleaned hmove => exact cleanup_sound hs h
  | _ =>
    exact hs.step_of (hs.audited.of_same rfl rfl) hk hs.uploads hs.writes hs.runs (List.Subset.refl _)

theorem step_sound (hw : Wellformed cfg s.base.db) (hs : Sound s)
    (h : Platform.step cfg s a = some t) : Sound t := by
  cases a with
  | request action =>
    obtain ⟨base, hb, rfl⟩ := Option.map_eq_some_iff.mp h
    exact request_sound hw hs hb
  | schedule rid =>
    obtain ⟨r, hr, h⟩ := Option.bind_eq_some_iff.mp h
    split at h
    · cases h
      have hallowed := hs.uploads r (Rows.find_mem hr)
      have ha : Audited (EventRepo.append s.base.db r.task.id (.task_upload_requested r.actor)) := by
        refine hs.audited.note rfl rfl (fun _ => rfl) hallowed.present ?_
        rintro _ ⟨rfl⟩
        exact hallowed
      exact hs.step_of ha (fun _ _ _ hk => hk)
        (fun q hq => hs.uploads q ((Rows.erase_sublist _ _).subset hq)) hs.writes
        (Rows.append_all hs.runs hallowed.present) (List.Subset.refl _)
    · cases h
  | run rid action =>
    obtain ⟨run, hr, h⟩ := Option.bind_eq_some_iff.mp h
    obtain ⟨⟨db, next⟩, hrun, he⟩ := Option.map_eq_some_iff.mp h
    cases he
    have hm := run_moves hrun
    have hpresent := hs.runs run (Rows.find_mem hr)
    exact hs.step_of (run_audited hs.audited hpresent hm) (fun _ _ _ hk => move_known_task hm hk)
      hs.uploads hs.writes (runs_present hs.runs hr hm) (List.Subset.refl _)
  | deliver message =>
    cases h
    exact hs.step_of (apply_audited _ hs.audited message) (fun _ _ _ hk => result_known_task _ _ hk)
      hs.uploads hs.writes hs.runs (List.Subset.refl _)

theorem initial_sound : Sound Platform.initial := by
  refine ⟨⟨?_, ?_, ?_⟩, ?_, ?_, ?_, ?_, ?_⟩
  all_goals exact fun _ hmem => nomatch hmem

theorem reachable_sound (h : Run (Platform.step cfg) ok Platform.initial s) : Sound s := by
  have := h.invariant (fun s => Wellformed cfg s.base.db ∧ Sound s)
    ⟨initial_wellformed cfg, initial_sound⟩
    (fun _ _ _ hi _ hs => ⟨step_wellformed hi.1 hs, step_sound hi.1 hi.2 hs⟩)
  exact this.2

/-- A delivery with a failed item. -/
def failedOnce : List Bridge.Action :=
  Sample.confirmed 0 0 [("acme/a.txt".toList, [1])] ++ Sample.upload 0 1 ++
    Sample.run 2 0 [some (.limiter "closed")]

def requests (actions : List Bridge.Action) : List (RowLoads.Action Platform.Action) :=
  actions.map (.base ∘ .request)

/-- A session that applies its result. -/
def loaded (sid : Nat) : List (RowLoads.Action Platform.Action) := [.start, .loadTask sid 0]

def applied (sid : Nat) : List (RowLoads.Action Platform.Action) := [.land sid (.request (.apply 0))]

/-- Here a second application loads `partial_failed` and commits after a retry: its event has no effect. -/
theorem event_overtaken : ∃ s, Run (RowLoads.step platform Sample.cfg) Free (RowLoads.initial platform) s ∧
    ∃ task ∈ s.base.base.db.tasks, ¬Leads Tells none (entries (history s.base.base.db) task.id)
      (some ⟨task.status, task.summary_json⟩) := by
  obtain ⟨s, hs, task, hmem, hst, hlast⟩ := replay_reaches (RowLoads.step platform Sample.cfg) Free
    (p := fun s => ∃ task ∈ s.base.base.db.tasks, task.status = .confirmed ∧
      (entries (history s.base.base.db) task.id).getLast? =
        some (.delivery_result_applied "delivery.results.v1" "partial_failed" 0 1 1 1 [] 0 []))
    (RowLoads.initial platform) (requests failedOnce ++ loaded 0 ++ applied 0 ++ loaded 1 ++
      requests (Sample.retry 0 3) ++ applied 1) (by decide +kernel)
  refine ⟨s, hs, task, hmem, fun hleads => ?_⟩
  obtain ⟨before, htells⟩ := hleads.last hlast
  cases before with
  | none => cases htells
  | some shown =>
    have hstatus : task.status = .partial_failed := congrArg Shown.status (Option.some.inj htells)
    rw [hst] at hstatus
    cases hstatus

/-- The events of a task that name an actor name writers of its tenant. -/
theorem actors_own (hr : Run (Platform.step cfg) Free Platform.initial s) (he : e ∈ s.base.db.events)
    (ha : actorOf e.payload = some actor) :
    actor.can_write_tasks = true ∧
      ∃ task ∈ s.base.db.tasks, task.id = e.task_id ∧ task.owner_tenant_id = actor.tenant_id := by
  obtain ⟨hwrite, dir, task, hmem, hid, howner, _⟩ := (reachable_sound hr).audited.actors e he actor ha
  exact ⟨hwrite, task, hmem, hid, howner⟩

def retriedOnce : List Platform.Action :=
  (failedOnce ++ [Bridge.Action.apply 0] ++ Sample.retry 0 3).map .request

theorem actors_own_retried : ∃ s, Run (Platform.step Sample.cfg) Free Platform.initial s ∧
    ∃ e ∈ s.base.db.events, e.payload = .task_retry_requested Sample.actor 1 ∧
      ∃ task ∈ s.base.db.tasks, task.id = e.task_id ∧ task.owner_tenant_id = "hq" := by
  obtain ⟨s, hs, hp⟩ := replay_reaches (Platform.step Sample.cfg) Free
    (p := fun s => ∃ e ∈ s.base.db.events, e.payload = .task_retry_requested Sample.actor 1)
    Platform.initial retriedOnce (by decide +kernel)
  obtain ⟨e, he, hpayload⟩ := hp
  exact ⟨s, hs, e, he, hpayload, (actors_own hs he (by rw [hpayload]; rfl)).2⟩

end FileDelivery.Proofs.AuditTrail
