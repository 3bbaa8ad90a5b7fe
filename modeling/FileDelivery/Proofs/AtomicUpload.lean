import FileDelivery.Bridge.Replay
import FileDelivery.Bridge.UploadTask
import FileDelivery.Proofs.Flow

namespace FileDelivery.Proofs.AtomicUpload
open FileDelivery.Library FileDelivery.Library.Handlers FileDelivery.Library.Runs FileDelivery.Control
open FileDelivery.Bridge FileDelivery.Bridge.UploadTask

/-- Each staging event is followed by a deletion event for the same object. -/
def Reported (events : List TaskEvent) : Prop :=
  ∀ before e after source, events = before ++ e :: after →
    Staging.stagedSource e.payload = some source →
    ∃ d ∈ after, Staging.deletedSource d.payload = some (source.bucket, source.key)

/-- A request that has raised is as if it had not been made, but for its events. -/
structure Atomic (cfg : Config) (actor : CurrentActor) (task : Task) (w : World) (r : Request) :
    Prop where
  tasks : r.world.base.db.tasks = w.base.db.tasks
  items : r.world.base.db.items = w.base.db.items
  messages : r.world.base.messages = w.base.messages
  outbox : r.world.outbox = w.outbox
  topic : r.world.topic = w.topic
  unstaged : ∀ k ∈ r.staged, r.world.base.staging k = none
  reported : ∃ events, r.world.base.db.events = w.base.db.events ++ events ∧ Reported events
  released : r.world.base.claims = w.base.claims
  again : (cfg.settings.object_source = true → (archiveOf w.base task).isSome = true) →
    (upload_task cfg actor task.id none (start r.world)).1 = .ok (task.id, .queued)

/-- The handler does not see the archive that is stored when the call raises. -/
def Unseen (f : Failure) : Bool :=
  match f.point with
  | .list => false
  | .stage stored => stored
  | _ => f.cancelled

/-- The archive is stored, and no handler sees it. -/
def Escapes (cfg : Config) (s : State) (task : Task) (failure : Option Failure) : Prop :=
  cfg.settings.object_source = true ∧ (archiveOf s task).isSome = true ∧ failure.any Unseen = true

/-- Some call raises, the read of the archive where nothing else does. -/
def Fails (cfg : Config) (s : State) (task : Task) (failure : Option Failure) : Prop :=
  failure.isSome = true ∨ (cfg.settings.object_source = true ∧ archiveOf s task = none)

/-- The rows before or after the staging event. -/
def Noted (actor : CurrentActor) (task : Task) (source : SourceRef) (db db' : Db) : Prop :=
  db' = db ∨ db' = EventRepo.append db task.id (.task_staged_source actor source)

/-- The archive is stored, and nothing else is done but for the staging event. -/
structure Archived (actor : CurrentActor) (task : Task) (w : World) (source : SourceRef)
    (ref : Option SourceRef) (r : Request) : Prop where
  world : ∃ archive db, Noted actor task source w.base.db db ∧
    r.world = { w with base := { w.base with
      staging := w.base.staging.put source.bucket source.key archive
      db := db } }
  session : Noted actor task source w.base.db r.session
  source_ref : r.source_ref = ref
  staged : r.staged = [(source.bucket, source.key)]

/-- The archive is stored, and no staging event is. -/
def Put (actor : CurrentActor) (task : Task) (w : World) (source : SourceRef) (r : Request) : Prop :=
  Archived actor task w source none r ∧ r.session = w.base.db

/-- What an exception leaves to the handler. -/
inductive Left (cfg : Config) (actor : CurrentActor) (task : Task) (failure : Option Failure)
    (w : World) (e : Raised) : Request → Prop
  | nothing (hf : Fails cfg w.base task failure) (h : ¬Escapes cfg w.base task failure) :
      Left cfg actor task failure w e (start w)
  | orphan {r : Request} (source : SourceRef) (h : Escapes cfg w.base task failure)
      (ha : Archived actor task w source none r) : Left cfg actor task failure w e r
  | held {r : Request} (source : SourceRef) (hf : Fails cfg w.base task failure)
      (h : e.isException = false ↔ Escapes cfg w.base task failure)
      (ha : Archived actor task w source (some source) r) : Left cfg actor task failure w e r

variable {cfg : Config} {actor : CurrentActor} {task : Task} {failure : Option Failure} {f : Failure}
  {w : World} {source : SourceRef} {ref : Option SourceRef} {r : Request} {e : Raised}
  {P : Request → Prop} {E : Raised → Request → Prop}

theorem failAt_ends {point : Point}
    (h : ∀ f r, failure = some f → f.point = point → P r → E f.raised r) :
    Ends P (failAt failure point) (fun _ => P) E := by
  intro r hr
  cases hf : failure with
  | none => exact hr
  | some f =>
    by_cases hp : f.point = point
    · simp only [failAt, hp, if_true]
      exact h f r hf hp hr
    · simpa only [failAt, hp, if_false] using hr

theorem raised_exception (f : Failure) : f.raised.isException = !f.cancelled := by
  cases hc : f.cancelled <;> simp [Failure.raised, hc, Raised.isException]

/-- A failure at a call past the staging. -/
def Past (failure : Option Failure) (e : Raised) : Prop :=
  ∃ f, failure = some f ∧ f.raised = e ∧ Unseen f = f.cancelled

theorem past_escapes (h : Past failure e) (hmode : cfg.settings.object_source = true)
    (ha : (archiveOf w.base task).isSome = true) :
    e.isException = false ↔ Escapes cfg w.base task failure := by
  obtain ⟨f, rfl, rfl, hf⟩ := h
  simp [Escapes, hmode, ha, hf, raised_exception]

theorem Past.fails (h : Past failure e) : Fails cfg w.base task failure := by
  obtain ⟨f, rfl, _⟩ := h
  exact .inl rfl

theorem archived_commit :
    Ends (Archived actor task w source ref) (commit failure)
      (fun _ => Archived actor task w source ref)
      (fun e r => Archived actor task w source ref r ∧ Past failure e) := by
  have hraise : ∀ fault, Ends (Archived actor task w source ref) (failAt failure (.commit fault))
      (fun _ => Archived actor task w source ref)
      (fun e r => Archived actor task w source ref r ∧ Past failure e) := by
    intro fault
    refine failAt_ends (fun f r hf hp hr => ⟨hr, f, hf, rfl, ?_⟩)
    simp [Unseen, hp]
  refine (hraise .stillOpen).bind (fun _ => ?_)
  refine ((hraise .rolledBack).onError (fun e => .modify ?_)).bind (fun _ => ?_)
  · intro r h
    obtain ⟨hr, hf⟩ := h
    obtain ⟨archive, db, hdb, hw⟩ := hr.world
    exact ⟨⟨hr.world, by simpa [rollback, hw] using hdb, hr.source_ref, hr.staged⟩, hf⟩
  · refine (Ends.modify ?_).bind (fun _ => hraise .committed)
    intro r hr
    obtain ⟨archive, db, hdb, hw⟩ := hr.world
    refine ⟨⟨archive, r.session, hr.session, ?_⟩, hr.session, hr.source_ref, hr.staged⟩
    simp [Request.setBase, hw]

theorem archived_append :
    Ends (fun r => Archived actor task w source ref r ∧ r.session = w.base.db)
      (append task.id failure (.task_staged_source actor source))
      (fun _ => Archived actor task w source ref)
      (fun e r => Archived actor task w source ref r ∧ Past failure e) := by
  refine (failAt_ends ?_).bind (fun _ => (Ends.modify ?_).bind (fun _ => failAt_ends ?_))
  · intro f r hf hp h
    obtain ⟨hr, _⟩ := h
    exact ⟨hr, f, hf, rfl, by simp [Unseen, hp]⟩
  · intro r h
    obtain ⟨hr, hs⟩ := h
    exact ⟨hr.world, .inr (by rw [hs]), hr.source_ref, hr.staged⟩
  · intro f r hf hp hr
    exact ⟨hr, f, hf, rfl, by simp [Unseen, hp]⟩

theorem archived_record :
    Ends (fun r => Archived actor task w source ref r ∧ r.session = w.base.db)
      (do append task.id failure (.task_staged_source actor source); commit failure)
      (fun _ => Archived actor task w source ref)
      (fun e r => Archived actor task w source ref r ∧ Past failure e) :=
  archived_append.bind (fun _ => archived_commit)

theorem stage_ends (hmode : cfg.settings.object_source = true) :
    Ends (fun r => r = start w) (stage_task_archive cfg failure task)
      (fun source r => (archiveOf w.base task).isSome = true ∧ Put actor task w source r)
      (Left cfg actor task failure w) := by
  refine Ends.bind (Q := fun archive r => r = start w ∧ archiveOf w.base task = some archive)
    (Ends.ofExcept ?_ ?_) (fun archive => ?_)
  · intro r archive heq h
    subst heq
    cases ha : archiveOf w.base task <;> simp_all [start]
  · intro r e heq h
    subst heq
    cases ha : archiveOf w.base task with
    | none => exact .nothing (.inr ⟨hmode, ha⟩) (by simp [Escapes, ha])
    | some archive => simp [start, ha] at h
  · refine (failAt_ends ?_).bind (fun _ => ?_)
    · intro f _ hf hp h
      obtain ⟨rfl, _⟩ := h
      exact .nothing (.inl (by simp [hf])) (by simp [Escapes, hf, Unseen, hp])
    refine Ends.bind (Q := fun _ r => (archiveOf w.base task).isSome = true ∧ Put actor task w
      (Staging.sourceRef cfg.py cfg.settings.staging_bucket_name task.id archive) r)
      (Ends.modify ?_) (fun _ => (failAt_ends ?_).bind (fun _ => Ends.pure (fun _ h => h)))
    · intro _ h
      obtain ⟨rfl, ha⟩ := h
      exact ⟨by simp [ha], ⟨⟨archive, w.base.db, .inl rfl, rfl⟩, .inl rfl, rfl, rfl⟩, rfl⟩
    · intro f r hf hp h
      obtain ⟨ha, hput⟩ := h
      exact .orphan _ ⟨hmode, ha, by simp [hf, Unseen, hp]⟩ hput.1

/-- The source is staged where the mode asks for it. -/
def Ready (cfg : Config) (actor : CurrentActor) (task : Task) (w : World) (r : Request) : Prop :=
  (cfg.settings.object_source = false ∧ r = start w) ∨
  (cfg.settings.object_source = true ∧ (archiveOf w.base task).isSome = true ∧
    ∃ source, Archived actor task w source (some source) r)

theorem ready_left (h : Ready cfg actor task w r) (hp : Past failure e) :
    Left cfg actor task failure w e r := by
  rcases h with ⟨hmode, rfl⟩ | ⟨hmode, ha, source, harch⟩
  · exact .nothing hp.fails (by simp [Escapes, hmode])
  · exact .held source hp.fails (past_escapes hp hmode ha) harch

theorem source_ends : Ends (fun r => r = start w) (stageSource cfg actor task.id failure task)
    (fun _ => Ready cfg actor task w) (Left cfg actor task failure w) := by
  unfold stageSource
  split
  · rename_i hmode
    refine (stage_ends hmode).bind (fun source => ?_)
    refine Ends.bind (Q := fun _ r => (archiveOf w.base task).isSome = true ∧
      Archived actor task w source (some source) r ∧ r.session = w.base.db) (Ends.modify ?_)
      (fun _ => ?_)
    · intro r h
      obtain ⟨ha, hput, hs⟩ := h
      exact ⟨ha, ⟨hput.world, hput.session, rfl, hput.staged⟩, hs⟩
    · refine Ends.assuming (fun ha => ?_)
      refine archived_record.mono (fun _ h => h) (fun _ r h => .inr ⟨hmode, ha, source, h⟩) ?_
      intro e r h
      obtain ⟨harch, hpast⟩ := h
      exact .held source hpast.fails (past_escapes hpast hmode ha) harch
  · rename_i hmode
    exact Ends.pure (fun r hr => .inl ⟨by simpa using hmode, hr⟩)

theorem publish_ends (items : List TaskItem) :
    Ends (fun r => r = start w) (stageAndPublish cfg actor task.id failure task items)
      (fun _ _ => True) (Left cfg actor task failure w) := by
  refine source_ends.bind (fun _ => (failAt_ends ?_).bind (fun _ => ?_))
  · intro f r hf hp hr
    exact ready_left hr ⟨f, hf, rfl, by simp [Unseen, hp]⟩
  refine Ends.bind (Q := fun _ => Ready cfg actor task w) (Ends.get (fun _ h => h)) (fun message => ?_)
  refine (failAt_ends ?_).bind (fun _ => Ends.bind (Q := fun _ _ => True) (Ends.modify ?_)
    (fun _ => Ends.pure (fun _ h => h)))
  · intro f r hf hp hr
    exact ready_left hr ⟨f, hf, rfl, by simp [Unseen, hp]⟩
  · intro _ _
    trivial

/-- The archive is deleted again, and an event tells of it. -/
structure Undone (actor : CurrentActor) (task : Task) (w : World) (source : SourceRef) (r : Request) :
    Prop where
  world : ∃ archive db payload, Noted actor task source w.base.db db ∧
    Staging.stagedSource payload = none ∧
    Staging.deletedSource payload = some (source.bucket, source.key) ∧
    r.world = { w with base := { w.base with
      staging := (w.base.staging.put source.bucket source.key archive).delete source.bucket source.key
      db := EventRepo.append db task.id payload } }
  staged : r.staged = [(source.bucket, source.key)]

/-- What the handler leaves. -/
inductive Handled (cfg : Config) (actor : CurrentActor) (task : Task) (failure : Option Failure)
    (w : World) : Request → Prop
  | nothing (hf : Fails cfg w.base task failure) (h : ¬Escapes cfg w.base task failure) :
      Handled cfg actor task failure w (start w)
  | escaped {r : Request} (source : SourceRef) (ref : Option SourceRef)
      (h : Escapes cfg w.base task failure) (ha : Archived actor task w source ref r) :
      Handled cfg actor task failure w r
  | undone {r : Request} (source : SourceRef) (hf : Fails cfg w.base task failure)
      (h : ¬Escapes cfg w.base task failure)
      (hu : Undone actor task w source r) : Handled cfg actor task failure w r

theorem compensate_none (task_id : Nat) (e : Raised) (h : r.source_ref = none) :
    compensate actor task_id e r = (.ok (), r) := by
  cases he : e.isException <;>
    simp [compensate, he, Bind.bind, Call.bind, Call.get, h, Pure.pure]

theorem compensate_cancelled (task_id : Nat) (he : e.isException = false) :
    compensate actor task_id e r = (.ok (), r) := by
  simp [compensate, he, Pure.pure]

theorem compensate_some (task_id : Nat) (he : e.isException = true) (h : r.source_ref = some source) :
    compensate actor task_id e r = (.ok (), { r with
      world := { r.world with base := { r.world.base with
        staging := r.world.base.staging.delete source.bucket source.key
        db := EventRepo.append r.session task_id (.task_staged_source_deleted (some actor)
          source.bucket source.key "publish_failed" none r.session.now) } }
      session := EventRepo.append r.session task_id (.task_staged_source_deleted (some actor)
        source.bucket source.key "publish_failed" none r.session.now) }) := by
  obtain ⟨world, session, ref, staged⟩ := r
  obtain rfl : ref = some source := h
  simp only [compensate, he, if_true, Bind.bind, Call.bind, Call.get]
  rfl

theorem compensate_ends : ∀ e, Ends (Left cfg actor task failure w e) (compensate actor task.id e)
    (fun _ => Handled cfg actor task failure w) (fun _ => Handled cfg actor task failure w) := by
  intro e r hr
  cases hr with
  | nothing hf h =>
    rw [compensate_none task.id e rfl]
    exact .nothing hf h
  | orphan source h ha =>
    rw [compensate_none task.id e ha.source_ref]
    exact .escaped source none h ha
  | held source hf h ha =>
    cases he : e.isException with
    | false =>
      rw [compensate_cancelled task.id he]
      exact .escaped source _ (h.mp he) ha
    | true =>
      rw [compensate_some task.id he ha.source_ref]
      obtain ⟨archive, db, hdb, hw⟩ := ha.world
      have hno : ¬Escapes cfg w.base task failure := by
        intro hesc
        rw [h.mpr hesc] at he
        cases he
      exact .undone source hf hno ⟨⟨archive, _, .task_staged_source_deleted (some actor) source.bucket
        source.key "publish_failed" none r.session.now, ha.session, rfl, rfl, by simp [hw]⟩, ha.staged⟩

theorem deliver_ends : Ends (fun r => r = start w) (deliver cfg actor task.id failure task)
    (fun result _ => result = (task.id, .queued)) (fun _ => Handled cfg actor task failure w) := by
  refine Ends.bind (failAt_ends ?_) (fun _ => ?_)
  · intro f r hf hp heq
    subst heq
    exact .nothing (.inl (by simp [hf])) (by simp [Escapes, hf, Unseen, hp])
  refine Ends.bind (Q := fun _ r => r = start w) (Ends.get (fun _ h => h)) (fun items => ?_)
  refine Ends.bind ((publish_ends items).onError compensate_ends) (fun message => ?_)
  intro r _
  rfl

/-- The world while a request holds its claim. -/
def claimed (w : World) (claims : IdempotencyGuard.Store) : World :=
  { w with base := { w.base with next_request := w.base.next_request + 1, claims := claims } }

theorem acquire_granted {task_id : Nat} {claims : IdempotencyGuard.Store}
    (hclaim : IdempotencyGuard.acquire cfg.settings.redis_idempotency_enabled w.base.claims
      (Tasks.upload_key actor task_id) w.base.next_request = some claims) :
    _acquire_idempotency_claim cfg actor task_id (start w) =
      (.ok w.base.next_request, start (claimed w claims)) := by
  simp [_acquire_idempotency_claim, start, hclaim, Request.setBase, claimed]

/-- A request that raises leaves what its handler leaves, without the claim. -/
theorem upload_ends {claims : IdempotencyGuard.Store}
    (htask : Tasks.upload_check w.base.db actor task.id = .ok task)
    (hclaim : IdempotencyGuard.acquire cfg.settings.redis_idempotency_enabled w.base.claims
      (Tasks.upload_key actor task.id) w.base.next_request = some claims) :
    Ends (fun r => r = start w) (upload_task cfg actor task.id failure)
      (fun result _ => result = (task.id, .queued))
      (fun _ r' => ∃ r, Handled cfg actor task failure (claimed w claims) r ∧
        r' = r.setBase { r.world.base with
          claims := IdempotencyGuard.release cfg.settings.redis_idempotency_enabled
            r.world.base.claims (Tasks.upload_key actor task.id) w.base.next_request }) := by
  refine Ends.bind (Q := fun t r => t = task ∧ r = start w) (Ends.ofExcept ?_ ?_) (fun t => ?_)
  · intro r t heq h
    subst heq
    simp [start, htask, Except.mapError] at h
    exact ⟨h.symm, rfl⟩
  · intro r e heq h
    subst heq
    simp [start, htask, Except.mapError] at h
  refine Ends.assuming ?_
  intro heq
  subst heq
  refine Ends.bind (Q := fun token r => token = w.base.next_request ∧ r = start (claimed w claims)) ?_
    (fun token => Ends.assuming ?_)
  · intro r heq
    subst heq
    rw [acquire_granted hclaim]
    exact ⟨rfl, rfl⟩
  · intro heq
    subst heq
    exact deliver_ends.andFinally (fun _ => .modify (fun _ h => h))
      (fun _ => .modify (fun r h => ⟨r, h, rfl⟩))

/-- A claim that is released was never there. -/
theorem release_acquire {enabled : Bool} {store store' : IdempotencyGuard.Store} {key : Text}
    {token : Nat} (h : IdempotencyGuard.acquire enabled store key token = some store') :
    IdempotencyGuard.release enabled store' key token = store := by
  cases enabled with
  | false =>
    cases h
    simp [IdempotencyGuard.release]
  | true =>
    simp only [IdempotencyGuard.acquire, if_true] at h
    split at h
    · rename_i hnone
      cases h
      funext k
      by_cases hk : k = key
      · subst hk
        simp [IdempotencyGuard.release, hnone]
      · simp [IdempotencyGuard.release, hk]
    · cases h

/-- Whether a claim is granted does not depend on its token. -/
theorem acquire_again {enabled : Bool} {store store' : IdempotencyGuard.Store} {key : Text}
    {token : Nat} (h : IdempotencyGuard.acquire enabled store key token = some store')
    (token' : Nat) : ∃ claims, IdempotencyGuard.acquire enabled store key token' = some claims := by
  cases enabled with
  | false => exact ⟨store, rfl⟩
  | true =>
    obtain ⟨hnone, _⟩ := IdempotencyGuard.acquire_some h
    exact ⟨_, by simp only [IdempotencyGuard.acquire, if_true, hnone]; rfl⟩

theorem upload_check_tasks {db db' : Db} {task_id : Nat} (h : db'.tasks = db.tasks)
    (hcheck : Tasks.upload_check db actor task_id = .ok task) :
    Tasks.upload_check db' actor task_id = .ok task := by
  rw [← hcheck]
  simp only [Tasks.upload_check, Tasks.readTask, TaskRepo.get, h]

theorem Handled.fails (h : Handled cfg actor task failure w r) : Fails cfg w.base task failure := by
  cases h with
  | nothing hf h => exact hf
  | escaped source ref h ha =>
    obtain ⟨_, _, hany⟩ := h
    cases failure with
    | none => cases hany
    | some f => exact .inl rfl
  | undone source hf h hu => exact hf

/-- A request that nothing fails is served. -/
theorem upload_succeeds (htask : Tasks.upload_check w.base.db actor task.id = .ok task)
    (hclaim : ∃ claims, IdempotencyGuard.acquire cfg.settings.redis_idempotency_enabled
      w.base.claims (Tasks.upload_key actor task.id) w.base.next_request = some claims)
    (harchive : cfg.settings.object_source = true → (archiveOf w.base task).isSome = true) :
    (upload_task cfg actor task.id none (start w)).1 = .ok (task.id, .queued) := by
  obtain ⟨claims, hclaim⟩ := hclaim
  have hend : Ends (fun r => r = start w) (upload_task cfg actor task.id none)
      (fun result _ => result = (task.id, .queued)) (fun _ _ => False) := by
    refine (upload_ends htask hclaim).mono (fun _ h => h) (fun _ _ h => h) ?_
    intro _ _ h
    obtain ⟨r, hr, _⟩ := h
    rcases hr.fails with hf | ⟨hmode, hnone⟩
    · cases hf
    · have hsome := harchive hmode
      simp only [claimed, archiveOf] at hnone hsome
      simp [hnone] at hsome
  obtain ⟨result, r, hr, rfl⟩ := hend.returns rfl
  rw [hr]

/-- What a handled request has changed. -/
theorem Handled.world (h : Handled cfg actor task failure w r) : ∃ staging db,
    r.world = { w with base := { w.base with staging := staging, db := db } } ∧
    db.tasks = w.base.db.tasks ∧ db.items = w.base.db.items := by
  have hnoted : ∀ source db, Noted actor task source w.base.db db →
      db.tasks = w.base.db.tasks ∧ db.items = w.base.db.items := by
    rintro source db (rfl | rfl) <;> exact ⟨rfl, rfl⟩
  cases h with
  | nothing hf h => exact ⟨_, _, rfl, rfl, rfl⟩
  | escaped source ref h ha =>
    obtain ⟨archive, db, hdb, hw⟩ := ha.world
    exact ⟨_, _, hw, hnoted source db hdb⟩
  | undone source hf h hu =>
    obtain ⟨archive, db, payload, hdb, _, _, hw⟩ := hu.world
    exact ⟨_, _, hw, hnoted source db hdb⟩

theorem reported_pair {staged deleted : TaskEvent}
    (hs : Staging.stagedSource staged.payload = some source)
    (hn : Staging.stagedSource deleted.payload = none)
    (hd : Staging.deletedSource deleted.payload = some (source.bucket, source.key)) :
    Reported [staged, deleted] := by
  intro before e after source' he hse
  match before, he with
  | [], he =>
    cases he
    rw [hs, Option.some.injEq] at hse
    exact ⟨deleted, List.mem_cons_self, hse ▸ hd⟩
  | [_], he =>
    cases he
    rw [hn] at hse
    cases hse
  | _ :: _ :: _, he => simp at he

theorem reported_one {deleted : TaskEvent} (hn : Staging.stagedSource deleted.payload = none) :
    Reported [deleted] := by
  intro before e after source' he hse
  match before, he with
  | [], he =>
    cases he
    rw [hn] at hse
    cases hse
  | _ :: _, he => simp at he

theorem Handled.reported (h : Handled cfg actor task failure w r)
    (hno : ¬Escapes cfg w.base task failure) : (∀ k ∈ r.staged, r.world.base.staging k = none) ∧
    ∃ events, r.world.base.db.events = w.base.db.events ++ events ∧ Reported events := by
  cases h with
  | nothing hf h => exact ⟨by simp [start], [], by simp [start], by simp [Reported]⟩
  | escaped source ref h ha => exact absurd h hno
  | undone source hf h hu =>
    obtain ⟨archive, db, payload, hdb, hn, hd, hw⟩ := hu.world
    refine ⟨?_, ?_⟩
    · intro k hk
      rw [hu.staged, List.mem_singleton] at hk
      simp [hw, hk]
    · rcases hdb with rfl | rfl
      · exact ⟨_, by rw [hw]; rfl, reported_one hn⟩
      · refine ⟨_, by rw [hw]; exact List.append_assoc _ _ _, ?_⟩
        exact reported_pair rfl hn hd

/-- A request that raises is atomic if and only if it does not raise where the handler does not see
the archive that it has stored. -/
theorem atomic_iff (cfg : Config) (actor : CurrentActor) (task_id : Nat) (task : Task)
    (failure : Option Failure) (w : World) (e : Raised) (r : Request)
    (htask : Tasks.upload_check w.base.db actor task_id = .ok task)
    (hclaim : IdempotencyGuard.acquire cfg.settings.redis_idempotency_enabled w.base.claims
      (Tasks.upload_key actor task_id) w.base.next_request ≠ none)
    (h : upload_task cfg actor task_id failure (start w) = (.error e, r)) :
    Atomic cfg actor task w r ↔ ¬Escapes cfg w.base task failure := by
  obtain rfl : task.id = task_id :=
    Rows.find_key (Flow.read_spec (Flow.upload_check_spec htask).1).1
  obtain ⟨claims, hclaim⟩ := Option.ne_none_iff_exists'.mp hclaim
  obtain ⟨q, hq, rfl⟩ := (upload_ends htask hclaim).error rfl h
  constructor
  · intro hatomic hesc
    cases hq with
    | nothing hf hno => exact hno hesc
    | escaped source ref _ ha =>
      obtain ⟨archive, db, _, hw⟩ := ha.world
      have hnone := hatomic.unstaged (source.bucket, source.key) (by simp [Request.setBase, ha.staged])
      simp [Request.setBase, hw] at hnone
    | undone source hf hno hu => exact hno hesc
  · intro hno
    obtain ⟨hunstaged, hreported⟩ := hq.reported hno
    obtain ⟨staging, db, hw, htasks, hitems⟩ := hq.world
    have hclaims : IdempotencyGuard.release cfg.settings.redis_idempotency_enabled
        q.world.base.claims (Tasks.upload_key actor task.id) w.base.next_request = w.base.claims := by
      rw [hw]
      exact release_acquire hclaim
    refine ⟨?_, ?_, ?_, ?_, ?_, hunstaged, hreported, hclaims, ?_⟩
    · simp [Request.setBase, hw, htasks, claimed]
    · simp [Request.setBase, hw, hitems, claimed]
    · simp [Request.setBase, hw, claimed]
    · simp [Request.setBase, hw, claimed]
    · simp [Request.setBase, hw, claimed]
    · intro harchive
      refine upload_succeeds ?_ ?_ ?_
      · exact upload_check_tasks (by simp [Request.setBase, hw, htasks, claimed]) htask
      · simpa only [Request.setBase, hclaims] using acquire_again hclaim q.world.base.next_request
      · intro hmode
        have hdirs : q.world.base.dirs = w.base.dirs := by
          rw [hw]
          rfl
        simpa [Request.setBase, archiveOf, hdirs] using harchive hmode

/-- A world with nothing published. -/
def unpublished (s : State) : World := ⟨s, fun _ => none, []⟩

/-- An upload request of the sample's task that fails. -/
def failed (failure : Failure) (s : State) : Except Raised (Nat × TaskStatus) × Request :=
  upload_task Sample.cfg Sample.actor 0 (some failure) (start (unpublished s))

/-- The task is confirmed, nobody holds its claim, and its upload raises. -/
def Raises (failure : Failure) (s : State) : Prop :=
  (Tasks.upload_check s.db Sample.actor 0).toOption.isSome = true ∧
  s.claims (Tasks.upload_key Sample.actor 0) = none ∧ (failed failure s).1.toOption = none

instance (failure : Failure) : DecidablePred (Raises failure) :=
  fun _ => inferInstanceAs (Decidable (_ ∧ _ ∧ _))

theorem raises_error {failure : Failure} {s : State} (h : Raises failure s) : ∃ task e r,
    Tasks.upload_check (unpublished s).base.db Sample.actor 0 = .ok task ∧
    IdempotencyGuard.acquire Sample.cfg.settings.redis_idempotency_enabled (unpublished s).base.claims
      (Tasks.upload_key Sample.actor 0) (unpublished s).base.next_request ≠ none ∧
    failed failure s = (.error e, r) := by
  obtain ⟨hcheck, hclaim, hraise⟩ := h
  cases hc : Tasks.upload_check s.db Sample.actor 0 with
  | error e => simp [hc, Except.toOption] at hcheck
  | ok task =>
    cases hf : failed failure s with
    | mk result r =>
      cases result with
      | ok value => simp [hf, Except.toOption] at hraise
      | error e =>
        refine ⟨task, e, r, hc, ?_, rfl⟩
        simp [IdempotencyGuard.acquire, unpublished, Sample.cfg, hclaim]

/-- A publish that fails leaves nothing but its two events. -/
theorem failed_publish_atomic : ∃ s task r, Run (step Sample.cfg) Free initial s ∧
    (r.world.base.db.events.length = s.db.events.length + 2) ∧
    Atomic Sample.cfg Sample.actor task (unpublished s) r := by
  obtain ⟨s, hrun, hraises, hevents⟩ := run_of_replay Free
    (p := fun s => Raises ⟨.publish, false⟩ s ∧
      (failed ⟨.publish, false⟩ s).2.world.base.db.events.length = s.db.events.length + 2)
    Sample.cfg initial (Sample.confirmed 0 0 [("acme/a.txt".toList, [1])]) (by decide +kernel)
  obtain ⟨task, e, r, hcheck, hclaim, hfailed⟩ := raises_error hraises
  rw [hfailed] at hevents
  exact ⟨s, task, r, hrun, hevents, (atomic_iff Sample.cfg Sample.actor 0 task
    (some ⟨.publish, false⟩) (unpublished s) e r hcheck hclaim hfailed).mpr (by simp [Escapes, Unseen])⟩

/-- The response of the store is lost: the archive stays, and no event tells of it. -/
theorem stored_archive_stays :
    ¬ ∀ (cfg : Config) (actor : CurrentActor) (task_id : Nat) (task : Task)
      (failure : Option Failure) (w : World) (e : Raised) (r : Request),
      Tasks.upload_check w.base.db actor task_id = .ok task →
      IdempotencyGuard.acquire cfg.settings.redis_idempotency_enabled w.base.claims
        (Tasks.upload_key actor task_id) w.base.next_request ≠ none →
      upload_task cfg actor task_id failure (start w) = (.error e, r) → Atomic cfg actor task w r := by
  intro hall
  obtain ⟨s, _, hraises, hleft⟩ := run_of_replay Free
    (p := fun s => Raises ⟨.stage true, false⟩ s ∧ (failed ⟨.stage true, false⟩ s).2.staged.any
      (fun k => ((failed ⟨.stage true, false⟩ s).2.world.base.staging k).isSome) = true)
    Sample.cfg initial (Sample.confirmed 0 0 [("acme/a.txt".toList, [1])]) (by decide +kernel)
  obtain ⟨task, e, r, hcheck, hclaim, hfailed⟩ := raises_error hraises
  rw [hfailed] at hleft
  obtain ⟨k, hk, hthere⟩ := List.any_eq_true.mp hleft
  rw [(hall _ _ _ task _ _ e r hcheck hclaim hfailed).unstaged k hk] at hthere
  cases hthere

end FileDelivery.Proofs.AtomicUpload
