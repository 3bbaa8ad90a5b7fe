import FileDelivery.Library.Runs
import FileDelivery.Proofs.AtomicUpload

namespace FileDelivery.Proofs.UploadRuns
open FileDelivery.Library FileDelivery.Library.Handlers FileDelivery.Library.Runs FileDelivery.Control
open FileDelivery.Bridge FileDelivery.Bridge.UploadTask
open FileDelivery.Proofs.AtomicUpload (failAt_ends compensate_none compensate_some compensate_cancelled acquire_granted
  claimed)

/-- The system with a request in progress after its other ones. -/
def inflight (s : State) (u : UploadRequest) (stage : UploadStage) : State :=
  { s with uploads := s.uploads ++ [{ u with stage := stage }] }

/-- The system comes to where the request is at a stage, by a run in which the request may go on. -/
structure At (ok : State → Action → Prop) (cfg : Config) (s₀ : State) (u : UploadRequest)
    (stage : UploadStage) (s : State) : Prop where
  others : ∀ q ∈ s.uploads, q.rid ≠ u.rid
  allowed : ∀ s action, ok s (.upload u.rid action)
  run : Run (step cfg) ok s₀ (inflight s u stage)

variable {ok : State → Action → Prop} {cfg : Config} {s₀ s s' : State} {u : UploadRequest} {stage stage' : UploadStage}
  {items : List TaskItem} {source : SourceRef} {ref : Option SourceRef} {failure : Option Failure}
  {r : Request} {e : Raised}

theorem inflight_find (hn : ∀ q ∈ s.uploads, q.rid ≠ u.rid) (stage : UploadStage) :
    Rows.find? (inflight s u stage).uploads u.rid = some { u with stage := stage } :=
  Rows.find_append_new hn

theorem At.move (h : At ok cfg s₀ u stage s) (action : UploadAction)
    (heffect : uploadEffect cfg (inflight s u stage) { u with stage := stage } stage action =
      some (inflight s' u stage, some stage')) (hsame : s'.uploads = s.uploads) :
    At ok cfg s₀ u stage' s' := by
  have hupdate : Rows.update (inflight s u stage).uploads u.rid (fun q => { q with stage := stage' }) =
      s.uploads ++ [{ u with stage := stage' }] := Rows.update_append_new h.others
  have hstep : step cfg (inflight s u stage) (.upload u.rid action) = some (inflight s' u stage') := by
    simp only [step, upload, inflight_find h.others, Option.bind_some, heffect, Option.map_some,
      setStage, hupdate]
    rw [← hsame]
    rfl
  exact ⟨hsame ▸ h.others, h.allowed, h.run.tail (h.allowed _ action) hstep⟩

/-- The last step of a request. -/
theorem At.leave (h : At ok cfg s₀ u stage s) (action : UploadAction)
    (heffect : uploadEffect cfg (inflight s u stage) { u with stage := stage } stage action =
      some (inflight s' u stage, none)) (hsame : s'.uploads = s.uploads) :
    Run (step cfg) ok s₀ s' := by
  have herase : Rows.erase (inflight s u stage).uploads u.rid = s.uploads :=
    Rows.erase_append_new h.others
  have hstep : step cfg (inflight s u stage) (.upload u.rid action) = some s' := by
    simp only [step, upload, inflight_find h.others, Option.bind_some, heffect, Option.map_some,
      setStage, herase]
    rw [← hsame]
    rfl
  exact h.run.tail (h.allowed _ action) hstep

/-- A request at a stage whose session has nothing of its own. -/
structure Stands (cfg : Config) (s₀ : State) (u : UploadRequest) (stage : UploadStage)
    (ref : Option SourceRef) (r : Request) : Prop where
  place : At Free cfg s₀ u stage r.world.base
  session : r.session = r.world.base.db
  source_ref : r.source_ref = ref

/-- The staging event is in the open transaction. -/
structure Pending (cfg : Config) (s₀ : State) (u : UploadRequest) (items : List TaskItem)
    (source : SourceRef) (r : Request) : Prop where
  place : At Free cfg s₀ u (.staged items source) r.world.base
  session : r.session =
    EventRepo.append r.world.base.db u.task.id (.task_staged_source u.actor source)
  source_ref : r.source_ref = some source

/-- Where an exception of the inner `try` block leaves the system. -/
inductive Thrown (cfg : Config) (s₀ : State) (u : UploadRequest) (r : Request) : Prop
  | plain (h : At Free cfg s₀ u .releasing r.world.base) (href : r.source_ref = none)
  | held (source : SourceRef) (h : Stands cfg s₀ u (.compensating source) (some source) r)
  | pending (items : List TaskItem) (source : SourceRef) (h : Pending cfg s₀ u items source r)

theorem stage_move (h : At ok cfg s₀ u (.listed items) s) (hmode : cfg.settings.object_source = true)
    {archive : Archive} (ha : archiveOf s u.task = some archive) (raised : Bool) :
    let source := Staging.sourceRef cfg.py cfg.settings.staging_bucket_name u.task.id archive
    At ok cfg s₀ u (if raised then .releasing else .staged items source)
      { s with staging := s.staging.put source.bucket source.key archive } := by
  refine h.move (.stage raised) ?_ rfl
  have harchive : ((inflight s u (.listed items)).dirs u.task.temp_dir).bind (·.archive) =
      some archive := ha
  simp only [uploadEffect, hmode, if_true, harchive, Option.map_some]
  rfl

theorem stage_runs (hmode : cfg.settings.object_source = true) :
    Ends (Stands cfg s₀ u (.listed items) none) (stage_task_archive cfg failure u.task)
      (fun source => Stands cfg s₀ u (.staged items source) none) (fun _ => Thrown cfg s₀ u) := by
  have hraise : ∀ r, Stands cfg s₀ u (.listed items) none r → Thrown cfg s₀ u r :=
    fun r hr => .plain (hr.place.move .raise rfl rfl) hr.source_ref
  refine Ends.bind (Q := fun archive r => archiveOf r.world.base u.task = some archive ∧
    Stands cfg s₀ u (.listed items) none r) (Ends.ofExcept ?_ ?_) (fun archive => ?_)
  · intro r archive hr h
    cases ha : archiveOf r.world.base u.task <;> simp_all
  · intro r e hr _
    exact hraise r hr
  refine (failAt_ends (fun _ r _ _ hr => hraise r hr.2)).bind (fun _ => ?_)
  refine Ends.bind (Q := fun _ r => r.session = r.world.base.db ∧ r.source_ref = none ∧
    ∀ raised : Bool, At Free cfg s₀ u (if raised then .releasing else .staged items
      (Staging.sourceRef cfg.py cfg.settings.staging_bucket_name u.task.id archive)) r.world.base)
    (Ends.modify ?_) (fun _ => (failAt_ends ?_).bind (fun _ => Ends.pure ?_))
  · intro r h
    obtain ⟨ha, hr⟩ := h
    exact ⟨hr.session, hr.source_ref, stage_move hr.place hmode ha⟩
  · intro _ r _ _ h
    obtain ⟨_, href, hplace⟩ := h
    exact .plain (hplace true) href
  · intro r h
    obtain ⟨hs, href, hplace⟩ := h
    exact ⟨hplace false, hs, href⟩

theorem append_runs : Ends (Stands cfg s₀ u (.staged items source) (some source))
    (append u.task.id failure (.task_staged_source u.actor source))
    (fun _ => Pending cfg s₀ u items source) (fun _ => Thrown cfg s₀ u) := by
  refine (failAt_ends ?_).bind (fun _ => (Ends.modify ?_).bind (fun _ => failAt_ends ?_))
  · intro _ r _ _ hr
    exact .held source ⟨hr.place.move .raise rfl rfl, hr.session, hr.source_ref⟩
  · intro r hr
    exact ⟨hr.place, by rw [hr.session], hr.source_ref⟩
  · intro _ r _ _ hr
    exact .pending items source hr

theorem commit_runs : Ends (Pending cfg s₀ u items source) (commit failure)
    (fun _ => Stands cfg s₀ u (.ready items (some source)) (some source))
    (fun _ => Thrown cfg s₀ u) := by
  have hrolled : Ends (Pending cfg s₀ u items source) (failAt failure (.commit .rolledBack))
      (fun _ => Pending cfg s₀ u items source) (fun _ => Pending cfg s₀ u items source) :=
    failAt_ends (fun _ _ _ _ h => h)
  refine (failAt_ends ?_).bind (fun _ => (hrolled.onError (fun e => .modify ?_)).bind (fun _ =>
    (Ends.modify ?_).bind (fun _ => failAt_ends ?_)))
  · intro _ r _ _ hr
    exact .pending items source hr
  · intro r hr
    exact .held source ⟨hr.place.move .raise rfl rfl, rfl, hr.source_ref⟩
  · intro r hr
    exact ⟨hr.place.move .record (by rw [hr.session]; rfl) rfl, rfl, hr.source_ref⟩
  · intro _ r _ _ hr
    exact .held source ⟨hr.place.move .raise rfl rfl, hr.session, hr.source_ref⟩

theorem source_runs : Ends (Stands cfg s₀ u (.listed items) none)
    (stageSource cfg u.actor u.task.id failure u.task)
    (fun _ r => ∃ ref, Stands cfg s₀ u (.ready items ref) ref r) (fun _ => Thrown cfg s₀ u) := by
  unfold stageSource
  split
  · rename_i hmode
    refine (stage_runs hmode).bind (fun source => Ends.bind
      (Q := fun _ => Stands cfg s₀ u (.staged items source) (some source)) (Ends.modify ?_) (fun _ => ?_))
    · intro r hr
      exact ⟨hr.place, hr.session, rfl⟩
    · exact append_runs.bind (fun _ => commit_runs.mono (fun _ h => h) (fun _ r h => ⟨_, h⟩)
        (fun _ _ h => h))
  · rename_i hmode
    refine Ends.pure (fun r hr => ⟨none, hr.place.move (.stage false) ?_ rfl, hr.session, hr.source_ref⟩)
    simp only [uploadEffect, hmode]
    rfl

theorem ready_thrown (h : Stands cfg s₀ u (.ready items ref) ref r) : Thrown cfg s₀ u r := by
  cases ref with
  | none => exact .plain (h.place.move .raise rfl rfl) h.source_ref
  | some source => exact .held source ⟨h.place.move .raise rfl rfl, h.session, h.source_ref⟩

theorem publish_runs : Ends (Stands cfg s₀ u (.listed items) none)
    (stageAndPublish cfg u.actor u.task.id failure u.task items)
    (fun message r => At Free cfg s₀ u (.published message) r.world.base ∧ r.session = r.world.base.db)
    (fun _ => Thrown cfg s₀ u) := by
  refine source_runs.bind (fun _ => (failAt_ends ?_).bind (fun _ => ?_))
  · intro _ r _ _ h
    obtain ⟨ref, hr⟩ := h
    exact ready_thrown hr
  refine Ends.bind (Q := fun message r => ∃ ref, Stands cfg s₀ u (.ready items ref) ref r ∧
    message = u.message cfg r.world.base.db items ref) (Ends.get ?_) (fun message => ?_)
  · intro r h
    obtain ⟨ref, hr⟩ := h
    exact ⟨ref, hr, by rw [hr.source_ref]; rfl⟩
  refine (failAt_ends ?_).bind (fun _ => Ends.bind (Q := fun _ r =>
    At Free cfg s₀ u (.published message) r.world.base ∧ r.session = r.world.base.db)
    (Ends.modify ?_) (fun _ => Ends.pure (fun _ h => h)))
  · intro _ r _ _ h
    obtain ⟨ref, hr, _⟩ := h
    exact ready_thrown hr
  · intro r h
    obtain ⟨ref, hr, rfl⟩ := h
    have hplace : At Free cfg s₀ u (.published (u.message cfg r.world.base.db items ref))
        (Bridge.publish r.world.base (u.message cfg r.world.base.db items ref)) :=
      hr.place.move .publish rfl rfl
    cases ht : cfg.settings.delivery_transport with
    | file => exact ⟨hplace, hr.session⟩
    | kafka => exact ⟨hplace, hr.session⟩

/-- The archive is deleted, and then the event is recorded. -/
theorem undo_moves (h : At Free cfg s₀ u (.compensating source) s) : At Free cfg s₀ u .releasing { s with
    staging := s.staging.delete source.bucket source.key
    db := EventRepo.append s.db u.task.id (.task_staged_source_deleted (some u.actor) source.bucket
      source.key "publish_failed" none s.db.now) } := by
  have hdeleted : At Free cfg s₀ u (.deleted source)
      { s with staging := s.staging.delete source.bucket source.key } := h.move .delete rfl rfl
  exact hdeleted.move .recordDelete rfl rfl

theorem compensate_runs : ∀ e, Ends (fun r => Thrown cfg s₀ u r) (compensate u.actor u.task.id e)
    (fun _ r => At Free cfg s₀ u .releasing r.world.base)
    (fun _ r => At Free cfg s₀ u .releasing r.world.base) := by
  intro e r hr
  cases hr with
  | plain h href =>
    rw [compensate_none u.task.id e href]
    exact h
  | held source h =>
    cases he : e.isException with
    | false =>
      rw [compensate_cancelled u.task.id he]
      exact h.place.move .raise rfl rfl
    | true =>
      rw [compensate_some u.task.id he h.source_ref, h.session]
      exact undo_moves h.place
  | pending items source h =>
    cases he : e.isException with
    | false =>
      rw [compensate_cancelled u.task.id he]
      have hraised : At Free cfg s₀ u (.compensating source) r.world.base := h.place.move .raise rfl rfl
      exact hraised.move .raise rfl rfl
    | true =>
      -- The commit of the handler takes the staging event along.
      rw [compensate_some u.task.id he h.source_ref, h.session]
      have hrecorded : At Free cfg s₀ u (.ready items (some source)) { r.world.base with
          db := EventRepo.append r.world.base.db u.task.id (.task_staged_source u.actor source) } :=
        h.place.move .record rfl rfl
      have hraised : At Free cfg s₀ u (.compensating source) { r.world.base with
          db := EventRepo.append r.world.base.db u.task.id (.task_staged_source u.actor source) } :=
        hrecorded.move .raise rfl rfl
      exact undo_moves hraised

theorem deliver_runs : Ends (Stands cfg s₀ u .claimed none)
    (deliver cfg u.actor u.task.id failure u.task)
    (fun _ r => At Free cfg s₀ u .releasing r.world.base)
    (fun _ r => At Free cfg s₀ u .releasing r.world.base) := by
  refine (failAt_ends ?_).bind (fun _ => ?_)
  · intro _ r _ _ hr
    exact hr.place.move .raise rfl rfl
  refine Ends.bind (Q := fun items => Stands cfg s₀ u (.listed items) none) (Ends.get ?_)
    (fun items => (publish_runs.onError compensate_runs).bind (fun message => ?_))
  · intro r hr
    exact ⟨hr.place.move .list (by rw [hr.session]; rfl) rfl, hr.session, hr.source_ref⟩
  · intro r h
    obtain ⟨hplace, hs⟩ := h
    have hwritten : At Free cfg s₀ u (.written message) r.world.base := hplace.move .write rfl rfl
    have hcommitted : At Free cfg s₀ u .releasing { r.world.base with
        db := Tasks.queue_write cfg.settings r.world.base.db u.actor u.task.id message.items.length } :=
      hwritten.move .commit rfl rfl
    rw [← hs] at hcommitted
    exact hcommitted

/-- A request whose task is confirmed begins. -/
theorem read_moves {actor : CurrentActor} {task : Task}
    (htask : Tasks.upload_check s.db actor task.id = .ok task)
    (hnew : ∀ q ∈ s.uploads, q.rid < s.next_request) (hread : ok s (.uploadRead actor task.id))
    (hallowed : ∀ t action, ok t (.upload s.next_request action)) :
    At ok cfg s ⟨s.next_request, actor, task, .checked⟩ .checked
      { s with next_request := s.next_request + 1 } := by
  refine ⟨fun q hq => Nat.ne_of_lt (hnew q hq), hallowed, (Run.refl s).tail hread (?_ :
    step cfg s (.uploadRead actor task.id) = _)⟩
  simp only [step, uploadRead, htask]
  rfl

theorem acquire_effect {claims : IdempotencyGuard.Store}
    (h : IdempotencyGuard.acquire cfg.settings.redis_idempotency_enabled s.claims u.key u.rid =
      some claims) :
    uploadEffect cfg s u .checked .acquire = some ({ s with claims := claims }, some .claimed) := by
  simp only [uploadEffect, h]

theorem acquire_refused
    (h : IdempotencyGuard.acquire cfg.settings.redis_idempotency_enabled s.claims u.key u.rid = none) :
    uploadEffect cfg s u .checked .acquire = some (s, none) := by
  simp only [uploadEffect, h]

theorem claim_runs {actor : CurrentActor} {task : Task} {w : World}
    (htask : Tasks.upload_check w.base.db actor task.id = .ok task)
    (hnew : ∀ q ∈ w.base.uploads, q.rid < w.base.next_request) :
    Ends (fun r => r = start w) (_acquire_idempotency_claim cfg actor task.id)
      (fun token r => token = w.base.next_request ∧
        Stands cfg w.base ⟨w.base.next_request, actor, task, .checked⟩ .claimed none r)
      (fun _ r => Run (step cfg) Free w.base r.world.base) := by
  intro r heq
  subst heq
  have hread : At Free cfg w.base ⟨w.base.next_request, actor, task, .checked⟩ .checked
      { w.base with next_request := w.base.next_request + 1 } :=
    read_moves htask hnew trivial (fun _ _ => trivial)
  cases hclaim : IdempotencyGuard.acquire cfg.settings.redis_idempotency_enabled w.base.claims
      (Tasks.upload_key actor task.id) w.base.next_request with
  | none =>
    have hend : Run (step cfg) Free w.base { w.base with next_request := w.base.next_request + 1 } :=
      hread.leave .acquire (acquire_refused hclaim) rfl
    simpa only [_acquire_idempotency_claim, start, hclaim, Request.setBase] using hend
  | some claims =>
    rw [acquire_granted hclaim]
    exact ⟨rfl, hread.move .acquire (acquire_effect hclaim) rfl, rfl, rfl⟩

/-- A call of `upload_task`, whatever fails in it, is a run of the system. -/
theorem upload_task_runs (cfg : Config) (actor : CurrentActor) (task_id : Nat)
    (failure : Option Failure) (w : World)
    (hnew : ∀ q ∈ w.base.uploads, q.rid < w.base.next_request) :
    Run (step cfg) Free w.base (upload_task cfg actor task_id failure (start w)).2.world.base := by
  suffices h : Ends (fun r => r = start w) (upload_task cfg actor task_id failure)
      (fun _ r => Run (step cfg) Free w.base r.world.base)
      (fun _ r => Run (step cfg) Free w.base r.world.base) from
    h.final (R := fun r : Request => Run (step cfg) Free w.base r.world.base) rfl
  refine Ends.bind (Q := fun task r =>
    Tasks.upload_check w.base.db actor task_id = .ok task ∧ r = start w) (Ends.ofExcept ?_ ?_)
    (fun task => Ends.assuming (fun htask => ?_))
  · intro r task heq h
    subst heq
    cases hc : Tasks.upload_check w.base.db actor task_id <;> simp_all [start, Except.mapError]
  · intro r e heq _
    subst heq
    exact .refl _
  obtain rfl : task.id = task_id :=
    Rows.find_key (Flow.read_spec (Flow.upload_check_spec htask).1).1
  refine (claim_runs htask hnew).bind (fun token => Ends.assuming ?_)
  intro heq
  subst heq
  refine deliver_runs.andFinally (fun _ => .modify ?_) (fun _ => .modify ?_)
  · intro r hr
    exact hr.leave .release rfl rfl
  · intro r hr
    exact hr.leave .release rfl rfl

/-- What holds in every reachable state holds after a call that begins in one. -/
theorem upload_task_reachable (cfg : Config) (actor : CurrentActor) (task_id : Nat)
    (failure : Option Failure) (w : World) (h : Run (step cfg) Free initial w.base) :
    Run (step cfg) Free initial (upload_task cfg actor task_id failure (start w)).2.world.base :=
  h.trans (upload_task_runs cfg actor task_id failure w (Flow.reachable_flow h).requests.fresh)

end FileDelivery.Proofs.UploadRuns
