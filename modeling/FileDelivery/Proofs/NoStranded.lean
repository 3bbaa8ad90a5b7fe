import FileDelivery.Proofs.LostWrites
import FileDelivery.Proofs.RunnerRecovery
import FileDelivery.Proofs.WorkerRecovery

namespace FileDelivery.Proofs.NoStranded
open FileDelivery.Library FileDelivery.Library.Runs FileDelivery.Control FileDelivery.Bridge
open FileDelivery.Bridge.RowLoads (goWorker background)
open FileDelivery.Proofs.Flow FileDelivery.Proofs.LostWrites FileDelivery.Proofs.Recovery
open FileDelivery.Proofs.WorkerRecovery FileDelivery.Proofs.RunnerRecovery

/-- The go-worker backend, whose sessions may have loaded rows before others commit. -/
abbrev Workers := RowLoads.State Bridge.State

/-- The python backend in the same way. -/
abbrev Runners := RowLoads.State Background.State

/-- In runs of the go-worker backend whose steps meet `ok`, a confirmed task with something left
to deliver and nothing in flight has a property. -/
def WorkersLeave (cfg : Config) (ok : Workers → RowLoads.Action Bridge.Action → Prop)
    (property : State → Task → Prop) : Prop :=
  ∀ (s : Workers) (t : Task), Run (RowLoads.step goWorker cfg) ok (RowLoads.initial goWorker) s →
    t ∈ s.base.db.tasks → ReachedConfirmation t.status = true → NothingInFlight s.base t.id →
    (∃ i, Undelivered s.base.db t.id i) → property s.base t

/-- The same of the python backend. -/
def RunnersLeave (cfg : Config) (ok : Runners → RowLoads.Action Background.Action → Prop)
    (property : State → Task → Prop) : Prop :=
  ∀ (s : Runners) (t : Task), Run (RowLoads.step background cfg) ok (RowLoads.initial background) s →
    t ∈ s.base.base.db.tasks → ReachedConfirmation t.status = true → NothingRuns s.base t.id →
    (∃ i, Undelivered s.base.base.db t.id i) → property s.base.base t

/-- The task can be brought to an upload of all that is left. -/
def Recovers (cfg : Config) (select : Db → CurrentActor → Nat → List TaskItem) (s : State) (t : Task) :
    Prop :=
  Recoverable cfg.settings select s.claims s.db t

/-- It recovers just where no claim is held on its uploads. -/
def RecoversUnclaimed (cfg : Config) (select : Db → CurrentActor → Nat → List TaskItem) (s : State)
    (t : Task) : Prop :=
  Recovers cfg select s t ↔ Unclaimed cfg.settings s.claims t

/-- Neither backend strands a task in a run whose steps meet its condition and that loses no write: the
task recovers as soon as no claim is held on its uploads. -/
theorem no_task_stranded (cfg : Config) :
    WorkersLeave cfg (Lossless goWorker cfg Undisturbed) (RecoversUnclaimed cfg Tasks.upload_items) ∧
      RunnersLeave cfg (Lossless background cfg Unbroken) (RecoversUnclaimed cfg runSelects) :=
  ⟨fun _ _ h => undisturbed_recoverable (lossless_run h), fun _ _ h => unbroken_recoverable (lossless_run h)⟩

/-- A file of which the first upload fails. -/
def failedOnce : List Action :=
  Sample.confirmed 0 0 [("acme/a.txt", [1])] ++ Sample.upload 0 1 ++ Sample.run 2 0 [StatusTruth.failure]

/-- A run of the python backend, up to the commit of `uploading`. -/
def started : List Background.Action :=
  (Sample.confirmed 0 0 [("acme/a.txt", [1])]).map .request ++
    [.request (.uploadRead Sample.actor 0), .request (.upload 1 .acquire), .schedule 1] ++
    [RunAction.read, .start].map (.run 2)

/-- Its only item fails. -/
def itemFails : List Background.Action :=
  started ++ [RunAction.list, .plan, .item 2 .mark, .item 2 (.raise "timeout"), .item 2 .fail,
    .item 2 .report, .finalize, .publish, .leave].map (.run 2)

/-- A task of which an item has failed. -/
def HasFailed (db : Db) (t : Task) : Prop :=
  t.status = .partial_failed ∧
    ∃ i ∈ db.items, i.task_id = t.id ∧ i.deliverable = true ∧ i.upload_status = .failed

instance (db : Db) (t : Task) : Decidable (HasFailed db t) := inferInstanceAs (Decidable (_ ∧ _))

theorem failed_left (h : HasFailed db t) :
    ReachedConfirmation t.status = true ∧ ∃ i, Undelivered db t.id i := by
  obtain ⟨hst, i, hi, ht, hd, hf⟩ := h
  exact ⟨by rw [hst]; rfl, i, hi, ht, hd, by simp [hf]⟩

/-- The first result is applied by a session that has loaded the rows before. -/
def appliedFailure : List (RowLoads.Action Bridge.Action) :=
  failedOnce.map .base ++ [.start, .loadTask 0 0, .loadItem 0 2, .land 0 (.apply 0)]

/-- In both backends a task whose only item has failed recovers; with the python backend when its
claim has expired, and not before. -/
theorem no_task_stranded_runs :
    (∃ (s : Workers) (t : Task), HasFailed s.base.db t ∧ Recovers Sample.cfg Tasks.upload_items s.base t) ∧
      (∃ (s : Runners) (t : Task), HasFailed s.base.base.db t ∧ Recovers Sample.cfg runSelects s.base.base t) ∧
      ∃ (s : Runners) (t : Task), HasFailed s.base.base.db t ∧ ¬Recovers Sample.cfg runSelects s.base.base t := by
  refine ⟨?_, ?_, ?_⟩
  · obtain ⟨s, h, t, ht, hidle, hfree, hf⟩ := replay_reaches (RowLoads.step goWorker Sample.cfg)
      (Lossless goWorker Sample.cfg Undisturbed)
      (p := fun s => ∃ t ∈ s.base.db.tasks, NothingInFlight s.base t.id ∧
        Unclaimed Sample.cfg.settings s.base.claims t ∧ HasFailed s.base.db t)
      (RowLoads.initial goWorker) appliedFailure (by decide +kernel)
    obtain ⟨hpast, hleft⟩ := failed_left hf
    exact ⟨s, t, hf, ((no_task_stranded Sample.cfg).1 s t h ht hpast hidle hleft).mpr hfree⟩
  · obtain ⟨s, h, t, ht, hidle, hfree, hf⟩ := replay_reaches (RowLoads.step background Sample.cfg)
      (Lossless background Sample.cfg Unbroken)
      (p := fun s => ∃ t ∈ s.base.base.db.tasks, NothingRuns s.base t.id ∧
        Unclaimed Sample.cfg.settings s.base.base.claims t ∧ HasFailed s.base.base.db t)
      (RowLoads.initial background)
      ((itemFails ++ [Background.Action.request (.expire (Tasks.upload_key Sample.actor 0))]).map .base)
      (by decide +kernel)
    obtain ⟨hpast, hleft⟩ := failed_left hf
    exact ⟨s, t, hf, ((no_task_stranded Sample.cfg).2 s t h ht hpast hidle hleft).mpr hfree⟩
  · obtain ⟨s, h, t, ht, hidle, hheld, hf⟩ := replay_reaches (RowLoads.step background Sample.cfg)
      (Lossless background Sample.cfg Unbroken)
      (p := fun s => ∃ t ∈ s.base.base.db.tasks, NothingRuns s.base t.id ∧
        ¬Unclaimed Sample.cfg.settings s.base.base.claims t ∧ HasFailed s.base.base.db t)
      (RowLoads.initial background) (itemFails.map .base) (by decide +kernel)
    obtain ⟨hpast, hleft⟩ := failed_left hf
    exact ⟨s, t, hf, fun hrec => hheld (((no_task_stranded Sample.cfg).2 s t h ht hpast hidle hleft).mp hrec)⟩

/-- A task whose status no retry can change. -/
def Stuck (db : Db) (t : Task) : Prop :=
  ReachedConfirmation t.status = true ∧ t.owner_tenant_id = Sample.actor.tenant_id ∧
    (∃ i ∈ db.items, i.task_id = t.id ∧ i.deliverable = true ∧ i.upload_status ≠ .uploaded) ∧
    t.status ≠ .confirmed ∧ (Tasks.retry_task db Sample.actor t.id).toOption.all
      (fun after => !(Tasks.upload_check after Sample.actor t.id).toBool)

instance (db : Db) (t : Task) : Decidable (Stuck db t) :=
  inferInstanceAs (Decidable (_ ∧ _ ∧ _ ∧ _ ∧ _))

theorem stuck_left (h : Stuck db t) : ∃ i, Undelivered db t.id i := by
  obtain ⟨_, _, ⟨i, hi, ht, hd, hm⟩, _⟩ := h
  exact ⟨i, hi, ht, hd, hm⟩

theorem stuck_not_recoverable (h : Stuck s.db t) : ¬Recovers cfg select s t := by
  obtain ⟨_, howner, _, hst, hall⟩ := h
  intro hr
  have ha : Writer t Sample.actor := ⟨howner.symm, rfl⟩
  obtain ⟨after, hretry, hresumes⟩ := (hr Sample.actor Sample.actor ha ha).2 hst
  obtain ⟨task, hcheck⟩ := hresumes.accepted
  simp [hretry, hcheck, Except.toOption, Except.toBool] at hall

/-- A confirmed task with an item that the next upload request does not select. -/
def Skipped (db : Db) (t : Task) : Prop :=
  t.status = .confirmed ∧ t.owner_tenant_id = Sample.actor.tenant_id ∧
    ∃ i ∈ db.items, i.task_id = t.id ∧ i.deliverable = true ∧ i.upload_status ≠ .uploaded ∧
      i.id ∉ (Tasks.upload_items db Sample.actor t.id).map TaskItem.id

instance (db : Db) (t : Task) : Decidable (Skipped db t) := inferInstanceAs (Decidable (_ ∧ _ ∧ _))

theorem skipped_not_recoverable (h : Skipped s.db t) : ¬Recovers cfg Tasks.upload_items s t := by
  obtain ⟨hst, howner, i, hi, ht, hd, hm, hnot⟩ := h
  intro hr
  have ha : Writer t Sample.actor := ⟨howner.symm, rfl⟩
  exact hnot (((hr Sample.actor Sample.actor ha ha).1 hst).selected i ⟨hi, ht, hd, hm⟩)

/-- A retry reads `queued`, and writes after the result has set `partial_failed`. -/
def retriedLate : List Action :=
  failedOnce ++ [.read .retry Sample.actor 0, .apply 0, .write 3]

/-- A second application of the failure loads `partial_failed`; a retry reopens the task before the
application commits, which then fails the item and leaves the status alone. -/
def appliedLate : List (RowLoads.Action Bridge.Action) :=
  appliedFailure ++ [.start, .loadTask 1 0, .base (.read .retry Sample.actor 0), .base (.write 3),
    .land 1 (.apply 0)]

/-- The listing of its items fails. -/
def listFails : List Background.Action :=
  started ++ [RunAction.raise "connection lost", .fail, .leave].map (.run 2)

/-- In both backends a task can be stuck: a retry that read `queued` resets the item that failed
meanwhile, and a run fails before any of its items. Where a result is applied again around a retry,
an item of a confirmed task is skipped. -/
theorem stranded_in_both :
    (¬∀ cfg, WorkersLeave cfg Free (Recovers cfg Tasks.upload_items)) ∧
      (¬∀ cfg, RunnersLeave cfg Free (Recovers cfg runSelects)) ∧
      ∃ (s : Workers) (t : Task),
        Run (RowLoads.step goWorker Sample.cfg) Free (RowLoads.initial goWorker) s ∧
        t ∈ s.base.db.tasks ∧ NothingInFlight s.base t.id ∧ t.status = .confirmed ∧
        ¬Recovers Sample.cfg Tasks.upload_items s.base t := by
  refine ⟨fun h => ?_, fun h => ?_, ?_⟩
  · obtain ⟨s, hrun, t, ht, hidle, hstuck⟩ := replay_reaches (RowLoads.step goWorker Sample.cfg) Free
      (p := fun s => ∃ t ∈ s.base.db.tasks, NothingInFlight s.base t.id ∧ Stuck s.base.db t)
      (RowLoads.initial goWorker) (retriedLate.map .base) (by decide +kernel)
    exact stuck_not_recoverable hstuck
      (h Sample.cfg s t hrun ht hstuck.1 hidle (stuck_left hstuck))
  · obtain ⟨s, hrun, t, ht, hidle, hstuck⟩ := replay_reaches (RowLoads.step background Sample.cfg) Free
      (p := fun s => ∃ t ∈ s.base.base.db.tasks, NothingRuns s.base t.id ∧ Stuck s.base.base.db t)
      (RowLoads.initial background) (listFails.map .base) (by decide +kernel)
    exact stuck_not_recoverable hstuck
      (h Sample.cfg s t hrun ht hstuck.1 hidle (stuck_left hstuck))
  · obtain ⟨s, hrun, t, ht, hidle, hskipped⟩ := replay_reaches (RowLoads.step goWorker Sample.cfg) Free
      (p := fun s => ∃ t ∈ s.base.db.tasks, NothingInFlight s.base t.id ∧ Skipped s.base.db t)
      (RowLoads.initial goWorker) appliedLate (by decide +kernel)
    exact ⟨s, t, hrun, ht, hidle, hskipped.1, skipped_not_recoverable hskipped⟩

end FileDelivery.Proofs.NoStranded
