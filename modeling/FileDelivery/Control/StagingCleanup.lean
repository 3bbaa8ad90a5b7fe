import FileDelivery.Control.Staging
import Mathlib.Data.Int.Order.Basic

namespace FileDelivery.Control.Staging

/-- How a `delete_object` call ends. -/
inductive DeleteOutcome where
  | deleted
  /-- A client error with code 404, NoSuchKey or NotFound. -/
  | missing
  /-- A client error with any other code. -/
  | refused
  /-- An exception that is no client error; it ends the job. -/
  | raised
  deriving DecidableEq, Repr

/-- What a job has done so far; it raises in its last call or not at all. -/
structure CleanupRun (α : Type) where
  db : Db
  store : Objects α
  /-- The objects that `delete_object` was called for, in order. -/
  calls : List (Text × Text)
  scanned : Nat
  deleted : Nat
  failed : Nat
  skipped : Nat
  raised : Bool

structure StagingCleanupSummary where
  scanned : Nat
  deleted : Nat
  failed : Nat
  skipped : Nat
  deriving DecidableEq, Repr

/-- Staging events of terminal tasks, created at the cutoff or before. -/
def cleanupCandidates (db : Db) (cutoff : Int) : List TaskEvent :=
  (db.events.filter (fun e => (stagedSource e.payload).isSome &&
    db.tasks.any (fun t => t.id == e.task_id && terminal t.status) &&
    decide ((e.created_at : Int) ≤ cutoff))).insertionSort eventOrder

/-- The query of a job that takes the clock's time and a retention time of at least zero. -/
theorem cleanup_candidates_eq (db : Db) (retention : Time) :
    _list_cleanup_candidates db retention =
      cleanupCandidates db ((db.now : Int) - (retention : Int)) := by
  have hcutoff : ∀ e : TaskEvent, e.created_at + retention ≤ db.now ↔
      (e.created_at : Int) ≤ (db.now : Int) - (retention : Int) := by
    intro e
    unfold Time at *
    omega
  simp only [_list_cleanup_candidates, cleanupCandidates, hcutoff]

/-- The event that reports a source as deleted. -/
def CleanupRun.report (run : CleanupRun α) (event : TaskEvent) (target : Text × Text)
    (deleted_at : Time) : CleanupRun α :=
  { run with
    db := EventRepo.append run.db event.task_id
      (.task_staged_source_deleted none target.1 target.2 "" (some event.id) deleted_at)
    deleted := run.deleted + 1 }

/-- One turn of the loop; `outcome` tells the calls apart by how many came before. -/
def cleanupOne (bucket_name : Option Text) (deleted_keys : List (Text × Text)) (deleted_at : Time)
    (outcome : Nat → DeleteOutcome) (run : CleanupRun α) (event : TaskEvent) : CleanupRun α :=
  match cleanupTarget bucket_name deleted_keys event with
  | none => { run with skipped := run.skipped + 1 }
  | some target =>
    let called := { run with calls := run.calls ++ [target] }
    match outcome run.calls.length with
    | .deleted =>
      CleanupRun.report { called with store := run.store.delete target.1 target.2 } event target
        deleted_at
    | .missing => called.report event target deleted_at
    | .refused => { called with failed := run.failed + 1 }
    | .raised => { called with raised := true }

/-- The loop over the candidates; the deleted keys are those of the start throughout. -/
def cleanupLoop (bucket_name : Option Text) (deleted_keys : List (Text × Text)) (deleted_at : Time)
    (outcome : Nat → DeleteOutcome) : List TaskEvent → CleanupRun α → CleanupRun α
  | [], run => run
  | event :: rest, run =>
    let next := cleanupOne bucket_name deleted_keys deleted_at outcome run event
    if next.raised then next
    else cleanupLoop bucket_name deleted_keys deleted_at outcome rest next

/-- `now or datetime.now(UTC)` -/
def jobNow (db : Db) (now : Option Time) : Time := now.getD db.now

def cutoff (db : Db) (retention : Int) (now : Option Time) : Int := (jobNow db now : Int) - retention

/-- The job up to its end; a `timedelta` may be negative. Where the job raises, its caller
drops the events that it appended. -/
def cleanup_staging_sources (db : Db) (store : Objects α) (retention : Int) (now : Option Time)
    (bucket_name : Option Text) (outcome : Nat → DeleteOutcome) : CleanupRun α :=
  let candidates := cleanupCandidates db (cutoff db retention now)
  cleanupLoop bucket_name (_list_deleted_source_keys db) (jobNow db now) outcome candidates
    ⟨db, store, [], candidates.length, 0, 0, 0, false⟩

/-- What the job returns. -/
def CleanupRun.summary (run : CleanupRun α) : Option StagingCleanupSummary :=
  if run.raised then none else some ⟨run.scanned, run.deleted, run.failed, run.skipped⟩

end FileDelivery.Control.Staging
