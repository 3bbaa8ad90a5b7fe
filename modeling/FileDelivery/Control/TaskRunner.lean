import FileDelivery.Control.Tasks

namespace FileDelivery.Control

/-- Where an `_upload_item` is between two of its awaits. -/
inductive ItemStage where
  /-- Before the commit of `uploading`, whether the semaphores have let it in or not. -/
  | waiting
  | marked
  /-- `upload_file` has returned. -/
  | stored
  /-- `uploaded` is committed; its event is still to be published. -/
  | delivered
  /-- In the `except` branch, before the commit of `failed`. -/
  | raised (error : String)
  /-- `failed` is committed; its event is still to be published. -/
  | reported
  | ended (ok : Bool)
  /-- An exception has left the function. -/
  | escaped
  deriving DecidableEq, Repr

def ItemStage.over : ItemStage → Bool
  | .ended _ | .escaped => true
  | _ => false

/-- What the function has returned. -/
def ItemStage.result : ItemStage → Option Bool
  | .ended ok => some ok
  | _ => none

/-- The `_upload_item` of one item, which holds the row as it was listed. -/
structure ItemRun where
  item : TaskItem
  stage : ItemStage
  deriving DecidableEq, Repr

instance : Library.Rows.Row ItemRun := ⟨fun i => i.item.id⟩

@[simp] theorem itemRun_key (i : ItemRun) : Library.Rows.Row.key i = i.item.id := rfl

inductive ItemAction where
  | mark
  /-- The file is read and uploaded; its path is relative to the working directory. -/
  | store (data : Bytes)
  | done
  | publish
  /-- An exception inside the `try`. -/
  | raise (error : String)
  | fail
  | report
  /-- An exception outside of it. -/
  | escape
  deriving DecidableEq, Repr

/-- What a run has committed so far. -/
inductive RunPhase where
  | fresh
  | uploading
  | final
  deriving DecidableEq, Repr

/-- Where a `run_task` is between two of its awaits. -/
inductive RunStage where
  | starting
  /-- The status was read and found `confirmed`. -/
  | checked
  | started
  /-- None of the items that were listed is to be uploaded. -/
  | idle (listed : Nat)
  | planned (uploadable : List TaskItem)
  | working
  /-- The status is written; `task_done` is still to be published. -/
  | finished
  /-- In the `except` branch. -/
  | failing (error : String)
  | ended
  deriving DecidableEq, Repr

/-- One background task, with the coroutines that its `gather` has started. -/
structure TaskRun where
  rid : Nat
  task_id : Nat
  phase : RunPhase
  stage : RunStage
  items : List ItemRun
  deriving DecidableEq, Repr

instance : Library.Rows.Row TaskRun := ⟨TaskRun.rid⟩

@[simp] theorem taskRun_key (r : TaskRun) : Library.Rows.Row.key r = r.rid := rfl

inductive RunAction where
  | read
  | start
  | list
  | complete
  | plan
  | item (item_id : Nat) (action : ItemAction)
  | finalize
  | publish
  | raise (error : String)
  | fail
  /-- The failure is not persisted. -/
  | lose
  | leave
  | crash
  deriving DecidableEq, Repr

namespace TaskRunner
open FileDelivery.Library

def _uploadable (item : TaskItem) : Bool :=
  item.deliverable && item.upload_status == .pending

/-- The items that a run of the task uploads. -/
def uploadable (db : Db) (task_id : Nat) : List TaskItem :=
  (ItemRepo.list_by_task db task_id none).filter _uploadable

/-- The first characters of an exception's text. -/
def clip (n : Nat) (error : String) : String := String.ofList (error.toList.take n)

/-- The write of an item in a session of its own. -/
def setStatus (db : Db) (item : TaskItem) (status : UploadStatus) (upload_error : String)
    (uploaded_at : Option Time) : Db :=
  (ItemRepo.update_upload_status db item.id status none none upload_error uploaded_at).1

/-- One step of `_upload_item`: the database, and where the item is then. -/
def _upload_item (db : Db) (item : TaskItem) : ItemStage → ItemAction → Option (Db × ItemStage)
  | .waiting, .mark => some (setStatus db item .uploading "" none, .marked)
  | .marked, .store _ => some (db, .stored)
  | .stored, .done => some (setStatus db item .uploaded "" (some db.now), .delivered)
  | .delivered, .publish => some (db, .ended true)
  | .marked, .raise error => some (db, .raised error)
  | .stored, .raise error => some (db, .raised error)
  | .delivered, .raise error => some (db, .raised error)
  | .raised error, .fail => some (setStatus db item .failed (clip 1000 error) none, .reported)
  | .reported, .report => some (db, .ended false)
  | .waiting, .escape => some (db, .escaped)
  | .raised _, .escape => some (db, .escaped)
  | .reported, .escape => some (db, .escaped)
  | _, _ => none

/-- The key of an item in `grouped`. -/
def groupKey (item : TaskItem) : Text :=
  if item.target_name_matched = [] then "__unmatched__".toList else item.target_name_matched

def grouped (items : List ItemRun) : List (List ItemRun) :=
  (items.map (groupKey ·.item)).eraseDups.map (fun key =>
    items.filter (fun i => groupKey i.item == key))

/-- A group that has raised counts once, and its other items run on. -/
def groupResults (group : List ItemRun) : Option (List Bool) :=
  if group.any (·.stage == .escaped) then some [false]
  else group.mapM (ItemStage.result ·.stage)

/-- `all_results`, once the outer `gather` is done. -/
def all_results (items : List ItemRun) : Option (List Bool) :=
  ((grouped items).mapM groupResults).map List.flatten

/-- The read of `_run_task_inner`, or the error that it raises. -/
def check (db : Db) (task_id : Nat) : Except String Task :=
  match TaskRepo.get db task_id none with
  | none => .error ("Task '" ++ toString task_id ++ "' not found")
  | some task =>
    if task.status ≠ .confirmed then
      .error ("Task '" ++ toString task_id ++ "' is in status '" ++ task.status.text ++
        "', expected 'confirmed'")
    else .ok task

def start (db : Db) (task_id : Nat) : Db :=
  EventRepo.append (TaskRepo.update_status db task_id .uploading none none none) task_id
    .upload_started

/-- Where the listing of the items leads. -/
def listed (db : Db) (task_id : Nat) : RunStage :=
  if uploadable db task_id = [] then .idle (ItemRepo.list_by_task db task_id none).length
  else .planned (uploadable db task_id)

/-- The commit of a run that has nothing to upload. -/
def complete (db : Db) (task_id listed : Nat) : Db :=
  EventRepo.append (TaskRepo.update_status db task_id .uploaded none none (some db.now)) task_id
    (.task_completed 0 0 none (some listed))

def final_status (failed_count : Nat) : TaskStatus :=
  if failed_count = 0 then .uploaded else .partial_failed

def finalize (db : Db) (task_id : Nat) (results : List Bool) (total : Nat) : Db :=
  let failed_count := results.count false
  EventRepo.append
    (TaskRepo.update_status db task_id (final_status failed_count) none none (some db.now)) task_id
    (.task_completed (results.count true) failed_count (some total) none)

/-- The write of the `except` branch of `run_task`. -/
def fail (db : Db) (task_id : Nat) (error : String) : Db :=
  EventRepo.append (TaskRepo.update_status db task_id .failed none none (some db.now)) task_id
    (.task_failed (clip 500 error))

/-- One step of `run_task`: the database, and the run then, unless it is gone. -/
def run_task (db : Db) (run : TaskRun) : RunAction → Option (Db × Option TaskRun)
  | .read =>
    if run.stage = .starting then
      match check db run.task_id with
      | .ok _ => some (db, some { run with stage := .checked })
      | .error e => some (db, some { run with stage := .failing e })
    else none
  | .start =>
    if run.stage = .checked then
      some (start db run.task_id, some { run with stage := .started, phase := .uploading })
    else none
  | .list =>
    if run.stage = .started then some (db, some { run with stage := listed db run.task_id }) else none
  | .complete =>
    match run.stage with
    | .idle listed =>
      some (complete db run.task_id listed, some { run with stage := .finished, phase := .final })
    | _ => none
  | .plan =>
    match run.stage with
    | .planned items =>
      some (db, some { run with stage := .working, items := items.map (⟨·, .waiting⟩) })
    | _ => none
  | .item item_id action =>
    (Rows.find? run.items item_id).bind (fun i =>
      (_upload_item db i.item i.stage action).map (fun (db, stage) =>
        (db, some { run with
          items := Rows.update run.items item_id (fun i => { i with stage := stage }) })))
  | .finalize =>
    if run.stage = .working then
      (all_results run.items).map (fun results =>
        (finalize db run.task_id results run.items.length,
          some { run with stage := .finished, phase := .final }))
    else none
  | .publish =>
    if run.stage = .finished then some (db, some { run with stage := .ended }) else none
  | .raise error =>
    match run.stage with
    | .failing _ | .ended => none
    | .working =>
      (all_results run.items).map (fun _ => (db, some { run with stage := .failing error }))
    | _ => some (db, some { run with stage := .failing error })
  | .fail =>
    match run.stage with
    | .failing error =>
      some (fail db run.task_id error, some { run with stage := .ended, phase := .final })
    | _ => none
  | .lose =>
    match run.stage with
    | .failing _ => some (db, some { run with stage := .ended })
    | _ => none
  -- Items of a group that has raised may outlive their run.
  | .leave =>
    if run.stage = .ended ∧ run.items.all (·.stage.over) then some (db, none) else none
  | .crash => some (db, none)

end TaskRunner
end FileDelivery.Control
