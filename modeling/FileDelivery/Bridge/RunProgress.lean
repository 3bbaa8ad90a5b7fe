import FileDelivery.Bridge.Backends
import FileDelivery.Control.ProgressStream
import FileDelivery.Control.Schema

namespace FileDelivery.Bridge.RunProgress
open FileDelivery.Library FileDelivery.Control FileDelivery.Control.TaskRunner FileDelivery.Bridge.Backends

/-- What a `run_task` publishes. -/
inductive ProgressEvent where
  | task_started (task_id : Nat)
  | task_plan (total_items : Nat) (targets : List Text)
  | item_progress (item : TaskItem) (bytes_uploaded : Nat)
  | item_done (item : TaskItem)
  | item_failed (item : TaskItem) (error : String)
  /-- Without a status where nothing was to be uploaded. -/
  | task_done (status : Option TaskStatus) (uploaded failed total : Nat)
  | task_failed (error : String)
  deriving DecidableEq, Repr

/-- The `item_id` and the `filename` of an event about an item. -/
def itemKeys (item : TaskItem) : ProgressBus.Dict :=
  [("item_id", Schema.text (idText item.id)), ("filename", Schema.text item.filename)]

def ProgressEvent.dict : ProgressEvent → ProgressBus.Dict
  | .task_started task_id =>
    [("type", .str "task_started"), ("task_id", Schema.text (idText task_id))]
  | .task_plan total_items targets =>
    [("type", .str "task_plan"), ("total_items", .num total_items),
      ("targets", .arr (targets.map Schema.text))]
  | .item_progress item bytes_uploaded =>
    ("type", .str "item_progress") :: itemKeys item ++
      [("bytes_uploaded", .num bytes_uploaded), ("file_size", .num item.file_size)]
  | .item_done item =>
    ("type", .str "item_done") :: itemKeys item ++ [("dst_path", Schema.text item.dst_path)]
  | .item_failed item error =>
    ("type", .str "item_failed") :: itemKeys item ++ [("error", .str error)]
  | .task_done status uploaded failed total =>
    ("type", .str "task_done") :: Json.optional "status" (status.map (fun s => .str s.text)) ++
      [("uploaded", .num uploaded), ("failed", .num failed), ("total", .num total)]
  | .task_failed error => [("type", .str "task_failed"), ("error", .str error)]

/-- A `run_task` with its bus. A call of the bus that raises has put nothing into a queue. -/
structure State where
  python : PythonRun
  /-- `exc` in the handlers of the items. -/
  exc : Nat → String
  /-- The `task_done` that belongs to the status that the run has committed. -/
  result : Option ProgressEvent
  /-- What it has published; `none` is the sentinel of `close_task`. -/
  told : List (Option ProgressEvent)

inductive Action where
  /-- `task_started` or `task_plan` is published. -/
  | publish
  /-- `upload_file` calls `on_progress`, once. -/
  | on_progress (item_id bytes_uploaded : Nat)
  | run (action : RunAction)
  deriving DecidableEq, Repr

def State.tell (s : State) (events : List (Option ProgressEvent)) : State :=
  { s with told := s.told ++ events }

def State.findItem (s : State) (item_id : Nat) : Option ItemRun := Rows.find? s.python.run.items item_id

/-- `list(grouped.keys())` -/
def targets (items : List TaskItem) : List Text := (items.map groupKey).eraseDups

/-- What a run publishes between its status and its listing, and with its plan. -/
def opening (run : TaskRun) (told : Nat) : Option ProgressEvent :=
  match run.stage, told with
  | .started, 0 => some (.task_started run.task_id)
  | .planned items, 1 => some (.task_plan items.length (targets items))
  | _, _ => none

/-- The one call of `on_progress` for an item. -/
def progressed (item_id : Nat) : Option ProgressEvent → Bool
  | some (.item_progress item _) => item.id == item_id
  | _ => false

/-- A step of the run has published what comes before it. -/
def Ready (s : State) : RunAction → Prop
  | .list => s.told.length = 1
  | .plan => s.told.length = 2
  | .item item_id (.store data) =>
    ∀ i ∈ s.findItem item_id, some (.item_progress i.item data.length) ∈ s.told
  | _ => True

instance (s : State) : (a : RunAction) → Decidable (Ready s a)
  | .list => inferInstanceAs (Decidable (s.told.length = 1))
  | .plan => inferInstanceAs (Decidable (s.told.length = 2))
  | .item item_id (.store _) => inferInstanceAs (Decidable (∀ i ∈ s.findItem item_id, _))
  | .item _ .mark | .item _ .done | .item _ .publish | .item _ (.raise _) | .item _ .fail
  | .item _ .report | .item _ .escape | .read | .start | .complete | .finalize | .publish
  | .raise _ | .fail | .lose | .leave | .crash => .isTrue trivial

/-- What a step of the run publishes. -/
def publishes (s : State) : RunAction → List (Option ProgressEvent)
  | .item item_id .publish => ((s.findItem item_id).map (fun i => some (.item_done i.item))).toList
  | .item item_id .report =>
    ((s.findItem item_id).map (fun i => some (.item_failed i.item (clip 200 (s.exc item_id))))).toList
  | .publish => [s.result, none]
  | .fail | .lose =>
    match s.python.run.stage with
    | .failing error => [some (.task_failed (clip 200 error)), none]
    | _ => []
  | _ => []

/-- The `task_done` that a commit leads to. -/
def resultAfter (s : State) : RunAction → Option ProgressEvent
  | .complete =>
    match s.python.run.stage with
    | .idle listed => some (.task_done none 0 0 listed)
    | _ => s.result
  | .finalize => (all_results s.python.run.items).map (fun results =>
      .task_done (some (final_status (results.count false))) (results.count true) (results.count false)
        s.python.run.items.length)
  | _ => s.result

def excAfter (s : State) : RunAction → Nat → String
  | .item item_id (.raise error) => Function.update s.exc item_id error
  | _ => s.exc

def step (s : State) : Action → Option State
  | .publish => (opening s.python.run s.told.length).map (fun e => s.tell [some e])
  | .on_progress item_id bytes_uploaded =>
    (s.findItem item_id).bind (fun i =>
      if i.stage = .marked ∧ ¬s.told.any (progressed item_id)
      then some (s.tell [some (.item_progress i.item bytes_uploaded)]) else none)
  | .run action =>
    if Ready s action then
      (Backends.step s.python action).map (fun python =>
        ⟨python, excAfter s action, resultAfter s action, s.told ++ publishes s action⟩)
    else none

/-- Before the run begins. -/
def scheduled (db : Db) (rid task_id : Nat) : State :=
  ⟨Backends.scheduled db rid task_id, fun _ => "", none, []⟩

/-- A run, and the clients of the process that it is in. -/
structure Watched where
  run : State
  clients : ProgressStream.State
  /-- How much the run had told when the client of a queue connected. -/
  joined : Nat → Nat

inductive WatchedAction where
  | run (action : Action)
  /-- Clients come, read and go; what is published for other tasks goes by as well. -/
  | client (action : ProgressStream.Action)

end FileDelivery.Bridge.RunProgress
