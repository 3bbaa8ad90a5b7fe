import FileDelivery.Control.Classifier
import FileDelivery.Control.Messages
import FileDelivery.Worker.Message

namespace FileDelivery.Bridge.FileSpool
open FileDelivery.Control

/-- What a name in a directory stands for. -/
inductive Entry where
  | file (content : Bytes)
  | dir

/-- Put a file in the place of what has its name. -/
def put (dir : Dict Entry) (name : Text) (content : Bytes) : Dict Entry where
  entries := (name, .file content) :: dir.entries.filter (·.1 ≠ name)
  keys_distinct := by
    rw [List.map_cons, List.nodup_cons]
    refine ⟨?_, List.Pairwise.sublist (List.filter_sublist.map _) dir.keys_distinct⟩
    simp

/-- The file of a message about a task. -/
def messageFile (task_id : Text) : Text := task_id ++ ".json".toList

/-- The `*.json` entries of a directory, in the order of their names. -/
def jsonEntries (dir : Dict Entry) : List (Text × Entry) :=
  (dir.entries.filter (fun e => ".json".toList.isSuffixOf e.1)).insertionSort
    (fun a b => Classifier.textOrder a.1 b.1)

/-- Where the two directions differ: `FileSpool.Consume` passes over directories and
reports the file that it cannot decode, `consume` raises as the read or the validation
does. -/
structure Reader (M : Type) where
  /-- The directory is not there. -/
  absent : Except Text (List M)
  skips : Entry → Bool
  read : Text → Entry → Except Text M

/-- One scan: the messages of all files, or the first error. -/
def Reader.scan (r : Reader M) : Option (Dict Entry) → Except Text (List M)
  | none => r.absent
  | some dir => ((jsonEntries dir).filter (fun e => !r.skips e.2)).mapM (fun e => r.read e.1 e.2)

/-- `FileSpool.Consume` over `json.Unmarshal`. -/
def Consume (inboxDir : Text) (unmarshal : Bytes → Except Text Worker.DeliveryTask) :
    Reader Worker.DeliveryTask where
  absent := .error ("open ".toList ++ inboxDir ++ ": no such file or directory".toList)
  skips := fun e => match e with
    | .dir => true
    | .file _ => false
  read := fun name e => match e with
    | .dir => .error []
    | .file raw => (unmarshal raw).mapError
        (fun err => "decode ".toList ++ inboxDir ++ ['/'] ++ name ++ ": ".toList ++ err)

/-- `FileSpoolDeliveryResultConsumer.consume` over `model_validate_json`. -/
def consume (validate : Bytes → Except Text DeliveryResultMessage) :
    Reader DeliveryResultMessage where
  absent := .ok []
  skips := fun _ => false
  read := fun _ e => match e with
    | .dir => .error "Is a directory".toList
    | .file text => validate text

/-- One direction of the spool, and what its reader has from the last scan. -/
structure State (M : Type) where
  dir : Option (Dict Entry)
  inHand : List M

inductive Action where
  /-- A message about a task is published or produced, perhaps again. -/
  | write (task_id : Text) (content : Bytes)
  | consume
  | ack
  /-- The next message is left without an ack: its lease is held, or the loop ends. -/
  | pass
  deriving DecidableEq, Repr

def initial : State M := ⟨none, []⟩

/-- The ack of `NewTaskMessage` and `_noop_ack` do nothing. -/
def step (r : Reader M) (s : State M) : Action → Option (State M)
  | .write task_id content =>
    let dir := s.dir.getD .empty
    match dir.get? (messageFile task_id) with
    | some .dir => none
    | _ => some { s with dir := some (put dir (messageFile task_id) content) }
  | .consume =>
    match r.scan s.dir, s.inHand with
    | .ok messages, [] => some { s with inHand := messages }
    | _, _ => none
  | .ack =>
    match s.inHand with
    | _ :: rest => some { s with inHand := rest }
    | [] => none
  | .pass =>
    match s.inHand with
    | _ :: rest => some { s with inHand := rest }
    | [] => none

/-- Nobody writes the file `name`. -/
def Keeps (name : Text) (_ : State M) : Action → Prop
  | .write task_id _ => messageFile task_id ≠ name
  | _ => True

end FileDelivery.Bridge.FileSpool
