import FileDelivery.Control.ProgressBus
import FileDelivery.Control.TaskViews
import FileDelivery.Library.EventStream

namespace FileDelivery.Control.ProgressStream
open FileDelivery.Library FileDelivery.Library.Fanout FileDelivery.Control.ProgressBus

/-- A response of `task_progress`. Its generator is in the block of a queue of its own. -/
structure Stream where
  actor : CurrentActor
  task_id : Nat
  /-- How many entries it has got from the queue. -/
  got : Nat
  /-- What it has yielded. -/
  body : List Char
  /-- It has got the sentinel. -/
  closed : Bool
  ended : Bool
  deriving DecidableEq, Repr

/-- What comes out of a turn of the loop. -/
inductive Turn where
  | disconnected
  /-- Of `wait_for`, whatever the queue has got meanwhile. -/
  | timeout
  | get
  /-- The generator is closed at one of its awaits. -/
  | cancelled
  deriving DecidableEq, Repr

inductive Action where
  | connect (actor : CurrentActor) (task_id : Nat)
  | publish (task_id : Text) (event : ProgressBus.Dict)
  | close_task (task_id : Text)
  | turn (queue : Nat) (turn : Turn)

structure State where
  bus : MemoryBus ProgressBus.Dict
  /-- By the numbers of their queues. -/
  streams : Nat → Option Stream
  /-- What has happened on the bus. -/
  history : List (Event Text (Option ProgressBus.Dict))

def initial : State := ⟨MemoryBus.initial, fun _ => none, []⟩

/-- The check before the stream; the session that reads the task is one of the request. -/
def task_progress (db : Db) (actor : CurrentActor) (task_id : Nat) : Except HTTPException Task :=
  Tasks.findTask db actor task_id

def State.operate (s : State) (op : Operation ProgressBus.Dict) : State :=
  { s with bus := s.bus.step op, history := s.history ++ [op.event s.bus.next] }

def State.put (s : State) (queue : Nat) (stream : Stream) : State :=
  { s with streams := Function.update s.streams queue (some stream) }

/-- The end of the block. -/
def State.leave (s : State) (queue : Nat) (stream : Stream) : State :=
  (s.operate (.unsubscribe queue)).put queue { stream with ended := true }

/-- One turn of `event_stream`; `get` waits for an entry. -/
def event_stream (s : State) (queue : Nat) (stream : Stream) : Turn → State
  | .disconnected | .cancelled => s.leave queue stream
  | .timeout => s.put queue { stream with
      body := stream.body ++ EventStream.comment "keep-alive".toList }
  | .get =>
    match (s.bus.queues queue)[stream.got]? with
    | none => s
    | some none => s.leave queue { stream with got := stream.got + 1, closed := true }
    | some (some event) => s.put queue { stream with
        got := stream.got + 1
        body := stream.body ++ EventStream.event (JsonText.dumps (.obj event)) }

/-- A task is read from tables in which tasks keep their owners. -/
def step (db : Db) (s : State) : Action → State
  | .connect actor task_id =>
    match task_progress db actor task_id with
    | .error _ => s
    | .ok _ => (s.operate (.subscribe (idText task_id))).put s.bus.next
        ⟨actor, task_id, 0, [], false, false⟩
  | .publish task_id event => s.operate (.publish task_id event)
  | .close_task task_id => s.operate (.close_task task_id)
  | .turn queue turn =>
    match s.streams queue with
    | none => s
    | some stream => if stream.ended then s else event_stream s queue stream turn

def run (db : Db) (s : State) (actions : List Action) : State := actions.foldl (step db) s

end FileDelivery.Control.ProgressStream
