import FileDelivery.Control.Text
import FileDelivery.Library.Fanout
import FileDelivery.Library.JsonText

namespace FileDelivery.Control.ProgressBus
open FileDelivery.Library FileDelivery.Library.Fanout

/-- What was put into each queue, read or not. An unbounded queue takes a `put` at once, so
that publishing is one step of the event loop. `none` is the sentinel. -/
abbrev Queues (ε : Type) := Nat → List (Option ε)

structure MemoryProgressBackend where
  _subscribers : Registry Text

namespace MemoryProgressBackend
variable (backend : MemoryProgressBackend) (task_id : Text) (queue : Nat) (queues : Queues ε)

/-- `subscribe` up to its `yield`. -/
def enter : MemoryProgressBackend := ⟨backend._subscribers.add task_id queue⟩

/-- `subscribe` after its `yield`; a queue that is not listed is passed over. -/
def leave : MemoryProgressBackend := ⟨backend._subscribers.drop task_id queue⟩

def publish (event : ε) : Queues ε :=
  post queues (backend._subscribers.subscribers task_id) (some event)

def close_task : Queues ε := post queues (backend._subscribers.subscribers task_id) none

end MemoryProgressBackend

inductive Operation (ε : Type) where
  | subscribe (task_id : Text)
  | unsubscribe (queue : Nat)
  | publish (task_id : Text) (event : ε)
  | close_task (task_id : Text)

/-- A process with the memory backend. Queues are numbered as they are made. -/
structure MemoryBus (ε : Type) where
  backend : MemoryProgressBackend
  queues : Queues ε
  /-- The open `async with` blocks: the task of each queue. -/
  contexts : Nat → Option Text
  next : Nat

def MemoryBus.initial : MemoryBus ε := ⟨⟨fun _ => none⟩, fun _ => [], fun _ => none, 0⟩

def MemoryBus.step (bus : MemoryBus ε) : Operation ε → MemoryBus ε
  | .subscribe task_id =>
    { bus with
      backend := bus.backend.enter task_id bus.next
      contexts := Function.update bus.contexts bus.next (some task_id)
      next := bus.next + 1 }
  | .unsubscribe queue =>
    match bus.contexts queue with
    | none => bus
    | some task_id =>
      { bus with
        backend := bus.backend.leave task_id queue
        contexts := Function.update bus.contexts queue none }
  | .publish task_id event => { bus with queues := bus.backend.publish task_id bus.queues event }
  | .close_task task_id => { bus with queues := bus.backend.close_task task_id bus.queues }

def MemoryBus.run (operations : List (Operation ε)) : MemoryBus ε :=
  operations.foldl MemoryBus.step MemoryBus.initial

/-- What an operation does, where `next` is the number of the next queue. -/
def Operation.event (next : Nat) : Operation ε → Event Text (Option ε)
  | .subscribe task_id => .subscribed next task_id
  | .unsubscribe queue => .unsubscribed queue
  | .publish task_id event => .sent task_id (some event)
  | .close_task task_id => .sent task_id none

/-- The next number after an operation. -/
def Operation.after (next : Nat) : Operation ε → Nat
  | .subscribe _ => next + 1
  | _ => next

/-- What happens in the course of some operations. -/
def happened (next : Nat) : List (Operation ε) → List (Event Text (Option ε))
  | [] => []
  | op :: operations => op.event next :: happened (op.after next) operations

section Redis

/-- An event: a dict that has a JSON text. -/
abbrev Dict := List (String × Json.Value)

def _CLOSE_MESSAGE : Text := "__progress_bus_close__"

def _channel (task_id : Text) : Text := "progress:".toList ++ task_id

/-- A subscription that the server has confirmed. -/
structure PubSub where
  channel : Text
  /-- Messages that the server has passed on and the pump has not read yet. -/
  pending : List Text

/-- A call of `publish` that the server carries out. -/
def redisPublish (pubsubs : Nat → Option PubSub) (channel data : Text) : Nat → Option PubSub :=
  fun queue => (pubsubs queue).map (fun pubsub =>
    if pubsub.channel = channel then { pubsub with pending := pubsub.pending ++ [data] } else pubsub)

/-- What `_pump` puts into the queue for a message, unless it drops it. -/
def pumped (data : Text) : Option (Option Dict) :=
  if data = _CLOSE_MESSAGE then some none
  else
    match JsonText.loads data with
    | some (.obj decoded) => some (some decoded)
    | _ => none

/-- A process with the Redis backend. -/
structure RedisBus where
  _fallback : MemoryProgressBackend
  /-- The subscriptions with a running pump, by their queues. -/
  pubsubs : Nat → Option PubSub
  queues : Queues Dict
  contexts : Nat → Option Text
  next : Nat

/-- A Redis call that raises a `RedisError` may have reached the server or not. -/
inductive RedisAction where
  /-- Unless it is confirmed, the subscription falls back to memory. -/
  | subscribe (task_id : Text) (confirmed : Bool)
  | unsubscribe (queue : Nat)
  | publish (task_id : Text) (event : Dict) (reached : Bool)
  | close_task (task_id : Text) (reached : Bool)
  /-- The pump of a queue reads its next message. -/
  | pump (queue : Nat)

def RedisBus.initial : RedisBus :=
  ⟨⟨fun _ => none⟩, fun _ => none, fun _ => [], fun _ => none, 0⟩

namespace RedisBus
variable (bus : RedisBus)

def subscribe (task_id : Text) (confirmed : Bool) : RedisBus :=
  { bus with
    _fallback := if confirmed then bus._fallback else bus._fallback.enter task_id bus.next
    pubsubs := if confirmed
      then Function.update bus.pubsubs bus.next (some ⟨_channel task_id, []⟩) else bus.pubsubs
    contexts := Function.update bus.contexts bus.next (some task_id)
    next := bus.next + 1 }

/-- The end of a block; what the pump has not read is dropped with it. -/
def unsubscribe (queue : Nat) : RedisBus :=
  match bus.contexts queue with
  | none => bus
  | some task_id =>
    { bus with
      _fallback := if (bus.pubsubs queue).isSome then bus._fallback
        else bus._fallback.leave task_id queue
      pubsubs := Function.update bus.pubsubs queue none
      contexts := Function.update bus.contexts queue none }

def publish (task_id : Text) (event : Dict) (reached : Bool) : RedisBus :=
  { bus with
    pubsubs := if reached
      then redisPublish bus.pubsubs (_channel task_id) (JsonText.dumps (.obj event)) else bus.pubsubs
    queues := bus._fallback.publish task_id bus.queues event }

def close_task (task_id : Text) (reached : Bool) : RedisBus :=
  { bus with
    pubsubs := if reached then redisPublish bus.pubsubs (_channel task_id) _CLOSE_MESSAGE
      else bus.pubsubs
    queues := bus._fallback.close_task task_id bus.queues }

/-- One turn of `_pump`. -/
def pump (queue : Nat) : RedisBus :=
  match bus.pubsubs queue with
  | some ⟨channel, data :: pending⟩ =>
    { bus with
      pubsubs := Function.update bus.pubsubs queue (some ⟨channel, pending⟩)
      queues := Function.update bus.queues queue (bus.queues queue ++ (pumped data).toList) }
  | _ => bus

def step : RedisAction → RedisBus
  | .subscribe task_id confirmed => bus.subscribe task_id confirmed
  | .unsubscribe queue => bus.unsubscribe queue
  | .publish task_id event reached => bus.publish task_id event reached
  | .close_task task_id reached => bus.close_task task_id reached
  | .pump queue => bus.pump queue

end RedisBus
end Redis
end FileDelivery.Control.ProgressBus
