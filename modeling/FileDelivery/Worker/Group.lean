import FileDelivery.Worker.Kafka

namespace FileDelivery.Worker.Group
open FileDelivery.Control FileDelivery.Worker

/-- The workers of one consumer group on the task topic. -/
structure State where
  logs : Nat → List Kafka.Message
  committed : Nat → Nat
  results : List ((Nat × Nat) × DeliveryResult)
  dlq : List ((Nat × Nat) × Kafka.DLQRecord)
  processes : Nat → Option Kafka.Process

/-- What worker `w` deals with. -/
def State.view (s : State) (w : Nat) : Kafka.State :=
  ⟨s.logs, s.committed, s.results, s.dlq, s.processes w⟩

def State.put (s : State) (w : Nat) (k : Kafka.State) : State :=
  ⟨k.logs, k.committed, k.results, k.dlq, Function.update s.processes w k.process⟩

def initial : State := ⟨fun _ => [], fun _ => 0, [], [], fun _ => none⟩

/-- A step of worker `w`, or a publication. -/
def step (cfg : Nat → Kafka.Config) (s : State) : Nat × Kafka.Action → Option State
  | (w, a) => (Kafka.step (cfg w) (s.view w) a).map (s.put w)

/-- Without a rebalance a worker fetches from its own partitions only. -/
def Assigned (owner : Nat → Nat) (_ : State) : Nat × Kafka.Action → Prop
  | (w, .fetch p) => owner p = w
  | _ => True

instance (owner : Nat → Nat) (s : State) : (a : Nat × Kafka.Action) → Decidable (Assigned owner s a)
  | (w, .fetch p) => inferInstanceAs (Decidable (owner p = w))
  | (_, .publish _ _) | (_, .start) | (_, .fetchTimeout) | (_, .writeDLQ _) | (_, .commitDLQ)
  | (_, .produce _ _ _) | (_, .ack) | (_, .batchDone) | (_, .fail) => .isTrue trivial

end FileDelivery.Worker.Group
