import FileDelivery.Library.Offsets
import FileDelivery.Control.Delivery

namespace FileDelivery.Control.ResultConsumer
open FileDelivery.Library FileDelivery.Control

/-- A record of the results topic; `none` is a value that does not decode. -/
structure Fetched where
  partition : Nat
  offset : Nat
  value : Option DeliveryResultMessage
  deriving DecidableEq, Repr

/-- At most `n` consecutive records of partition `p` from `start` on. -/
def block (log : List (Option DeliveryResultMessage)) (p : Nat) : Nat → Nat → List Fetched
  | _, 0 => []
  | start, n + 1 =>
    match log[start]? with
    | none => []
    | some value => ⟨p, start, value⟩ :: block log p (start + 1) n

/-- A consumer between `start` and `stop`. A managed consumer lives for one call of
`consume_delivery_results`, an injected one for as many as its owner likes. -/
structure Consumer where
  position : Nat → Nat
  /-- Records of the current call that the loop has not reached. -/
  batch : List Fetched
  /-- The record that was applied last, as long as its ack is outstanding. -/
  unacked : Option Fetched
  /-- Records fetched since the start and passed over: the lease was held
  elsewhere, or the call raised before it reached them. -/
  left : List (Nat × Nat)

structure State where
  logs : Nat → List (Option DeliveryResultMessage)
  committed : Nat → Nat
  /-- Records passed to `apply_delivery_result`, by whichever consumer. -/
  applied : List (Nat × Nat)
  consumers : Nat → Option Consumer

inductive Action where
  | produce (p : Nat) (value : Option DeliveryResultMessage)
  | start (c : Nat)
  | getmany (c : Nat) (partitions : List (Nat × Nat))
  | lease (c : Nat) (acquired : Bool)
  | ack (c : Nat)
  | abort (c : Nat)
  | stop (c : Nat)
  deriving DecidableEq, Repr

def Fetched.place (r : Fetched) : Nat × Nat := (r.partition, r.offset)

/-- The block of one partition goes behind the blocks already returned. -/
def take (logs : Nat → List (Option DeliveryResultMessage))
    (acc : (Nat → Nat) × List Fetched) (request : Nat × Nat) : (Nat → Nat) × List Fetched :=
  let records := block (logs request.1) request.1 (acc.1 request.1) request.2
  (Function.update acc.1 request.1 (acc.1 request.1 + records.length), acc.2 ++ records)

/-- `consume_records`: the position moves past the whole batch; one value that does
not decode makes the call raise. -/
def Consumer.getmany (logs : Nat → List (Option DeliveryResultMessage)) (c : Consumer)
    (partitions : List (Nat × Nat)) : Consumer :=
  let fetched := partitions.foldl (take logs) (c.position, [])
  if fetched.2.all (·.value.isSome) then { c with position := fetched.1, batch := fetched.2 }
  else { c with position := fetched.1, left := c.left ++ fetched.2.map Fetched.place }

/-- An exception leaves the loop; the records it had not reached stay behind. -/
def Consumer.abort (c : Consumer) : Consumer :=
  { c with batch := [], unacked := none, left := c.left ++ c.batch.map Fetched.place }

def initial : State := ⟨fun _ => [], fun _ => 0, [], fun _ => none⟩

def State.set (s : State) (c : Nat) (k : Option Consumer) : State :=
  { s with consumers := Function.update s.consumers c k }

def step (s : State) : Action → Option State
  | .produce p value =>
    some { s with logs := Function.update s.logs p (s.logs p ++ [value]) }
  | .start c =>
    match s.consumers c with
    | none => some (s.set c (some ⟨s.committed, [], none, []⟩))
    | some _ => none
  | .getmany c partitions =>
    match s.consumers c with
    | some ⟨position, [], none, left⟩ =>
      some (s.set c (some (Consumer.getmany s.logs ⟨position, [], none, left⟩ partitions)))
    | _ => none
  | .lease c acquired =>
    match s.consumers c with
    | some ⟨position, record :: rest, none, left⟩ =>
      if acquired then
        some { s.set c (some ⟨position, rest, some record, left⟩) with
          applied := record.place :: s.applied }
      else some (s.set c (some ⟨position, rest, none, left ++ [record.place]⟩))
    | _ => none
  | .ack c =>
    match s.consumers c with
    | some ⟨position, rest, some record, left⟩ =>
      some { s.set c (some ⟨position, rest, none, left⟩) with
        committed := Offsets.commit s.committed record.place }
    | _ => none
  | .abort c =>
    match s.consumers c with
    | some k => some (s.set c (some k.abort))
    | none => none
  | .stop c =>
    match s.consumers c with
    | some ⟨_, [], none, _⟩ => some (s.set c none)
    | _ => none

/-- If the record at `(p, o)` decodes, it has been passed to `apply_delivery_result`. -/
def Applied (s : State) (p o : Nat) : Prop :=
  (s.logs p)[o]?.join.isSome → (p, o) ∈ s.applied

instance (s : State) (p o : Nat) : Decidable (Applied s p o) :=
  inferInstanceAs (Decidable (_ → _))

/-- The committed offsets pass applied records only. -/
def NonePassed (s : State) : Prop := Offsets.Passed (Applied s) s.committed

/-- The places that an ack of `record` passes although `k` left them behind. -/
def Consumer.overtaken (k : Consumer) (record : Fetched) : List (Nat × Nat) :=
  k.left.filter (fun place => place.1 == record.partition && decide (place.2 < record.offset))

/-- An ack overtakes no decodable record of its partition that the same consumer passed
over and that nobody has applied since. -/
def InOrder (s : State) : Action → Prop
  | .ack c => ∀ k ∈ s.consumers c, ∀ record ∈ k.unacked,
      ∀ place ∈ k.overtaken record, Applied s place.1 place.2
  | _ => True

instance (s : State) : (a : Action) → Decidable (InOrder s a)
  | .ack c => inferInstanceAs (Decidable (∀ k ∈ s.consumers c, _))
  | .produce _ _ | .start _ | .getmany _ _ | .lease _ _ | .abort _ | .stop _ => .isTrue trivial

end FileDelivery.Control.ResultConsumer
