import FileDelivery.Library.Offsets
import FileDelivery.Library.Utf8
import FileDelivery.Worker.Pipeline

namespace FileDelivery.Worker.Kafka
open FileDelivery.Library FileDelivery.Control FileDelivery.Worker

/-- A message of the task topic. -/
structure Message where
  key : Bytes
  value : Bytes
  deriving DecidableEq, Repr

/-- A message that a reader has fetched. -/
structure Fetched where
  partition : Nat
  offset : Nat
  message : Message
  deriving DecidableEq, Repr

def Fetched.place (f : Fetched) : Nat × Nat := (f.partition, f.offset)

structure TaskMessage where
  fetched : Fetched
  task : DeliveryTask
  deriving DecidableEq, Repr

structure DLQMessage where
  topic : String
  errorClass : String
  errorMessage : String
  workerId : String
  failedAt : Nat
  taskTopic : String
  taskKey : Text
  rawMessage : Text
  deriving DecidableEq, Repr

/-- A record of the DLQ, whose value is a `DLQMessage` as JSON. -/
structure DLQRecord where
  key : Bytes
  value : DLQMessage
  deriving DecidableEq, Repr

structure Config where
  batchSize : Int
  taskTopic : String
  dlqTopic : String
  workerId : String
  /-- `Run` returns after one batch. -/
  once : Bool
  /-- `json.Unmarshal` into a `DeliveryTask`. -/
  unmarshal : Bytes → Except String DeliveryTask

/-- The batch size after `newKafkaTransportWithDLQ`. -/
def Config.batch (cfg : Config) : Nat := if cfg.batchSize ≤ 0 then 1 else cfg.batchSize.toNat

/-- Decode and validate: a task, or the cause that goes to the DLQ. -/
def Config.decode (cfg : Config) (value : Bytes) : Except String DeliveryTask :=
  match cfg.unmarshal value with
  | .error e => .error e
  | .ok task =>
    match validateTaskMessage task with
    | some e => .error e
    | none => .ok task

/-- The record that `produceDLQ` writes. `json.Marshal` replaces what is no UTF-8 in a string. -/
def Config.produceDLQ (cfg : Config) (msg : Message) (cause : String) (failedAt : Nat) : DLQRecord where
  key := msg.key
  value :=
    { topic := cfg.dlqTopic
      errorClass := "invalid_message"
      errorMessage := cause
      workerId := cfg.workerId
      failedAt := failedAt
      taskTopic := cfg.taskTopic
      taskKey := Utf8.decode msg.key
      rawMessage := Utf8.decode msg.value }

/-- Where a worker process is between two calls that something outside it notices. -/
inductive Stage where
  /-- In `Consume`, before fetch number `fetched`. -/
  | fetching (fetched : Nat) (tasks : List TaskMessage)
  /-- In `Consume`, with an invalid message still to be written to the DLQ. -/
  | rejecting (fetched : Nat) (tasks : List TaskMessage) (msg : Fetched) (cause : String)
  /-- In `Consume`, with the DLQ record written and its commit outstanding. -/
  | dropping (fetched : Nat) (tasks : List TaskMessage) (msg : Fetched)
  /-- In the loop over a batch, before the head is processed. -/
  | processing (tasks : List TaskMessage)
  /-- The result of `task` is produced and its ack outstanding. -/
  | acking (task : TaskMessage) (tasks : List TaskMessage)
  deriving DecidableEq, Repr

/-- A running process: the reader's positions and the place in the code. -/
structure Process where
  position : Nat → Nat
  stage : Stage

structure State where
  logs : Nat → List Message
  committed : Nat → Nat
  /-- Results produced, each with the place of the message it is for. -/
  results : List ((Nat × Nat) × DeliveryResult)
  /-- Records written to the DLQ, with the place of the message. -/
  dlq : List ((Nat × Nat) × DLQRecord)
  process : Option Process

inductive Action where
  | publish (p : Nat) (msg : Message)
  /-- A worker starts, or starts again after a crash. -/
  | start
  | fetch (p : Nat)
  | fetchTimeout
  | writeDLQ (failedAt : Nat)
  | commitDLQ
  | produce (itemResults : List DeliveryResultItem) (started ended : Nat)
  | ack
  | batchDone
  /-- An error that makes `Run` return, or a crash: memory is gone. -/
  | fail
  deriving DecidableEq, Repr

/-- The loop condition of `Consume`: fetch on, or hand the batch over. -/
def Config.next (cfg : Config) (fetched : Nat) (tasks : List TaskMessage) : Stage :=
  if fetched < cfg.batch then .fetching fetched tasks else .processing tasks

/-- What `Consume` does with a fetched message. -/
def Config.consume (cfg : Config) (fetched : Nat) (tasks : List TaskMessage) (msg : Fetched) :
    Stage :=
  match cfg.decode msg.message.value with
  | .error cause => .rejecting fetched tasks msg cause
  | .ok task => cfg.next (fetched + 1) (tasks ++ [⟨msg, task⟩])

/-- A commit moves the partition behind the message, whatever was committed before. -/
def commitMessages (committed : Nat → Nat) (msg : Fetched) : Nat → Nat :=
  Offsets.commit committed msg.place

def initial : State := ⟨fun _ => [], fun _ => 0, [], [], none⟩

def step (cfg : Config) (s : State) : Action → Option State
  | .publish p msg => some { s with logs := Function.update s.logs p (s.logs p ++ [msg]) }
  | .start =>
    match s.process with
    | none => some { s with process := some ⟨s.committed, cfg.next 0 []⟩ }
    | some _ => none
  | .fetch p =>
    match s.process with
    | some ⟨position, .fetching fetched tasks⟩ =>
      (s.logs p)[position p]?.map (fun msg =>
        { s with process := some ⟨Function.update position p (position p + 1),
            cfg.consume fetched tasks ⟨p, position p, msg⟩⟩ })
    | _ => none
  | .fetchTimeout =>
    match s.process with
    | some ⟨position, .fetching fetched tasks⟩ =>
      if 0 < fetched then some { s with process := some ⟨position, .processing tasks⟩ } else none
    | _ => none
  | .writeDLQ failedAt =>
    match s.process with
    | some ⟨position, .rejecting fetched tasks msg cause⟩ =>
      some { s with dlq := (msg.place, cfg.produceDLQ msg.message cause failedAt) :: s.dlq,
                    process := some ⟨position, .dropping fetched tasks msg⟩ }
    | _ => none
  | .commitDLQ =>
    match s.process with
    | some ⟨position, .dropping fetched tasks msg⟩ =>
      some { s with committed := commitMessages s.committed msg,
                    process := some ⟨position, cfg.next (fetched + 1) tasks⟩ }
    | _ => none
  | .produce itemResults started ended =>
    match s.process with
    | some ⟨position, .processing (task :: tasks)⟩ =>
      if itemResults.map (·.itemId) = (Pipeline.uploadItems task.task).map (·.itemId) then
        some { s with
          results := (task.fetched.place, processTask task.task itemResults started ended) ::
            s.results,
          process := some ⟨position, .acking task tasks⟩ }
      else none
    | _ => none
  | .ack =>
    match s.process with
    | some ⟨position, .acking task tasks⟩ =>
      some { s with committed := commitMessages s.committed task.fetched,
                    process := some ⟨position, .processing tasks⟩ }
    | _ => none
  | .batchDone =>
    match s.process with
    | some ⟨position, .processing []⟩ =>
      some { s with process := if cfg.once then none else some ⟨position, cfg.next 0 []⟩ }
    | _ => none
  | .fail => s.process.map (fun _ => { s with process := none })

/-- What has to exist before an offset may be passed: a result of the message, or its
DLQ record. -/
def Handled (cfg : Config) (s : State) (place : Nat × Nat) (msg : Message) : Prop :=
  match cfg.decode msg.value with
  | .ok task => ∃ itemResults started ended,
      (place, processTask task itemResults started ended) ∈ s.results
  | .error cause => ∃ failedAt, (place, cfg.produceDLQ msg cause failedAt) ∈ s.dlq

/-- The place `(p, o)` may be passed. -/
def Done (cfg : Config) (s : State) (p o : Nat) : Prop :=
  ∀ msg, (s.logs p)[o]? = some msg → Handled cfg s (p, o) msg

/-- The committed offsets pass handled messages only. -/
def NoneLost (cfg : Config) (s : State) : Prop := Offsets.Passed (Done cfg s) s.committed

/-- The tasks of the batch that `Consume` is building. -/
def Process.batch (k : Process) : List TaskMessage :=
  match k.stage with
  | .fetching _ tasks => tasks
  | _ => []

/-- An invalid message is fetched only while the batch holds no task of its
partition. -/
def RejectsAlone (cfg : Config) (s : State) : Action → Prop
  | .fetch p => ∀ k ∈ s.process, ∀ msg ∈ (s.logs p)[k.position p]?,
      (cfg.decode msg.value).isOk = false → ∀ t ∈ k.batch, t.fetched.partition ≠ p
  | _ => True

instance (cfg : Config) (s : State) : (a : Action) → Decidable (RejectsAlone cfg s a)
  | .fetch p => inferInstanceAs (Decidable (∀ k ∈ s.process, ∀ msg ∈ (s.logs p)[k.position p]?, _))
  | .publish _ _ | .start | .fetchTimeout | .writeDLQ _ | .commitDLQ | .produce _ _ _ | .ack
  | .batchDone | .fail => .isTrue trivial

end FileDelivery.Worker.Kafka
