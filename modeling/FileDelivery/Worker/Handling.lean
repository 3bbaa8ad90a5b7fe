import FileDelivery.Worker.Pipeline

namespace FileDelivery.Worker
open FileDelivery.Control

/-- What stops an item. The transient errors are those of an object store or of Redis
that cannot be reached for the moment, timeouts, and the worker's own shutdown. -/
inductive ErrorClass where
  | missingSource | sinkFailure | transient
  /-- The limiter answers that the window is used up. -/
  | rateLimited
  deriving DecidableEq, Repr

structure Failure where
  errorClass : ErrorClass
  text : String
  deriving DecidableEq, Repr

/-- What resolver, limiter and sink do for one item. -/
structure ItemOutcome where
  resolved : Except Failure Bytes
  beforeUpload : Except Failure Unit
  upload : Bytes → Except Failure Receipt

/-- The class of the error that the item meets, if any: later calls are not made. -/
def ItemOutcome.errorClass (outcome : ItemOutcome) : Option ErrorClass :=
  match outcome.resolved with
  | .error e => some e.errorClass
  | .ok src =>
    match outcome.beforeUpload with
    | .error e => some e.errorClass
    | .ok () =>
      match outcome.upload src with
      | .error e => some e.errorClass
      | .ok _ => none

/-- `err.Error()`, all that `processItem` looks at. -/
def errorText (outcome : Except Failure α) : Except String α := outcome.mapError Failure.text

@[simp] theorem errorText_error (e : Failure) : errorText (α := α) (.error e) = .error e.text := rfl

@[simp] theorem errorText_ok (a : α) : errorText (.ok a) = .ok a := rfl

def ItemOutcome.result (outcome : ItemOutcome) (item : DeliveryItem) : DeliveryResultItem :=
  Pipeline.processItem item (errorText outcome.resolved) (errorText outcome.beforeUpload)
    (fun src => errorText (outcome.upload src))

/-- What becomes of a call to `Produce`. -/
inductive Publication where
  | ok
  /-- It returns an error, with or without the result having got out. -/
  | failed (sent : Bool)
  deriving DecidableEq, Repr

/-- What others notice of a worker. -/
inductive Effect where
  | produce (result : DeliveryResult) (publication : Publication)
  | ack
  deriving DecidableEq, Repr

/-- `itemResults` once every goroutine is done; each fills the slot of its own item. -/
def itemResults (task : DeliveryTask) (outcome : Nat → ItemOutcome) : List DeliveryResultItem :=
  (Pipeline.uploadItems task).mapIdx (fun index item => (outcome index).result item)

/-- The turn of `Run` for one message: an error of `processTask` leaves the loop. -/
def handleTask (task : DeliveryTask) (outcome : Nat → ItemOutcome) (publication : Publication)
    (started ended : Nat) : List Effect :=
  let result := processTask task (itemResults task outcome) started ended
  if publication = .ok then [.produce result publication, .ack] else [.produce result publication]

@[simp] theorem itemResults_length (task : DeliveryTask) (outcome : Nat → ItemOutcome) :
    (itemResults task outcome).length = (Pipeline.uploadItems task).length := by
  simp [itemResults]

/-- Every error makes its item a failed one, whatever its class. -/
theorem result_failed (outcome : ItemOutcome) (item : DeliveryItem) :
    (outcome.result item).status = "failed" ↔ outcome.errorClass ≠ none := by
  unfold ItemOutcome.result ItemOutcome.errorClass Pipeline.processItem
  cases outcome.resolved with
  | error e => simp [Pipeline.failedItem]
  | ok src =>
    cases outcome.beforeUpload with
    | error e => simp [Pipeline.failedItem]
    | ok _ =>
      cases hup : outcome.upload src with
      | error e => simp [hup, Pipeline.failedItem]
      | ok receipt => simp [hup, Pipeline.uploadedItem]

theorem result_itemId (outcome : ItemOutcome) (item : DeliveryItem) :
    (outcome.result item).itemId = item.itemId := Pipeline.processItem_itemId

end FileDelivery.Worker
