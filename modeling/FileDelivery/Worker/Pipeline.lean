import FileDelivery.Worker.Message

namespace FileDelivery.Worker
open FileDelivery.Control

/-- What a sink reports about one stored object. -/
structure Receipt where
  key : Text
  size : Nat
  sha256 : String
  deriving DecidableEq, Repr

namespace Pipeline

structure Result where
  uploaded : Nat
  failed : Nat
  items : List DeliveryResultItem
  deriving DecidableEq, Repr

/-- The items of a task that get a slot in the result. -/
def uploadable (item : DeliveryItem) : Bool :=
  item.uploadStatus == "pending" && (item.severity == "ok" || item.severity == "warning")

def uploadItems (task : DeliveryTask) : List DeliveryItem := task.items.filter uploadable

def failedItem (item : DeliveryItem) (error : String) : DeliveryResultItem where
  itemId := item.itemId
  status := "failed"
  key := []
  size := 0
  sha256 := ""
  error := error

def uploadedItem (item : DeliveryItem) (receipt : Receipt) : DeliveryResultItem where
  itemId := item.itemId
  status := "uploaded"
  key := receipt.key
  size := receipt.size
  sha256 := receipt.sha256
  error := ""

/-- The result of one item: resolve the source, pass the limiter, upload. The first
error ends it. -/
def processItem (item : DeliveryItem) (resolved : Except String Bytes)
    (beforeUpload : Except String Unit) (upload : Bytes → Except String Receipt) :
    DeliveryResultItem :=
  match resolved with
  | .error e => failedItem item e
  | .ok src =>
    match beforeUpload with
    | .error e => failedItem item e
    | .ok () =>
      match upload src with
      | .error e => failedItem item e
      | .ok receipt => uploadedItem item receipt

/-- What the workers left in `itemResults`, counted and listed in item order. -/
def collect (itemResults : List DeliveryResultItem) : Result where
  uploaded := itemResults.countP (·.status == "uploaded")
  failed := itemResults.countP (·.status == "failed")
  items := itemResults

/-- The error of a task with failed items. -/
def taskError (task : DeliveryTask) (result : Result) : Option String :=
  if result.failed > 0 then
    some ("task " ++ String.ofList task.taskId ++ " finished with " ++ toString result.failed ++
      " failed items")
  else none

theorem processItem_itemId : (processItem item r b u).itemId = item.itemId := by
  unfold processItem
  split
  · rfl
  · split
    · rfl
    · split <;> rfl

end Pipeline

/-- The result that `processTask` publishes once every item has its slot. -/
def processTask (task : DeliveryTask) (itemResults : List DeliveryResultItem)
    (started ended : Nat) : DeliveryResult :=
  let pipelineResult := Pipeline.collect itemResults
  let err := Pipeline.taskError task pipelineResult
  { topic := "delivery.results.v1"
    taskId := task.taskId
    status := if err.isSome then "partial_failed" else "uploaded"
    uploaded := pipelineResult.uploaded
    failed := pipelineResult.failed
    processed := task.items.length
    items := pipelineResult.items
    startedAt := started
    endedAt := ended
    error := err.getD "" }

theorem processTask_status (task : DeliveryTask) (itemResults : List DeliveryResultItem) :
    ((processTask task itemResults s e).status = "uploaded" ∧
        ∀ r ∈ itemResults, r.status ≠ "failed") ∨
      ((processTask task itemResults s e).status = "partial_failed" ∧
        ∃ r ∈ itemResults, r.status = "failed") := by
  simp only [processTask, Pipeline.taskError, Pipeline.collect]
  by_cases h : 0 < itemResults.countP (·.status == "failed")
  · obtain ⟨r, hr, hs⟩ := List.countP_pos_iff.mp h
    exact .inr ⟨by simp [h], r, hr, by simpa using hs⟩
  · refine .inl ⟨by simp [h], fun r hr hs => h ?_⟩
    exact List.countP_pos_iff.mpr ⟨r, hr, by simpa using hs⟩

@[simp] theorem processTask_items (task : DeliveryTask) (itemResults : List DeliveryResultItem) :
    (processTask task itemResults s e).items = itemResults := rfl

@[simp] theorem processTask_taskId (task : DeliveryTask) (itemResults : List DeliveryResultItem) :
    (processTask task itemResults s e).taskId = task.taskId := rfl

end FileDelivery.Worker
