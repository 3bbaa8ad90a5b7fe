import FileDelivery.Control.Messages
import FileDelivery.Control.Staging
import FileDelivery.Worker.Pipeline

namespace FileDelivery.Bridge
open FileDelivery.Control

/-- An item spec as the worker decodes it; a null source path is left out. -/
def itemToWorker (spec : DeliveryItemSpec) : Worker.DeliveryItem where
  itemId := idText spec.item_id
  srcPath := spec.src_path
  sourcePath := spec.source_path.getD []
  dstPath := spec.dst_path
  severity := spec.severity.text
  uploadStatus := spec.upload_status.text

def sourceToWorker (source : SourceRef) : Worker.SourceRef where
  type := source.type
  bucket := source.bucket
  key := source.key

/-- A task message as the worker decodes it from the published JSON. -/
def toWorker (message : DeliveryTaskMessage) : Worker.DeliveryTask where
  schemaVersion := message.schema_version
  taskId := idText message.task_id
  tempDir := message.temp_dir
  items := message.items.map itemToWorker
  source := message.source.map sourceToWorker

/-- Zero values are omitted from the JSON and decode to null. -/
def itemToControl (item : Worker.DeliveryResultItem) : DeliveryResultItemSpec where
  item_id := ofIdText item.itemId
  status := item.status
  key := if item.key = [] then none else some item.key
  size := if item.size = 0 then none else some item.size
  sha256 := if item.sha256 = "" then none else some item.sha256
  error := if item.error = "" then none else some item.error

/-- A result as the control plane decodes it from the produced JSON. -/
def toControl (result : Worker.DeliveryResult) : DeliveryResultMessage where
  topic := result.topic
  task_id := ofIdText result.taskId
  status := result.status
  uploaded := result.uploaded
  failed := result.failed
  processed := result.processed
  items := result.items.map itemToControl
  started_at := result.startedAt
  ended_at := result.endedAt
  error := if result.error = "" then none else some result.error

/-- A pending item of severity ok or warning gets a slot in the worker. -/
theorem uploadable_ofItem (source : Option SourceRef) {item : TaskItem}
    (h : item.deliverable = true) (hp : item.upload_status = .pending) :
    Worker.Pipeline.uploadable (itemToWorker (.ofItem source item)) = true := by
  simp only [TaskItem.deliverable, Bool.or_eq_true, beq_iff_eq] at h
  rcases h with h | h
  all_goals
    simp [Worker.Pipeline.uploadable, itemToWorker, DeliveryItemSpec.ofItem, h, hp,
      Severity.text, UploadStatus.text]

end FileDelivery.Bridge
