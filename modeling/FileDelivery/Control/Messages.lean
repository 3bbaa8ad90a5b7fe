import FileDelivery.Control.Models

namespace FileDelivery.Control

/-- One uploadable task item, as the control plane publishes it. -/
structure DeliveryItemSpec where
  item_id : Nat
  src_path : Text
  filename : Text
  ext : Text
  file_size : Nat
  dst_path : Text
  severity : Severity
  target_name_raw : Text
  target_name_matched : Option Text
  document_type : Text
  category_name : Text
  upload_status : UploadStatus
  source_path : Option Text
  deriving DecidableEq, Repr

structure TaskMetadata where
  status : TaskStatus
  created_by : String
  created_at : Time
  confirmed_at : Option Time
  deriving DecidableEq, Repr

structure DeliveryTaskMessage where
  schema_version : Nat
  topic : String
  task_id : Nat
  idempotency_key : String
  submission_label : String
  temp_dir : Text
  bucket_name : Text
  created_at : Time
  items : List DeliveryItemSpec
  source : Option SourceRef
  traceparent : Option String
  metadata : TaskMetadata
  deriving DecidableEq, Repr

/-- One item result as the control plane decodes it; an omitted JSON field is `none`. -/
structure DeliveryResultItemSpec where
  item_id : Nat
  status : String
  key : Option Text
  size : Option Int
  sha256 : Option String
  error : Option String
  deriving DecidableEq, Repr

structure DeliveryResultMessage where
  topic : String
  task_id : Nat
  status : String
  uploaded : Int
  failed : Int
  processed : Int
  items : List DeliveryResultItemSpec
  started_at : Time
  ended_at : Time
  error : Option String
  deriving DecidableEq, Repr

/-- The spec of one item; a staged archive adds the entry name to read there. -/
def DeliveryItemSpec.ofItem (source : Option SourceRef) (item : TaskItem) : DeliveryItemSpec where
  item_id := item.id
  src_path := item.src_path
  filename := item.filename
  ext := item.ext
  file_size := item.file_size
  dst_path := item.dst_path
  severity := item.severity
  target_name_raw := item.target_name_raw
  target_name_matched := if item.target_name_matched = [] then none else some item.target_name_matched
  document_type := item.document_type
  category_name := item.category_name
  upload_status := item.upload_status
  source_path := if source.isSome then some item.src_path else none

/-- `now` is the default of the message's own `created_at`. -/
def build_delivery_task_message (task : Task) (upload_items : List TaskItem)
    (bucket_name : Text) (source : Option SourceRef) (traceparent : Option String)
    (now : Time) : DeliveryTaskMessage where
  schema_version := if source.isSome then 2 else 1
  topic := "delivery.tasks.v1"
  task_id := task.id
  idempotency_key := task.idempotency_key
  submission_label := task.submission_label
  temp_dir := task.temp_dir
  bucket_name := bucket_name
  created_at := now
  items := upload_items.map (.ofItem source)
  source := source
  traceparent := traceparent
  metadata := ⟨task.status, task.created_by, task.created_at, task.confirmed_at⟩

@[simp] theorem built_task_id :
    (build_delivery_task_message t is b src tp now).task_id = t.id := rfl

@[simp] theorem built_source :
    (build_delivery_task_message t is b src tp now).source = src := rfl

@[simp] theorem built_items :
    (build_delivery_task_message t is b src tp now).items = is.map (.ofItem src) := rfl

@[simp] theorem spec_item_id : (DeliveryItemSpec.ofItem src i).item_id = i.id := rfl

end FileDelivery.Control
