import FileDelivery.Library.Rows
import FileDelivery.Control.Text

namespace FileDelivery.Control
open FileDelivery.Library.Rows

abbrev Time := Nat

inductive TaskStatus where
  | draft | classifying | classified | classification_failed | confirmed | queued
  | uploading | partial_failed | uploaded | failed
  /-- A status column holding none of the documented values. -/
  | other (text : String)
  deriving DecidableEq, Repr

/-- The column value that a status text stands for. -/
def TaskStatus.ofString (text : String) : TaskStatus :=
  if text = "draft" then .draft
  else if text = "classifying" then .classifying
  else if text = "classified" then .classified
  else if text = "classification_failed" then .classification_failed
  else if text = "confirmed" then .confirmed
  else if text = "queued" then .queued
  else if text = "uploading" then .uploading
  else if text = "partial_failed" then .partial_failed
  else if text = "uploaded" then .uploaded
  else if text = "failed" then .failed
  else .other text

/-- The column's text. -/
def TaskStatus.text : TaskStatus → String
  | .draft => "draft"
  | .classifying => "classifying"
  | .classified => "classified"
  | .classification_failed => "classification_failed"
  | .confirmed => "confirmed"
  | .queued => "queued"
  | .uploading => "uploading"
  | .partial_failed => "partial_failed"
  | .uploaded => "uploaded"
  | .failed => "failed"
  | .other text => text

inductive Severity where
  | ok | warning | error | ignored
  deriving DecidableEq, Repr

def Severity.text : Severity → String
  | .ok => "ok"
  | .warning => "warning"
  | .error => "error"
  | .ignored => "ignored"

inductive UploadStatus where
  | pending | uploading | uploaded | failed | skipped
  deriving DecidableEq, Repr

def UploadStatus.text : UploadStatus → String
  | .pending => "pending"
  | .uploading => "uploading"
  | .uploaded => "uploaded"
  | .failed => "failed"
  | .skipped => "skipped"

inductive Role where
  | hq_admin | hq_uploader | subsidiary_admin | subsidiary_viewer
  deriving DecidableEq, Repr

def Role.text : Role → String
  | .hq_admin => "hq_admin"
  | .hq_uploader => "hq_uploader"
  | .subsidiary_admin => "subsidiary_admin"
  | .subsidiary_viewer => "subsidiary_viewer"

structure CurrentActor where
  tenant_id : String
  user_id : String
  role : Role
  deriving DecidableEq, Repr

/-- `require_task_writer` succeeds. -/
def CurrentActor.can_write_tasks (actor : CurrentActor) : Bool :=
  actor.role == .hq_admin || actor.role == .hq_uploader

structure ClassifySummary where
  total : Nat
  ok : Nat
  warning : Nat
  error : Nat
  ignored : Nat
  unmatched_targets : Nat
  unmatched_document_types : Nat
  targets_involved : List Text
  has_blocking_errors : Bool
  deriving DecidableEq, Repr

structure Task where
  id : Nat
  status : TaskStatus
  idempotency_key : String
  owner_tenant_id : String
  owner_user_id : String
  submission_label : String
  temp_dir : Text
  /-- `none` is the empty dict that the column starts with. -/
  summary_json : Option ClassifySummary
  created_by : String
  created_at : Time
  confirmed_at : Option Time
  finished_at : Option Time
  deriving DecidableEq, Repr

structure TaskItem where
  id : Nat
  task_id : Nat
  src_path : Text
  filename : Text
  ext : Text
  file_size : Nat
  target_name_raw : Text
  target_name_matched : Text
  document_type : Text
  category_name : Text
  dst_dir : Text
  dst_path : Text
  severity : Severity
  error_code : String
  error_message : Text
  warning_message : Text
  upload_status : UploadStatus
  upload_error : String
  uploaded_at : Option Time
  deriving DecidableEq, Repr

/-- What the classifier fixed about an item; uploads and retries write the rest. -/
def TaskItem.core (item : TaskItem) : TaskItem :=
  { item with upload_status := .pending, upload_error := "", uploaded_at := none }

/-- Severity `ok` or `warning`. -/
def TaskItem.deliverable (item : TaskItem) : Bool :=
  item.severity == .ok || item.severity == .warning

structure SourceRef where
  type : String
  bucket : Text
  key : Text
  sha256 : Option String
  size : Option Nat
  deriving DecidableEq, Repr

/-- Event types together with the payload each of them is appended with. -/
inductive EventPayload where
  | task_created (actor : CurrentActor) (submission_label : String)
  | classified (actor : CurrentActor) (summary : ClassifySummary)
  | confirmed (actor : CurrentActor)
  | task_staged_source (actor : CurrentActor) (source : SourceRef)
  /-- By compensation with a reason, by the cleanup job with the staging event. -/
  | task_staged_source_deleted (actor : Option CurrentActor) (bucket key : Text)
      (reason : String) (source_event_id : Option Nat) (deleted_at : Time)
  | task_queued (actor : CurrentActor) (topic transport : String) (upload_items : Nat)
  | task_upload_requested (actor : CurrentActor)
  | task_retry_requested (actor : CurrentActor) (reset_count : Nat)
  | delivery_result_applied (topic status : String) (uploaded failed processed : Int)
      (applied_items : Nat) (missing_items : List Nat) (workspace_objects_created : Nat)
      (workspace_mapping_missing : List Nat)
  | workspace_mapping_missing (item_ids : List Nat) (reason : String)
  | upload_started
  /-- A run that uploads nothing reports what it skipped, other runs their total. -/
  | task_completed (uploaded failed : Nat) (total skipped : Option Nat)
  | task_failed (error : String)
  | workspace_object_download_url_issued (actor : CurrentActor) (workspace_id workspace_object_id
      physical_object_id expires_in_seconds : Nat)
  deriving DecidableEq, Repr

structure TaskEvent where
  id : Nat
  task_id : Nat
  payload : EventPayload
  created_at : Time
  deriving DecidableEq, Repr

structure Workspace where
  id : Nat
  name : String
  owner_tenant_id : String
  target_tenant_id : String
  target_key : Text
  created_at : Time
  deriving DecidableEq, Repr

structure PhysicalObject where
  id : Nat
  owner_tenant_id : String
  sink_type : String
  bucket : Text
  object_key : Text
  size_bytes : Int
  sha256 : String
  created_at : Time
  deriving DecidableEq, Repr

structure WorkspaceObject where
  id : Nat
  workspace_id : Nat
  physical_object_id : Nat
  task_id : Nat
  task_item_id : Nat
  display_name : Text
  dst_path : Text
  uploaded_by_user_id : Option String
  uploaded_at : Time
  deriving DecidableEq, Repr

/-- The control-plane database. `gen_id` draws random keys and the primary keys
keep them distinct; here every insert takes the next unused number. `now` is the
server clock behind `func.now()` and `datetime.now(UTC)`. -/
structure Db where
  tasks : List Task
  items : List TaskItem
  events : List TaskEvent
  workspaces : List Workspace
  physical_objects : List PhysicalObject
  workspace_objects : List WorkspaceObject
  next_id : Nat
  now : Time
  deriving DecidableEq, Repr

instance : Row Task := ⟨Task.id⟩
instance : Row TaskItem := ⟨TaskItem.id⟩
instance : Row Workspace := ⟨Workspace.id⟩
instance : Row PhysicalObject := ⟨PhysicalObject.id⟩
instance : Row WorkspaceObject := ⟨WorkspaceObject.id⟩

/-- The row that a workspace object's foreign key points to. -/
def Db.physicalOf (db : Db) (w : WorkspaceObject) : Option PhysicalObject :=
  find? db.physical_objects w.physical_object_id

@[simp] theorem task_key (t : Task) : Row.key t = t.id := rfl
@[simp] theorem item_key (i : TaskItem) : Row.key i = i.id := rfl

@[simp] theorem core_id (i : TaskItem) : i.core.id = i.id := rfl
@[simp] theorem core_task_id (i : TaskItem) : i.core.task_id = i.task_id := rfl
@[simp] theorem core_src_path (i : TaskItem) : i.core.src_path = i.src_path := rfl
@[simp] theorem core_dst_path (i : TaskItem) : i.core.dst_path = i.dst_path := rfl
@[simp] theorem core_deliverable (i : TaskItem) : i.core.deliverable = i.deliverable := rfl

/-- Items of one core agree on everything a delivery message carries but the
upload status. -/
theorem core_eq_fields {i j : TaskItem} (h : i.core = j.core) :
    i.id = j.id ∧ i.task_id = j.task_id ∧ i.src_path = j.src_path ∧
      i.dst_path = j.dst_path ∧ i.deliverable = j.deliverable := by
  refine ⟨?_, ?_, ?_, ?_, ?_⟩
  · simpa using congrArg TaskItem.id h
  · simpa using congrArg TaskItem.task_id h
  · simpa using congrArg TaskItem.src_path h
  · simpa using congrArg TaskItem.dst_path h
  · simpa using congrArg TaskItem.deliverable h

end FileDelivery.Control
