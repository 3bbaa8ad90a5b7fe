import FileDelivery.Control.Tasks
import FileDelivery.Library.Paging

namespace FileDelivery.Control
open FileDelivery.Library

namespace TaskRepo

/-- ORDER BY created_at DESC, id DESC. -/
def recentOrder (a b : Task) : Prop :=
  b.created_at < a.created_at ∨ (b.created_at = a.created_at ∧ b.id ≤ a.id)

instance : DecidableRel recentOrder := fun _ _ => inferInstanceAs (Decidable (_ ∨ _))

/-- The rows of the query without its page. -/
def listed (db : Db) (tenant_id : Option String) : List Task :=
  (db.tasks.filter (fun t => tenantAllows tenant_id t.owner_tenant_id)).insertionSort recentOrder

def list (db : Db) (limit offset : Nat) (tenant_id : Option String) : List Task :=
  Paging.window limit offset (listed db tenant_id)

end TaskRepo

namespace Tasks

structure TaskDict where
  task_id : Text
  status : String
  idempotency_key : String
  owner_tenant_id : String
  owner_user_id : String
  submission_label : String
  temp_dir : Text
  summary_json : Option ClassifySummary
  created_by : String
  /-- Here and below the response has the time's `isoformat`. -/
  created_at : Time
  confirmed_at : Option Time
  finished_at : Option Time
  deriving DecidableEq, Repr

def _task_to_dict (task : Task) : TaskDict where
  task_id := idText task.id
  status := task.status.text
  idempotency_key := task.idempotency_key
  owner_tenant_id := task.owner_tenant_id
  owner_user_id := task.owner_user_id
  submission_label := task.submission_label
  temp_dir := task.temp_dir
  summary_json := task.summary_json
  created_by := task.created_by
  created_at := task.created_at
  confirmed_at := task.confirmed_at
  finished_at := task.finished_at

structure ItemDict where
  id : Text
  task_id : Text
  src_path : Text
  filename : Text
  ext : Text
  file_size : Nat
  target_name_raw : Text
  target_name_matched : Text
  document_type : Text
  category_name : Text
  dst_dir : Text
  dst_path : Text
  severity : String
  error_code : String
  error_message : Text
  warning_message : Text
  upload_status : String
  upload_error : String
  uploaded_at : Option Time
  deriving DecidableEq, Repr

def _item_to_dict (item : TaskItem) : ItemDict where
  id := idText item.id
  task_id := idText item.task_id
  src_path := item.src_path
  filename := item.filename
  ext := item.ext
  file_size := item.file_size
  target_name_raw := item.target_name_raw
  target_name_matched := item.target_name_matched
  document_type := item.document_type
  category_name := item.category_name
  dst_dir := item.dst_dir
  dst_path := item.dst_path
  severity := item.severity.text
  error_code := item.error_code
  error_message := item.error_message
  warning_message := item.warning_message
  upload_status := item.upload_status.text
  upload_error := item.upload_error
  uploaded_at := item.uploaded_at

/-- The read of the handlers that any role may call. -/
def findTask (db : Db) (actor : CurrentActor) (task_id : Nat) : Except HTTPException Task :=
  match TaskRepo.get db task_id (some actor.tenant_id) with
  | some task => .ok task
  | none => .error (notFound task_id)

def get_task (db : Db) (actor : CurrentActor) (task_id : Nat) : Except HTTPException TaskDict :=
  (findTask db actor task_id).map _task_to_dict

/-- The summary and the items, in the order of their paths. -/
def preview_task (db : Db) (actor : CurrentActor) (task_id : Nat) :
    Except HTTPException (Option ClassifySummary × List ItemDict) :=
  (findTask db actor task_id).map (fun task =>
    (task.summary_json,
      (ItemRepo.list_by_task db task_id (some actor.tenant_id)).map _item_to_dict))

def list_tasks (db : Db) (actor : CurrentActor) (limit offset : Nat) : List TaskDict :=
  (TaskRepo.list db limit offset (some actor.tenant_id)).map _task_to_dict

end Tasks
end FileDelivery.Control
