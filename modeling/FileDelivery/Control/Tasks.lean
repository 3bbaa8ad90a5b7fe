import FileDelivery.Control.Classifier
import FileDelivery.Control.FolderUpload
import FileDelivery.Control.IdempotencyGuard
import FileDelivery.Control.Messages
import FileDelivery.Control.Staging

namespace FileDelivery.Control
open FileDelivery.Library

inductive Transport where
  | file | kafka
  deriving DecidableEq, Repr

def Transport.name : Transport → String
  | .file => "file"
  | .kafka => "kafka"

structure Settings where
  task_dir_base : Text
  s3_bucket_name : Text
  staging_bucket_name : Text
  delivery_transport : Transport
  /-- `delivery_source_mode` is `"object"`. -/
  object_source : Bool
  redis_idempotency_enabled : Bool
  limits : UploadLimits
  deriving DecidableEq, Repr

namespace Tasks

def notFound (task_id : Nat) : HTTPException :=
  ⟨404, "Task '" ++ toString task_id ++ "' not found"⟩

/-- The error of `require_task_writer`. -/
def notAllowed (actor : CurrentActor) : HTTPException :=
  ⟨403, "Role '" ++ actor.role.text ++ "' is not allowed"⟩

/-- The checks that every handler of a task begins with. -/
def readTask (db : Db) (actor : CurrentActor) (task_id : Nat) : Except HTTPException Task :=
  if actor.can_write_tasks then
    match TaskRepo.get db task_id (some actor.tenant_id) with
    | some task => .ok task
    | none => .error (notFound task_id)
  else .error (notAllowed actor)

inductive CreateOutcome where
  | existing (task : Task)
  | created (db : Db) (task_id : Nat) (dir : TaskDir)

/-- The row of a new draft. -/
def draftTask (settings : Settings) (db : Db) (actor : CurrentActor) (key label : String) : Task where
  id := db.next_id
  status := .draft
  idempotency_key := key
  owner_tenant_id := actor.tenant_id
  owner_user_id := actor.user_id
  submission_label := label
  temp_dir := settings.task_dir_base ++ ['/'] ++ idText db.next_id
  summary_json := none
  created_by := actor.user_id
  created_at := db.now
  confirmed_at := none
  finished_at := none

def create_task (py : Python) (settings : Settings) (db : Db) (actor : CurrentActor)
    (key : String) (uploads : List (Text × Bytes)) (submission_label : Option Text) :
    Except HTTPException CreateOutcome :=
  if actor.can_write_tasks then
    match TaskRepo.get_by_idempotency_key db key (some actor.tenant_id) with
    | some task => .ok (.existing task)
    | none =>
      (FolderUpload._prepare_folder_upload py settings.limits
          (uploads.filter (fun u => u.1 ≠ [])) submission_label).bind (fun prepared =>
        (FolderUpload._extract_internal_archive settings.limits prepared.archive).map (fun files =>
          let label := String.ofList prepared.label
          let task := draftTask settings db actor key label
          let db := { db with tasks := db.tasks ++ [task], next_id := db.next_id + 1 }
          .created (EventRepo.append db task.id (.task_created actor label)) task.id
            (FolderUpload.taskDir py prepared.archive files)))
  else .error (notAllowed actor)

/-- A classified item as a row; the primary key and the task are set on insertion. -/
def itemRow (item : ClassifiedItem) : TaskItem where
  id := 0
  task_id := 0
  src_path := item.src_path
  filename := item.filename
  ext := item.ext
  file_size := item.file_size
  target_name_raw := item.target_name_raw
  target_name_matched := item.target_name_matched.getD []
  document_type := item.document_type
  category_name := item.category_name
  dst_dir := item.dst_dir
  dst_path := item.dst_path
  severity := item.severity
  error_code := item.error_code
  error_message := item.error_message
  warning_message := item.warning_message
  upload_status := .pending
  upload_error := ""
  uploaded_at := none

def setSummary (summary : ClassifySummary) (task : Task) : Task :=
  { task with summary_json := some summary }

/-- Whatever the status of the task; an item that it already has makes the insert fail. -/
def classify_task (py : Python) (profile : ProfileConfig) (dir : TaskDir) (db : Db)
    (actor : CurrentActor) (task_id : Nat) : Except HTTPException Db :=
  (readTask db actor task_id).bind (fun _ =>
    match dir.archive with
    | none => .error ⟨500, "Internal Server Error"⟩
    | some archive =>
      match Classifier.classify_zip py profile archive with
      | none => .error ⟨500, "Internal Server Error"⟩
      | some (items, summary) =>
        match ItemRepo.bulk_insert db task_id (items.map itemRow) with
        | none => .error ⟨500, "Internal Server Error"⟩
        | some db =>
          let db := { db with tasks := Rows.update db.tasks task_id (setSummary summary) }
          let db := TaskRepo.update_status db task_id .classified (some actor.tenant_id) none none
          .ok (EventRepo.append db task_id (.classified actor summary)))

/-- The checks of `confirm_task`. -/
def confirm_check (db : Db) (actor : CurrentActor) (task_id : Nat) : Except HTTPException Task :=
  (readTask db actor task_id).bind (fun task =>
    if task.status ≠ .classified then
      .error ⟨422, "Task must be in 'classified' status to confirm, got '" ++
        task.status.text ++ "'"⟩
    else if task.summary_json.any (·.has_blocking_errors) then
      .error ⟨422, "Task has blocking classification errors"⟩
    else .ok task)

def confirm_write (db : Db) (actor : CurrentActor) (task_id : Nat) : Db :=
  EventRepo.append
    (TaskRepo.update_status db task_id .confirmed (some actor.tenant_id) (some db.now) none)
    task_id (.confirmed actor)

/-- The checks of `upload_task`, made before the claim is taken. -/
def upload_check (db : Db) (actor : CurrentActor) (task_id : Nat) : Except HTTPException Task :=
  (readTask db actor task_id).bind (fun task =>
    if task.status ≠ .confirmed then
      .error ⟨422, "Task must be in 'confirmed' status to upload, got '" ++
        task.status.text ++ "'"⟩
    else .ok task)

/-- The items that an upload request selects. -/
def upload_items (db : Db) (actor : CurrentActor) (task_id : Nat) : List TaskItem :=
  (ItemRepo.list_by_task db task_id (some actor.tenant_id)).filter
    (fun i => i.deliverable && i.upload_status == .pending)

def upload_key (actor : CurrentActor) (task_id : Nat) : Text :=
  IdempotencyGuard._guard_key "upload_task" (actor.tenant_id.toList ++ [':'] ++ idText task_id)

def queue_write (settings : Settings) (db : Db) (actor : CurrentActor) (task_id : Nat)
    (count : Nat) : Db :=
  EventRepo.append
    (TaskRepo.update_status db task_id .queued (some actor.tenant_id) none none)
    task_id (.task_queued actor "delivery.tasks.v1" settings.delivery_transport.name count)

/-- The assignments that `retry_task` makes on the row it has read: unset what was set,
whatever other transactions have written since. -/
def reopen (read : Task) (task : Task) : Task :=
  { task with status := .confirmed,
              finished_at := if read.finished_at.isSome then none else task.finished_at }

/-- `retry_task` after its read of the task; the status it decides by is the one read. -/
def retry_write (db : Db) (actor : CurrentActor) (read : Task) : Db :=
  let reset := ItemRepo.batch_reset_failed db read.id (some actor.tenant_id)
  let db := if reset.2 > 0 ∧ (read.status = .failed ∨ read.status = .partial_failed)
    then { reset.1 with tasks := Rows.update reset.1.tasks read.id (reopen read) }
    else reset.1
  EventRepo.append db read.id (.task_retry_requested actor reset.2)

/-- A retry request that no other transaction comes between. -/
def retry_task (db : Db) (actor : CurrentActor) (task_id : Nat) : Except HTTPException Db :=
  (readTask db actor task_id).map (retry_write db actor)

end Tasks
end FileDelivery.Control
