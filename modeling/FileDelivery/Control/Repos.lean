import FileDelivery.Control.Messages
import Mathlib.Data.List.Sort

namespace FileDelivery.Control
open FileDelivery.Library

/-- The optional tenant filter that the repositories put on their queries. -/
def tenantAllows (tenant_id : Option String) (owner : String) : Bool :=
  match tenant_id with
  | none => true
  | some t => t == owner

namespace TaskRepo

def get (db : Db) (task_id : Nat) (tenant_id : Option String) : Option Task :=
  (Rows.find? db.tasks task_id).filter (fun t => tenantAllows tenant_id t.owner_tenant_id)

def get_by_idempotency_key (db : Db) (key : String) (tenant_id : Option String) : Option Task :=
  db.tasks.find? (fun t => t.idempotency_key == key && tenantAllows tenant_id t.owner_tenant_id)

/-- Absent timestamps leave the column as it is. -/
def update_status (db : Db) (task_id : Nat) (status : TaskStatus) (tenant_id : Option String)
    (confirmed_at finished_at : Option Time) : Db :=
  match get db task_id tenant_id with
  | none => db
  | some _ => { db with tasks := Rows.update db.tasks task_id (fun t =>
      { t with status := status,
               confirmed_at := confirmed_at.or t.confirmed_at,
               finished_at := finished_at.or t.finished_at }) }

end TaskRepo

namespace EventRepo

def append (db : Db) (task_id : Nat) (payload : EventPayload) : Db :=
  { db with events := db.events ++ [⟨db.next_id, task_id, payload, db.now⟩],
            next_id := db.next_id + 1 }

end EventRepo

namespace ItemRepo

/-- The row that a task's owner is looked up in for the tenant filter on items. -/
def ownerAllows (db : Db) (tenant_id : Option String) (task_id : Nat) : Bool :=
  match tenant_id with
  | none => true
  | some t => db.tasks.any (fun task => task.id == task_id && t == task.owner_tenant_id)

/-- Give consecutive primary keys to new rows. -/
def assignIds (next : Nat) : List TaskItem → List TaskItem
  | [] => []
  | item :: rest => { item with id := next } :: assignIds (next + 1) rest

/-- `none` where the unique constraint on (task_id, src_path) rejects the flush. -/
def bulk_insert (db : Db) (task_id : Nat) (items : List TaskItem) : Option Db :=
  let rows := (assignIds db.next_id items).map (fun i => { i with task_id := task_id })
  let paths := (db.items.filter (·.task_id == task_id)).map TaskItem.src_path
  if (paths ++ rows.map TaskItem.src_path).Nodup then
    some { db with items := db.items ++ rows, next_id := db.next_id + items.length }
  else none

/-- ORDER BY src_path, id. -/
def rowOrder (a b : TaskItem) : Prop :=
  a.src_path < b.src_path ∨ (a.src_path = b.src_path ∧ a.id ≤ b.id)

instance : DecidableRel rowOrder := fun _ _ => inferInstanceAs (Decidable (_ ∨ _))

def list_by_task (db : Db) (task_id : Nat) (tenant_id : Option String) : List TaskItem :=
  (db.items.filter (fun i => i.task_id == task_id && ownerAllows db tenant_id task_id)).insertionSort
    rowOrder

/-- The row that `update_upload_status` selects. -/
def select (db : Db) (item_id : Nat) (task_id : Option Nat) (tenant_id : Option String) :
    Option TaskItem :=
  (Rows.find? db.items item_id).filter (fun i =>
    (task_id.isNone || task_id == some i.task_id) && ownerAllows db tenant_id i.task_id)

/-- The assignment to the three upload columns. -/
def setUpload (status : UploadStatus) (upload_error : String) (uploaded_at : Option Time)
    (item : TaskItem) : TaskItem :=
  { item with upload_status := status, upload_error := upload_error, uploaded_at := uploaded_at }

def update_upload_status (db : Db) (item_id : Nat) (status : UploadStatus)
    (task_id : Option Nat) (tenant_id : Option String) (upload_error : String)
    (uploaded_at : Option Time) : Db × Option TaskItem :=
  match select db item_id task_id tenant_id with
  | none => (db, none)
  | some item =>
    ({ db with items := Rows.update db.items item_id (setUpload status upload_error uploaded_at) },
      some (setUpload status upload_error uploaded_at item))

/-- The rows that `batch_reset_failed` updates. -/
def resettable (db : Db) (task_id : Nat) (tenant_id : Option String) (item : TaskItem) : Bool :=
  item.task_id == task_id && item.upload_status == .failed && ownerAllows db tenant_id task_id

def batch_reset_failed (db : Db) (task_id : Nat) (tenant_id : Option String) : Db × Nat :=
  ({ db with items := db.items.map (fun i =>
      if resettable db task_id tenant_id i then setUpload .pending "" none i else i) },
    (db.items.filter (resettable db task_id tenant_id)).length)

@[simp] theorem core_setUpload (i : TaskItem) : (setUpload st e at' i).core = i.core := rfl
@[simp] theorem setUpload_status (i : TaskItem) : (setUpload st e at' i).upload_status = st := rfl
@[simp] theorem setUpload_uploaded_at (i : TaskItem) :
    (setUpload st e at' i).uploaded_at = at' := rfl

end ItemRepo

/-- What an upload receipt tells about one item. -/
structure WorkspaceObjectWriteResult where
  workspace_object : WorkspaceObject
  physical_object : PhysicalObject
  workspace : Workspace
  created : Bool
  deriving DecidableEq, Repr

namespace WorkspaceRepo

def get_workspace_by_target_key (db : Db) (owner_tenant_id : String) (target_key : Text) :
    Option Workspace :=
  db.workspaces.find? (fun w => w.owner_tenant_id == owner_tenant_id && w.target_key == target_key)

/-- The inner joins drop an object whose physical object or workspace is missing. -/
def get_object_by_task_item (db : Db) (task_item_id : Nat) :
    Option (WorkspaceObject × PhysicalObject × Workspace) :=
  (db.workspace_objects.filter (·.task_item_id == task_item_id)).findSome? (fun w =>
    (Rows.find? db.physical_objects w.physical_object_id).bind (fun p =>
      (db.workspaces.find? (·.id == w.workspace_id)).map (fun ws => (w, p, ws))))

/-- The physical object that a receipt under `key` describes. -/
def physicalRow (db : Db) (task : Task) (item : TaskItem) (result_item : DeliveryResultItemSpec)
    (bucket_name key : Text) : PhysicalObject where
  id := db.next_id
  owner_tenant_id := task.owner_tenant_id
  sink_type := "s3"
  bucket := bucket_name
  object_key := key
  size_bytes := (result_item.size.filter (· ≠ 0)).getD item.file_size
  sha256 := result_item.sha256.getD ""
  created_at := db.now

def objectRow (db : Db) (task : Task) (item : TaskItem) (workspace : Workspace) (key : Text)
    (uploaded_at : Option Time) : WorkspaceObject where
  id := db.next_id + 1
  workspace_id := workspace.id
  physical_object_id := db.next_id
  task_id := task.id
  task_item_id := item.id
  display_name := item.filename
  dst_path := if item.dst_path = [] then key else item.dst_path
  uploaded_by_user_id := some task.owner_user_id
  uploaded_at := (uploaded_at.or item.uploaded_at).getD db.now

/-- `none` where the item cannot map to a workspace or the receipt has no key. -/
def record_uploaded_item (db : Db) (task : Task) (item : TaskItem)
    (result_item : DeliveryResultItemSpec) (bucket_name : Text) (uploaded_at : Option Time) :
    Db × Option WorkspaceObjectWriteResult :=
  match result_item.key.filter (· ≠ []) with
  | none => (db, none)
  | some key =>
    match get_object_by_task_item db item.id with
    | some (w, p, ws) => (db, some ⟨w, p, ws, false⟩)
    | none =>
      if strip item.target_name_matched = [] then (db, none)
      else match get_workspace_by_target_key db task.owner_tenant_id
          (strip item.target_name_matched) with
        | none => (db, none)
        | some workspace =>
          let physical := physicalRow db task item result_item bucket_name key
          let object := objectRow db task item workspace key uploaded_at
          ({ db with physical_objects := db.physical_objects ++ [physical],
                     workspace_objects := db.workspace_objects ++ [object],
                     next_id := db.next_id + 2 },
            some ⟨object, physical, workspace, true⟩)

end WorkspaceRepo
end FileDelivery.Control
