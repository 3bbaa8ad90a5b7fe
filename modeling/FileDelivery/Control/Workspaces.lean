import FileDelivery.Control.FolderUpload
import FileDelivery.Control.Staging

namespace FileDelivery.Control

inductive WorkspaceAccessScope where
  | owner | target
  deriving DecidableEq, Repr

def CurrentActor.is_hq (actor : CurrentActor) : Bool :=
  actor.role == .hq_admin || actor.role == .hq_uploader

def CurrentActor.workspace_access_scope (actor : CurrentActor) : WorkspaceAccessScope :=
  if actor.is_hq then .owner else .target

structure WorkspaceObjectRecord where
  workspace_object : WorkspaceObject
  physical_object : PhysicalObject
  workspace : Workspace
  deriving DecidableEq, Repr

namespace WorkspaceRepo
open FileDelivery.Library

/-- The condition that every scoped query puts on the workspace. -/
def visible (tenant_id : String) (access_scope : WorkspaceAccessScope) (w : Workspace) : Bool :=
  match access_scope with
  | .owner => w.owner_tenant_id == tenant_id
  | .target => w.target_tenant_id == tenant_id

/-- ORDER BY name, id. -/
def nameOrder (a b : Workspace) : Prop := a.name < b.name ∨ (a.name = b.name ∧ a.id ≤ b.id)

instance : DecidableRel nameOrder := fun _ _ => inferInstanceAs (Decidable (_ ∨ _))

def list_workspaces (db : Db) (tenant_id : String) (access_scope : WorkspaceAccessScope) :
    List Workspace :=
  (db.workspaces.filter (visible tenant_id access_scope)).insertionSort nameOrder

def get_workspace (db : Db) (workspace_id : Text) (tenant_id : String)
    (access_scope : WorkspaceAccessScope) : Option Workspace :=
  db.workspaces.find? (fun w => idText w.id == workspace_id && visible tenant_id access_scope w)

/-- The objects with their physical object and their workspace, by inner joins. -/
def joined (db : Db) : List WorkspaceObjectRecord :=
  db.workspace_objects.filterMap (fun o =>
    (Rows.find? db.physical_objects o.physical_object_id).bind (fun p =>
      (db.workspaces.find? (·.id == o.workspace_id)).map (fun w => ⟨o, p, w⟩)))

/-- ORDER BY uploaded_at DESC, id DESC. -/
def recentOrder (a b : WorkspaceObjectRecord) : Prop :=
  b.workspace_object.uploaded_at < a.workspace_object.uploaded_at ∨
    (b.workspace_object.uploaded_at = a.workspace_object.uploaded_at ∧
      b.workspace_object.id ≤ a.workspace_object.id)

instance : DecidableRel recentOrder := fun _ _ => inferInstanceAs (Decidable (_ ∨ _))

/-- The second query does not look at the tenant. -/
def list_objects (db : Db) (workspace_id : Text) (tenant_id : String)
    (access_scope : WorkspaceAccessScope) : Option (List WorkspaceObjectRecord) :=
  (get_workspace db workspace_id tenant_id access_scope).map (fun _ =>
    ((joined db).filter (fun r => idText r.workspace_object.workspace_id == workspace_id)).insertionSort
      recentOrder)

def get_object (db : Db) (object_id : Text) (tenant_id : String)
    (access_scope : WorkspaceAccessScope) : Option WorkspaceObjectRecord :=
  (joined db).find? (fun r =>
    idText r.workspace_object.id == object_id && visible tenant_id access_scope r.workspace)

end WorkspaceRepo

namespace Workspaces

structure WorkspaceDict where
  id : Text
  name : String
  owner_tenant_id : String
  target_tenant_id : String
  target_key : Text
  /-- Here and below the response has the time's `isoformat`. -/
  created_at : Time
  deriving DecidableEq, Repr

structure PhysicalObjectDict where
  id : Text
  sink_type : String
  bucket : Text
  object_key : Text
  size_bytes : Int
  sha256 : String
  deriving DecidableEq, Repr

structure ObjectDict where
  id : Text
  workspace_id : Text
  workspace_name : String
  target_tenant_id : String
  display_name : Text
  dst_path : Text
  task_id : Text
  task_item_id : Text
  uploaded_by_user_id : Option String
  uploaded_at : Time
  physical_object : PhysicalObjectDict
  deriving DecidableEq, Repr

def _workspace_to_dict (w : Workspace) : WorkspaceDict where
  id := idText w.id
  name := w.name
  owner_tenant_id := w.owner_tenant_id
  target_tenant_id := w.target_tenant_id
  target_key := w.target_key
  created_at := w.created_at

def _object_record_to_dict (record : WorkspaceObjectRecord) : ObjectDict where
  id := idText record.workspace_object.id
  workspace_id := idText record.workspace_object.workspace_id
  workspace_name := record.workspace.name
  target_tenant_id := record.workspace.target_tenant_id
  display_name := record.workspace_object.display_name
  dst_path := record.workspace_object.dst_path
  task_id := idText record.workspace_object.task_id
  task_item_id := idText record.workspace_object.task_item_id
  uploaded_by_user_id := record.workspace_object.uploaded_by_user_id
  uploaded_at := record.workspace_object.uploaded_at
  physical_object := {
    id := idText record.physical_object.id
    sink_type := record.physical_object.sink_type
    bucket := record.physical_object.bucket
    object_key := record.physical_object.object_key
    size_bytes := record.physical_object.size_bytes
    sha256 := record.physical_object.sha256 }

inductive Request where
  | list_workspaces
  | list_workspace_objects (workspace_id : Text)
  | get_workspace_object (object_id : Text)
  | create_workspace_object_download_url (object_id : Text)
  deriving DecidableEq, Repr

inductive Body where
  | workspaces (workspaces : List WorkspaceDict)
  | objects (workspace_id : Text) (objects : List ObjectDict)
  | object (object : ObjectDict)
  | url (object_id : Text) (url : String) (expires_in_seconds : Nat)
  deriving DecidableEq, Repr

/-- A response, with the calls of `create_presigned_get_url` and the events committed. -/
structure Outcome where
  response : Except HTTPException Body
  presigned : List (Text × Text × Nat)
  events : List (Nat × EventPayload)

def Outcome.read (response : Except HTTPException Body) : Outcome := ⟨response, [], []⟩

/-- The database after the request. -/
def Outcome.commit (db : Db) (outcome : Outcome) : Db :=
  outcome.events.foldl (fun db e => EventRepo.append db e.1 e.2) db

/-- What the handlers are run with: the signer may raise. -/
structure Env where
  py : Python
  create_presigned_get_url : Text → Text → Nat → Option String
  workspace_download_url_ttl_seconds : Nat

def workspaceNotFound (py : Python) (workspace_id : Text) : HTTPException :=
  ⟨404, "Workspace " ++ py.repr workspace_id ++ " not found"⟩

def objectNotFound (py : Python) (object_id : Text) : HTTPException :=
  ⟨404, "Workspace object " ++ py.repr object_id ++ " not found"⟩

def list_workspaces (db : Db) (actor : CurrentActor) : Outcome :=
  .read (.ok (.workspaces ((WorkspaceRepo.list_workspaces db actor.tenant_id
    actor.workspace_access_scope).map _workspace_to_dict)))

def list_workspace_objects (env : Env) (db : Db) (actor : CurrentActor) (workspace_id : Text) :
    Outcome :=
  match WorkspaceRepo.list_objects db workspace_id actor.tenant_id actor.workspace_access_scope with
  | none => .read (.error (workspaceNotFound env.py workspace_id))
  | some records => .read (.ok (.objects workspace_id (records.map _object_record_to_dict)))

def get_workspace_object (env : Env) (db : Db) (actor : CurrentActor) (object_id : Text) : Outcome :=
  match WorkspaceRepo.get_object db object_id actor.tenant_id actor.workspace_access_scope with
  | none => .read (.error (objectNotFound env.py object_id))
  | some record => .read (.ok (.object (_object_record_to_dict record)))

def create_workspace_object_download_url (env : Env) (db : Db) (actor : CurrentActor)
    (object_id : Text) : Outcome :=
  match WorkspaceRepo.get_object db object_id actor.tenant_id actor.workspace_access_scope with
  | none => .read (.error (objectNotFound env.py object_id))
  | some record =>
    let expires_in := env.workspace_download_url_ttl_seconds
    let physical := record.physical_object
    let call := (physical.bucket, physical.object_key, expires_in)
    match env.create_presigned_get_url physical.bucket physical.object_key expires_in with
    | none => ⟨.error ⟨500, "Internal Server Error"⟩, [call], []⟩
    | some url =>
      ⟨.ok (.url object_id url expires_in), [call],
        [(record.workspace_object.task_id, .workspace_object_download_url_issued actor
          record.workspace.id record.workspace_object.id physical.id expires_in)]⟩

def serve (env : Env) (db : Db) (actor : CurrentActor) : Request → Outcome
  | .list_workspaces => list_workspaces db actor
  | .list_workspace_objects workspace_id => list_workspace_objects env db actor workspace_id
  | .get_workspace_object object_id => get_workspace_object env db actor object_id
  | .create_workspace_object_download_url object_id =>
    create_workspace_object_download_url env db actor object_id

end Workspaces
end FileDelivery.Control
