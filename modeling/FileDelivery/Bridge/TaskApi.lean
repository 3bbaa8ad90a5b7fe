import FileDelivery.Bridge.UploadTask
import FileDelivery.Control.Auth
import FileDelivery.Control.TaskViews

namespace FileDelivery.Bridge.TaskApi
open FileDelivery.Control FileDelivery.Bridge.UploadTask

/-- What the handlers are run with. -/
structure Env where
  cfg : Config
  auth : AuthSettings
  classification_profile_path : String
  /-- The profile at the path, if there is a file. -/
  profile : Option ProfileConfig

inductive Request where
  /-- `uuid` is what `uuid4` gives this request. -/
  | create_task (idempotency_key : Option String) (uuid : String) (files : List (Text × Bytes))
      (submission_label : Option Text)
  | classify_task (task_id : Nat)
  | preview_task (task_id : Nat)
  | confirm_task (task_id : Nat)
  /-- With a failure or a cancellation on the way, or without. -/
  | upload_task (task_id : Nat) (failure : Option Failure)
  | retry_task (task_id : Nat)
  | get_task (task_id : Nat)
  | list_tasks (limit offset : Nat)
  deriving DecidableEq, Repr

inductive Body where
  | status (status_code task_id : Nat) (status : TaskStatus)
  | classified (task_id : Nat) (summary : Option ClassifySummary)
  | retried (task_id reset_count : Nat) (status : TaskStatus)
  | task (task : Tasks.TaskDict)
  | preview (task_id : Nat) (summary : Option ClassifySummary) (items : List Tasks.ItemDict)
  | tasks (tasks : List Tasks.TaskDict) (limit offset : Nat)
  deriving DecidableEq, Repr

/-- An exception that is no `HTTPException` becomes a 500; a cancelled request has no response. -/
abbrev Reply := Except Raised Body

def setDb (w : World) (db : Db) : World := { w with base := { w.base with db := db } }

/-- The response of a handler that changes nothing. -/
def reads (w : World) (response : Except HTTPException Body) : Reply × World :=
  (response.mapError .http, w)

/-- The response of a handler that commits at its end. -/
def writes (w : World) (response : Except HTTPException (Body × Db)) : Reply × World :=
  match response with
  | .ok (body, db) => (.ok body, setDb w db)
  | .error e => (.error (.http e), w)

def create_task (env : Env) (w : World) (actor : CurrentActor) (key : String)
    (files : List (Text × Bytes)) (submission_label : Option Text) : Reply × World :=
  match Tasks.create_task env.cfg.py env.cfg.settings w.base.db actor key files submission_label with
  | .error e => (.error (.http e), w)
  | .ok (.existing task) => (.ok (.status 200 task.id task.status), w)
  | .ok (.created db task_id dir) =>
    (.ok (.status 201 task_id .draft), { w with base := { w.base with
      db := db
      dirs := Function.update w.base.dirs (env.cfg.settings.task_dir_base ++ ['/'] ++ idText task_id)
        (some dir) } })

def summaryOf (db : Db) (task_id : Nat) : Option ClassifySummary :=
  (TaskRepo.get db task_id none).bind (·.summary_json)

def classify_task (env : Env) (w : World) (actor : CurrentActor) (task_id : Nat) : Reply × World :=
  writes w ((Tasks.readTask w.base.db actor task_id).bind (fun task =>
    match w.base.dirs task.temp_dir with
    | none => .error ⟨422, "original.zip not found in task temp_dir"⟩
    | some dir =>
      match env.profile with
      | none => .error ⟨500, "Profile not found: " ++ env.classification_profile_path⟩
      | some profile =>
        (Tasks.classify_task env.cfg.py profile dir w.base.db actor task_id).map (fun db =>
          (.classified task_id (summaryOf db task_id), db))))

def confirm_task (w : World) (actor : CurrentActor) (task_id : Nat) : Reply × World :=
  writes w ((Tasks.confirm_check w.base.db actor task_id).map (fun _ =>
    (.status 200 task_id .confirmed, Tasks.confirm_write w.base.db actor task_id)))

def retry_task (w : World) (actor : CurrentActor) (task_id : Nat) : Reply × World :=
  writes w ((Tasks.readTask w.base.db actor task_id).map (fun task =>
    let reset_count := (ItemRepo.batch_reset_failed w.base.db task_id (some actor.tenant_id)).2
    let status := if 0 < reset_count ∧ (task.status = .failed ∨ task.status = .partial_failed)
      then .confirmed else task.status
    (.retried task_id reset_count status, Tasks.retry_write w.base.db actor task)))

def upload_task (env : Env) (w : World) (actor : CurrentActor) (task_id : Nat)
    (failure : Option Failure) : Reply × World :=
  match UploadTask.upload_task env.cfg actor task_id failure (start w) with
  | (.ok (task_id, status), r) => (.ok (.status 200 task_id status), r.world)
  | (.error e, r) => (.error e, r.world)

/-- The handlers of the task routes, one request at a time. -/
def handle (env : Env) (w : World) (actor : CurrentActor) : Request → Reply × World
  | .create_task idempotency_key uuid files submission_label =>
    create_task env w actor ((idempotency_key.filter (· ≠ "")).getD uuid) files submission_label
  | .classify_task task_id => classify_task env w actor task_id
  | .preview_task task_id => reads w ((Tasks.preview_task w.base.db actor task_id).map (fun preview =>
      .preview task_id preview.1 preview.2))
  | .confirm_task task_id => confirm_task w actor task_id
  | .upload_task task_id failure => upload_task env w actor task_id failure
  | .retry_task task_id => retry_task w actor task_id
  | .get_task task_id => reads w ((Tasks.get_task w.base.db actor task_id).map .task)
  | .list_tasks limit offset => reads w (.ok (.tasks (Tasks.list_tasks w.base.db actor limit offset)
      limit offset))

inductive Action where
  | request (headers : Auth.Headers) (request : Request)
  /-- The result consumer applies a message. -/
  | deliver (message : DeliveryResultMessage)
  | workspace (name owner_tenant_id target_tenant_id : String) (target_key : Text)

/-- An action, with the keys and the tokens drawn for it and the time of the clock. Random keys are
unused ones. -/
structure Event where
  id : Nat
  token : Nat
  now : Time
  action : Action

/-- The world as the event finds it. -/
def arrive (w : World) (e : Event) : World :=
  { w with base := { w.base with
    db := { w.base.db with next_id := e.id, now := e.now }, next_request := e.token } }

def serve (env : Env) (w : World) (headers : Auth.Headers) (request : Request) : Reply × World :=
  match Auth.resolve_current_actor env.cfg.py headers env.auth with
  | .error e => (.error (.http e), w)
  | .ok actor => handle env w actor request

def perform (env : Env) (w : World) : Action → Option Reply × World
  | .request headers request => (some (serve env w headers request).1, (serve env w headers request).2)
  | .deliver message =>
    (none, setDb w (apply_delivery_result env.cfg.settings.s3_bucket_name w.base.db message).1)
  | .workspace name owner target key =>
    (none, setDb w { w.base.db with
      workspaces := w.base.db.workspaces ++
        [⟨w.base.db.next_id, name, owner, target, key, w.base.db.now⟩]
      next_id := w.base.db.next_id + 1 })

def step (env : Env) (w : World) (e : Event) : Option (World × Option Reply) :=
  if w.base.db.next_id ≤ e.id ∧ w.base.next_request ≤ e.token ∧ w.base.db.now ≤ e.now then
    some ((perform env (arrive w e) e.action).2, (perform env (arrive w e) e.action).1)
  else none

/-- The tenant that acts, or whose task a result is about. -/
def tenantOf (env : Env) (w : World) : Action → Option String
  | .request headers _ =>
    match Auth.resolve_current_actor env.cfg.py headers env.auth with
    | .ok actor => some actor.tenant_id
    | .error _ => none
  | .deliver message => (TaskRepo.get w.base.db message.task_id none).map (·.owner_tenant_id)
  | .workspace _ owner _ _ => some owner

def initial : World := ⟨Bridge.initial, fun _ => none, []⟩

end FileDelivery.Bridge.TaskApi
