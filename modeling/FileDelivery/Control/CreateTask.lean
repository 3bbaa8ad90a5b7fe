import FileDelivery.Control.Tasks
import FileDelivery.Library.Commits

namespace FileDelivery.Control.CreateTask
open FileDelivery.Library FileDelivery.Library.Commits

/-- The tables that requests write, as far as they are committed. -/
structure Tables where
  tasks : List (Written Task)
  items : List (Written TaskItem)
  events : List (Written TaskEvent)
  deriving DecidableEq, Repr

structure Response where
  status_code : Nat
  task_id : Nat
  status : TaskStatus
  deriving DecidableEq, Repr

/-- Where a `create_task` is between two of its awaits. Its uncommitted rows are its own. -/
inductive Stage where
  | starting
  | claimed
  /-- No task with the key was found. -/
  | absent
  | prepared (archive : FolderUpload.PreparedArchive)
  /-- The row is flushed, in a transaction that is still open. -/
  | inserted (archive : FolderUpload.PreparedArchive) (task : Task)
  | logged (archive : FolderUpload.PreparedArchive) (task : Task) (event : TaskEvent)
  /-- The files are written and the row knows their directory. -/
  | extracted (task : Task) (event : TaskEvent)
  | committed (task_id : Nat)
  /-- In the `finally` branch, with the response to give unless an exception leads there. -/
  | releasing (response : Option Response)
  | answered (response : Response)
  | failed
  deriving DecidableEq, Repr

def Stage.over : Stage → Bool
  | .answered _ | .failed => true
  | _ => false

/-- Where an exception takes a request: to the `finally` branch once its claim is granted. -/
def raisedTo : Stage → Option Stage
  | .answered _ | .failed => none
  | .starting | .releasing _ => some .failed
  | _ => some (.releasing none)

structure Request where
  rid : Nat
  actor : CurrentActor
  idempotency_key : Option String
  /-- What `uuid4` gives this request. -/
  uuid : String
  files : List (Text × Bytes)
  submission_label : Option Text
  stage : Stage
  /-- Its transaction has been committed. -/
  committed : Bool
  deriving DecidableEq, Repr

instance : Rows.Row Request := ⟨Request.rid⟩

@[simp] theorem request_key (r : Request) : Rows.Row.key r = r.rid := rfl

/-- `idempotency_key or str(uuid.uuid4())`. -/
def Request.key (r : Request) : String := (r.idempotency_key.filter (· ≠ "")).getD r.uuid

/-- The key of the request's claim. -/
def Request.claim (r : Request) : Text :=
  IdempotencyGuard._guard_key "create_task" (r.actor.tenant_id.toList ++ [':'] ++ r.key.toList)

structure State where
  tables : Tables
  /-- Task directories, by `temp_dir`. -/
  dirs : Text → Option TaskDir
  claims : IdempotencyGuard.Store
  requests : List Request
  next_request : Nat
  now : Time

inductive RequestAction where
  | acquire
  | lookup
  | prepare
  /-- The new row gets this primary key. -/
  | insert (id : Nat)
  | log (id : Nat)
  | extract
  | commit
  /-- The commit raises; either it has taken effect or the session rolls back. -/
  | commitRaises (done : Bool)
  | read
  | release
  | raise
  | crash
  deriving DecidableEq, Repr

inductive Action where
  | arrive (actor : CurrentActor) (idempotency_key : Option String) (uuid : String)
      (files : List (Text × Bytes)) (submission_label : Option Text)
  | request (rid : Nat) (action : RequestAction)
  /-- A claim reaches its time to live. -/
  | expire (key : Text)
  | tick

/-- The columns of `uq_task_owner_tenant_idempotency`. -/
def ownerKey (task : Task) : String × String := (task.owner_tenant_id, task.idempotency_key)

/-- `get_by_idempotency_key` sees what is committed. -/
def findKey (tables : Tables) (key tenant_id : String) : Option Task :=
  (tables.tasks.find? (fun w => ownerKey w.row == (tenant_id, key))).map (·.row)

def findTask (tables : Tables) (task_id : Nat) : Option Task :=
  (tables.tasks.find? (fun w => w.row.id == task_id)).map (·.row)

/-- The constraints of the table admit the row. -/
def Accepts (tables : Tables) (task : Task) : Prop :=
  Admits Task.id tables.tasks task ∧ Admits ownerKey tables.tasks task

instance (tables : Tables) (task : Task) : Decidable (Accepts tables task) :=
  inferInstanceAs (Decidable (_ ∧ _))

/-- The row as `TaskRepo.create` adds it. -/
def newTask (r : Request) (label : Text) (id : Nat) (now : Time) : Task where
  id := id
  status := .draft
  idempotency_key := r.key
  owner_tenant_id := r.actor.tenant_id
  owner_user_id := r.actor.user_id
  submission_label := String.ofList label
  temp_dir := []
  summary_json := none
  created_by := r.actor.user_id
  created_at := now
  confirmed_at := none
  finished_at := none

def extractDir (settings : Settings) (task_id : Nat) : Text :=
  settings.task_dir_base ++ ['/'] ++ idText task_id

/-- The tables with a request's rows. -/
def Tables.add (tables : Tables) (rid : Nat) (task : Task) (event : TaskEvent) : Tables :=
  { tables with
    tasks := tables.tasks ++ [⟨some rid, task⟩]
    events := tables.events ++ [⟨some rid, event⟩] }

def respond (status_code : Nat) (task : Task) : Response := ⟨status_code, task.id, task.status⟩

/-- One step of `create_task`: the state, where the request is then, and whether the step has
committed its rows. -/
def requestEffect (py : Python) (settings : Settings) (s : State) (r : Request) :
    Stage → RequestAction → Option (State × Stage × Bool)
  | .starting, .acquire =>
    match IdempotencyGuard.acquire settings.redis_idempotency_enabled s.claims r.claim r.rid with
    | some claims => some ({ s with claims := claims }, .claimed, false)
    | none => some (s, .failed, false)
  | .claimed, .lookup =>
    match findKey s.tables r.key r.actor.tenant_id with
    | some existing => some (s, .releasing (some (respond 200 existing)), false)
    | none => some (s, .absent, false)
  | .absent, .prepare =>
    match FolderUpload._prepare_folder_upload py settings.limits
        (r.files.filter (fun f => f.1 ≠ [])) r.submission_label with
    | .ok archive => some (s, .prepared archive, false)
    | .error _ => some (s, .releasing none, false)
  | .prepared archive, .insert id =>
    let task := newTask r archive.label id s.now
    if Accepts s.tables task then some (s, .inserted archive task, false)
    else some (s, .releasing none, false)
  | .inserted archive task, .log id =>
    let payload := .task_created r.actor (String.ofList archive.label)
    some (s, .logged archive task ⟨id, task.id, payload, s.now⟩, false)
  | .logged archive task event, .extract =>
    match FolderUpload._extract_internal_archive settings.limits archive.archive with
    | .ok files =>
      let dir := extractDir settings task.id
      some ({ s with
          dirs := Function.update s.dirs dir (some (FolderUpload.taskDir py archive.archive files)) },
        .extracted { task with temp_dir := dir } event, false)
    | .error _ => some (s, .releasing none, false)
  -- Rows of others may have been committed since the flush.
  | .extracted task event, .commit =>
    if Accepts s.tables task then
      some ({ s with tables := s.tables.add r.rid task event }, .committed task.id, true)
    else some (s, .releasing none, false)
  | .extracted task event, .commitRaises done =>
    if done ∧ Accepts s.tables task then
      some ({ s with tables := s.tables.add r.rid task event }, .releasing none, true)
    else some (s, .releasing none, false)
  | .committed task_id, .read =>
    some (s, .releasing ((findTask s.tables task_id).map (respond 201)), false)
  | .releasing response, .release =>
    let claims := IdempotencyGuard.release settings.redis_idempotency_enabled s.claims r.claim r.rid
    some ({ s with claims := claims }, (response.map .answered).getD .failed, false)
  | stage, .raise => (raisedTo stage).map (s, ·, false)
  | stage, .crash => if stage.over then none else some (s, .failed, false)
  | _, _ => none

/-- A request's step, from the point of view of all of them. -/
def advance (py : Python) (settings : Settings) (s : State) (rid : Nat) (action : RequestAction) :
    Option State :=
  (Rows.find? s.requests rid).bind (fun r =>
    (requestEffect py settings s r r.stage action).map (fun (next, stage, committed) =>
      { next with
        requests := Rows.update s.requests rid (fun r =>
          { r with stage := stage, committed := r.committed || committed }) }))

/-- A request of an actor that may not write tasks ends where it begins. -/
def step (py : Python) (settings : Settings) (s : State) : Action → Option State
  | .arrive actor idempotency_key uuid files submission_label =>
    if actor.can_write_tasks then
      some { s with
        requests := s.requests ++
          [⟨s.next_request, actor, idempotency_key, uuid, files, submission_label, .starting, false⟩]
        next_request := s.next_request + 1 }
    else none
  | .request rid action => advance py settings s rid action
  | .expire key => some { s with claims := Function.update s.claims key none }
  | .tick => some { s with now := s.now + 1 }

/-- Before the first request: what the tables held already. -/
def initial (tables : Tables) (dirs : Text → Option TaskDir) (claims : IdempotencyGuard.Store)
    (now : Time) : State := ⟨tables, dirs, claims, [], 0, now⟩

end FileDelivery.Control.CreateTask
