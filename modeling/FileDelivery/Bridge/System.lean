import FileDelivery.Bridge.Wire
import FileDelivery.Control.Delivery
import FileDelivery.Control.Tasks
import FileDelivery.Worker.Source

namespace FileDelivery.Bridge
open FileDelivery.Library FileDelivery.Control

/-- The deployment: control plane and workers, one sink, one staging bucket. -/
structure Config where
  py : Python
  settings : Settings
  /-- The workers read archives from the staging bucket, not files below `temp_dir`. -/
  archive_resolver : Bool
  /-- `sha256` of the uploaded bytes, in hex. -/
  sha256 : Bytes → String
  /-- The error with which the object store refuses an object, if it does: S3 has no empty keys, and
  the mock sink takes everything. -/
  refuses : Text → Bytes → Option String

/-- Where an upload request is between two of its awaits. -/
inductive UploadStage where
  /-- The status was read and found `confirmed`. -/
  | checked
  | claimed
  | listed (items : List TaskItem)
  /-- The archive is stored; its event is not committed yet. -/
  | staged (items : List TaskItem) (source : SourceRef)
  | ready (items : List TaskItem) (source : Option SourceRef)
  | published (message : DeliveryTaskMessage)
  /-- `queued` is written in a transaction that is still open. -/
  | written (message : DeliveryTaskMessage)
  /-- In the `except` branch, with the staged archive still to be deleted. -/
  | compensating (source : SourceRef)
  | deleted (source : SourceRef)
  /-- In the `finally` branch, with the claim still to be released. -/
  | releasing
  deriving DecidableEq, Repr

structure UploadRequest where
  rid : Nat
  actor : CurrentActor
  /-- The row as it was read. -/
  task : Task
  stage : UploadStage
  deriving DecidableEq, Repr

inductive WriteKind where
  | confirm | retry
  deriving DecidableEq, Repr

/-- A confirm or retry request between its read and its write. -/
structure WriteRequest where
  rid : Nat
  kind : WriteKind
  actor : CurrentActor
  task : Task
  deriving DecidableEq, Repr

/-- A worker's run of the message at index `mid` of the topic. -/
structure WorkerRun where
  wid : Nat
  mid : Nat
  worker : Nat
  task : Worker.DeliveryTask
  /-- `itemResults`; a slot is filled when its goroutine ends. -/
  slots : List (Option Worker.DeliveryResultItem)
  started : Time
  produced : Bool
  deriving DecidableEq, Repr

/-- A result on the results topic, with the index of the message it is for. -/
structure Produced where
  mid : Nat
  message : DeliveryResultMessage
  deriving DecidableEq, Repr

/-- A cleanup job between its read and its commit. -/
structure Cleanup where
  cid : Nat
  bucket_name : Option Text
  candidates : List TaskEvent
  deleted_keys : List (Text × Text)
  events : List (Nat × EventPayload)
  deriving DecidableEq, Repr

/-- What the history of a task is judged by. -/
inductive Mark where
  | published (task_id : Nat)
  /-- A status that was not `confirmed` became so. -/
  | confirmed (task_id : Nat)
  deriving DecidableEq, Repr

instance : Rows.Row UploadRequest := ⟨UploadRequest.rid⟩
instance : Rows.Row WriteRequest := ⟨WriteRequest.rid⟩
instance : Rows.Row WorkerRun := ⟨WorkerRun.wid⟩
instance : Rows.Row Cleanup := ⟨Cleanup.cid⟩

@[simp] theorem upload_key (r : UploadRequest) : Rows.Row.key r = r.rid := rfl
@[simp] theorem write_key (r : WriteRequest) : Rows.Row.key r = r.rid := rfl
@[simp] theorem run_key (r : WorkerRun) : Rows.Row.key r = r.wid := rfl
@[simp] theorem cleanup_key (c : Cleanup) : Rows.Row.key c = c.cid := rfl

structure State where
  db : Db
  /-- Task directories, by `temp_dir`. -/
  dirs : Text → Option TaskDir
  staging : Objects Archive
  sink : Objects Bytes
  caches : Nat → Worker.Source.Cache
  claims : IdempotencyGuard.Store
  messages : List DeliveryTaskMessage
  /-- Messages that some worker has processed and acked. -/
  acked : List Nat
  results : List Produced
  /-- Results that have been applied, by their index. -/
  applied : List Nat
  uploads : List UploadRequest
  writes : List WriteRequest
  runs : List WorkerRun
  cleanups : List Cleanup
  trace : List Mark
  next_request : Nat

/-- Why the upload of an item fails. -/
inductive ItemFault where
  | source (error : String)
  | limiter (error : String)
  /-- The sink reports an error, with or without having stored the object. -/
  | sink (error : String) (stored : Bool)
  deriving DecidableEq, Repr

inductive UploadAction where
  | acquire
  | list
  /-- With `raised` the archive is stored and the call raises after it. -/
  | stage (raised : Bool)
  | record
  | publish
  /-- The publish raises, with or without the message having got out. -/
  | publishRaises (sent : Bool)
  | write
  | commit
  | raise
  | delete
  | recordDelete
  | release
  | crash
  deriving DecidableEq, Repr

inductive WorkerAction where
  | start (mid worker : Nat)
  | item (wid index : Nat) (fault : Option ItemFault)
  | produce (wid : Nat)
  | ack (wid : Nat)
  | crash (wid : Nat)
  deriving DecidableEq, Repr

inductive CleanupAction where
  | read (retention : Time) (bucket_name : Option Text)
  /-- The next candidate, with the outcome of its delete call. -/
  | delete (cid : Nat) (ok : Bool)
  | commit (cid : Nat)
  | crash (cid : Nat)
  deriving DecidableEq, Repr

inductive Action where
  | create (actor : CurrentActor) (key : String) (uploads : List (Text × Bytes))
      (submission_label : Option Text)
  | classify (actor : CurrentActor) (task_id : Nat) (profile : ProfileConfig)
  | read (kind : WriteKind) (actor : CurrentActor) (task_id : Nat)
  | write (rid : Nat)
  | uploadRead (actor : CurrentActor) (task_id : Nat)
  | upload (rid : Nat) (action : UploadAction)
  | worker (action : WorkerAction)
  | apply (pid : Nat)
  | cleanup (action : CleanupAction)
  /-- A workspace is set up for a target. -/
  | workspace (name owner_tenant_id target_tenant_id : String) (target_key : Text)
  /-- A claim reaches its time to live. -/
  | expire (key : Text)
  | tick

def initial : State where
  db := ⟨[], [], [], [], [], [], 0, 0⟩
  dirs := fun _ => none
  staging := fun _ => none
  sink := fun _ => none
  caches := fun _ _ => none
  claims := fun _ => none
  messages := []
  acked := []
  results := []
  applied := []
  uploads := []
  writes := []
  runs := []
  cleanups := []
  trace := []
  next_request := 0

/-- A request that fails has no step of its own. What it may leave, written before its transaction is
rolled back, is a directory that no task refers to. -/
def create (cfg : Config) (s : State) (actor : CurrentActor) (key : String)
    (uploads : List (Text × Bytes)) (submission_label : Option Text) : Option State :=
  match Tasks.create_task cfg.py cfg.settings s.db actor key uploads submission_label with
  | .ok (.created db task_id dir) =>
    some { s with
      db := db
      dirs := Function.update s.dirs (cfg.settings.task_dir_base ++ ['/'] ++ idText task_id)
        (some dir) }
  | _ => none

def classify (cfg : Config) (s : State) (actor : CurrentActor) (task_id : Nat)
    (profile : ProfileConfig) : Option State :=
  match TaskRepo.get s.db task_id (some actor.tenant_id) with
  | none => none
  | some task =>
    match s.dirs task.temp_dir with
    | none => none
    | some dir =>
      match Tasks.classify_task cfg.py profile dir s.db actor task_id with
      | .ok db => some { s with db := db }
      | .error _ => none

def readForWrite (s : State) (kind : WriteKind) (actor : CurrentActor) (task_id : Nat) :
    Option State :=
  let checked := match kind with
    | .confirm => Tasks.confirm_check s.db actor task_id
    | .retry => Tasks.readTask s.db actor task_id
  match checked with
  | .error _ => none
  | .ok task =>
    some { s with
      writes := s.writes ++ [⟨s.next_request, kind, actor, task⟩]
      next_request := s.next_request + 1 }

/-- The status that a database shows for a task. -/
def statusOf (db : Db) (task_id : Nat) : Option TaskStatus :=
  (Rows.find? db.tasks task_id).map (·.status)

/-- Record a change to `confirmed`. -/
def markConfirmed (before after : Db) (task_id : Nat) (trace : List Mark) : List Mark :=
  if statusOf before task_id ≠ some .confirmed ∧ statusOf after task_id = some .confirmed
  then .confirmed task_id :: trace else trace

def writeDb (db : Db) (r : WriteRequest) : Db :=
  match r.kind with
  | .confirm => Tasks.confirm_write db r.actor r.task.id
  | .retry => Tasks.retry_write db r.actor r.task

def write (s : State) (rid : Nat) : Option State :=
  (Rows.find? s.writes rid).map (fun r =>
    { s with
      db := writeDb s.db r
      writes := Rows.erase s.writes rid
      trace := markConfirmed s.db (writeDb s.db r) r.task.id s.trace })

def uploadRead (s : State) (actor : CurrentActor) (task_id : Nat) : Option State :=
  match Tasks.upload_check s.db actor task_id with
  | .error _ => none
  | .ok task =>
    some { s with
      uploads := s.uploads ++ [⟨s.next_request, actor, task, .checked⟩]
      next_request := s.next_request + 1 }

/-- The claim key of a request. -/
def UploadRequest.key (r : UploadRequest) : Text := Tasks.upload_key r.actor r.task.id

/-- The message that a request publishes. -/
def UploadRequest.message (cfg : Config) (db : Db) (r : UploadRequest) (items : List TaskItem)
    (source : Option SourceRef) : DeliveryTaskMessage :=
  build_delivery_task_message r.task items cfg.settings.s3_bucket_name source none db.now

def publish (s : State) (message : DeliveryTaskMessage) : State :=
  { s with
    messages := s.messages ++ [message]
    trace := .published message.task_id :: s.trace }

/-- Where an exception takes a request whose claim is granted. -/
def afterException (source : Option SourceRef) : Option UploadStage :=
  match source with
  | some source => some (.compensating source)
  | none => some .releasing

/-- One step of `upload_task` after its status check: the state, and where the request
is then, unless it has ended. -/
def uploadEffect (cfg : Config) (s : State) (r : UploadRequest) :
    UploadStage → UploadAction → Option (State × Option UploadStage)
  | .checked, .acquire =>
    match IdempotencyGuard.acquire cfg.settings.redis_idempotency_enabled s.claims r.key r.rid with
    | some claims => some ({ s with claims := claims }, some .claimed)
    | none => some (s, none)
  | .claimed, .list => some (s, some (.listed (Tasks.upload_items s.db r.actor r.task.id)))
  | .listed items, .stage raised =>
    if cfg.settings.object_source then
      ((s.dirs r.task.temp_dir).bind (·.archive)).map (fun archive =>
        let source := Staging.sourceRef cfg.py cfg.settings.staging_bucket_name r.task.id archive
        ({ s with staging := s.staging.put source.bucket source.key archive },
          some (if raised then .releasing else .staged items source)))
    else some (s, some (.ready items none))
  | .staged items source, .record =>
    some ({ s with db := EventRepo.append s.db r.task.id (.task_staged_source r.actor source) },
      some (.ready items (some source)))
  | .ready items source, .publish =>
    some (publish s (r.message cfg s.db items source),
      some (.published (r.message cfg s.db items source)))
  | .ready items source, .publishRaises sent =>
    some (if sent then publish s (r.message cfg s.db items source) else s, afterException source)
  | .published message, .write => some (s, some (.written message))
  | .written message, .commit =>
    let db := Tasks.queue_write cfg.settings s.db r.actor r.task.id message.items.length
    some ({ s with db := db }, some .releasing)
  | .compensating source, .delete =>
    some ({ s with staging := s.staging.delete source.bucket source.key }, some (.deleted source))
  | .deleted source, .recordDelete =>
    let payload := .task_staged_source_deleted (some r.actor) source.bucket source.key
      "publish_failed" none s.db.now
    some ({ s with db := EventRepo.append s.db r.task.id payload }, some .releasing)
  | .releasing, .release =>
    let claims := IdempotencyGuard.release cfg.settings.redis_idempotency_enabled s.claims r.key r.rid
    some ({ s with claims := claims }, none)
  | .checked, .raise => some (s, none)
  | .claimed, .raise => some (s, some .releasing)
  | .listed _, .raise => some (s, some .releasing)
  | .staged _ source, .raise => some (s, some (.compensating source))
  | .ready _ source, .raise => some (s, afterException source)
  | .published _, .raise => some (s, some .releasing)
  | .written _, .raise => some (s, some .releasing)
  | .compensating _, .raise => some (s, some .releasing)
  | .deleted _, .raise => some (s, some .releasing)
  | .releasing, .raise => some (s, none)
  | _, .crash => some (s, none)
  | _, _ => none

/-- Move a request on, or drop it. -/
def setStage (uploads : List UploadRequest) (rid : Nat) : Option UploadStage → List UploadRequest
  | some stage => Rows.update uploads rid (fun r => { r with stage := stage })
  | none => Rows.erase uploads rid

def upload (cfg : Config) (s : State) (rid : Nat) (action : UploadAction) : Option State :=
  (Rows.find? s.uploads rid).bind (fun r =>
    (uploadEffect cfg s r r.stage action).map (fun (s', stage) =>
      { s' with uploads := setStage s.uploads rid stage }))

/-- The source of an item as its worker resolves it, and the worker's cache then. -/
def resolve (cfg : Config) (s : State) (run : WorkerRun) (item : Worker.DeliveryItem) :
    Except String Bytes × Worker.Source.Cache :=
  if cfg.archive_resolver then
    Worker.Source.resolveArchive (s.caches run.worker) s.staging run.task item
  else (Worker.Source.resolveFile (s.dirs run.task.tempDir) run.task item, s.caches run.worker)

/-- The receipt that the sink returns. -/
def receipt (cfg : Config) (item : Worker.DeliveryItem) (bytes : Bytes) : Worker.Receipt :=
  ⟨item.dstPath, bytes.length, cfg.sha256 bytes⟩

/-- The source as `processItem` sees it, with the injected fault. -/
def resolveFault (resolved : Except String Bytes) : Option ItemFault → Except String Bytes
  | some (.source e) => .error e
  | _ => resolved

def limiterFault : Option ItemFault → Except String Unit
  | some (.limiter e) => .error e
  | _ => .ok ()

def sinkFault (cfg : Config) (item : Worker.DeliveryItem) :
    Option ItemFault → Bytes → Except String Worker.Receipt
  | some (.sink e _), _ => .error e
  | _, bytes =>
    match cfg.refuses item.dstPath bytes with
    | some e => .error ("put s3 object " ++ Worker.Source.quote item.dstPath ++ ": " ++ e)
    | none => .ok (receipt cfg item bytes)

/-- The bytes that an item's upload leaves in the sink, if it gets that far. -/
def stores (cfg : Config) (item : Worker.DeliveryItem) (resolved : Except String Bytes) :
    Option ItemFault → Option Bytes
  | none | some (.sink _ true) =>
    resolved.toOption.filter (fun bytes => (cfg.refuses item.dstPath bytes).isNone)
  | _ => none

/-- One goroutine of the pipeline. -/
def runItem (cfg : Config) (s : State) (run : WorkerRun) (index : Nat)
    (item : Worker.DeliveryItem) (fault : Option ItemFault) : State :=
  let (resolved, cache) := resolve cfg s run item
  let result := Worker.Pipeline.processItem item (resolveFault resolved fault) (limiterFault fault)
    (sinkFault cfg item fault)
  { s with
    caches := Function.update s.caches run.worker cache
    sink := match stores cfg item resolved fault with
      | some bytes => s.sink.put cfg.settings.s3_bucket_name item.dstPath bytes
      | none => s.sink
    runs := Rows.update s.runs run.wid (fun r => { r with slots := r.slots.set index (some result) }) }

/-- The result that a run publishes, once every slot is filled. -/
def WorkerRun.result (run : WorkerRun) (ended : Time) : Option Produced :=
  (run.slots.mapM id).map (fun itemResults =>
    ⟨run.mid, toControl (Worker.processTask run.task itemResults run.started ended)⟩)

def worker (cfg : Config) (s : State) : WorkerAction → Option State
  | .start mid w =>
    s.messages[mid]?.map (fun message =>
      let task := toWorker message
      { s with
        runs := s.runs ++ [⟨s.next_request, mid, w, task,
          (Worker.Pipeline.uploadItems task).map (fun _ => none), s.db.now, false⟩]
        next_request := s.next_request + 1 })
  | .item wid index fault =>
    (Rows.find? s.runs wid).bind (fun run =>
      if run.slots[index]? = some none then
        (Worker.Pipeline.uploadItems run.task)[index]?.map (runItem cfg s run index · fault)
      else none)
  | .produce wid =>
    (Rows.find? s.runs wid).bind (fun run =>
      if run.produced then none
      else (run.result s.db.now).map (fun result =>
        { s with
          results := s.results ++ [result]
          runs := Rows.update s.runs wid (fun r => { r with produced := true }) }))
  | .ack wid =>
    (Rows.find? s.runs wid).bind (fun run =>
      if run.produced then
        some { s with acked := run.mid :: s.acked, runs := Rows.erase s.runs wid }
      else none)
  | .crash wid =>
    (Rows.find? s.runs wid).map (fun run =>
      { s with
        runs := Rows.erase s.runs wid
        caches := Function.update s.caches run.worker (fun _ => none) })

/-- Apply a result, for the first time or again. -/
def apply (cfg : Config) (s : State) (pid : Nat) : Option State :=
  s.results[pid]?.map (fun produced =>
    { s with
      db := (apply_delivery_result cfg.settings.s3_bucket_name s.db produced.message).1
      applied := pid :: s.applied })

/-- The event that cleanup appends for a deleted source. -/
def cleanupEvent (db : Db) (event : TaskEvent) (target : Text × Text) : Nat × EventPayload :=
  (event.task_id, .task_staged_source_deleted none target.1 target.2 "" (some event.id) db.now)

def cleanup (s : State) : CleanupAction → Option State
  | .read retention bucket_name =>
    some { s with
      cleanups := s.cleanups ++ [⟨s.next_request, bucket_name,
        Staging._list_cleanup_candidates s.db retention, Staging._list_deleted_source_keys s.db, []⟩]
      next_request := s.next_request + 1 }
  | .delete cid ok =>
    (Rows.find? s.cleanups cid).bind (fun c =>
      match c.candidates with
      | [] => none
      | event :: rest =>
        match Staging.cleanupTarget c.bucket_name c.deleted_keys event, ok with
        | some target, true =>
          some { s with
            staging := s.staging.delete target.1 target.2
            cleanups := Rows.update s.cleanups cid (fun c => { c with
              candidates := rest, events := c.events ++ [cleanupEvent s.db event target] }) }
        | _, _ =>
          some { s with
            cleanups := Rows.update s.cleanups cid (fun c => { c with candidates := rest }) })
  | .commit cid =>
    (Rows.find? s.cleanups cid).bind (fun c =>
      if c.candidates = [] then
        some { s with
          db := c.events.foldl (fun db e => EventRepo.append db e.1 e.2) s.db
          cleanups := Rows.erase s.cleanups cid }
      else none)
  | .crash cid =>
    (Rows.find? s.cleanups cid).map (fun _ => { s with cleanups := Rows.erase s.cleanups cid })

def step (cfg : Config) (s : State) : Action → Option State
  | .create actor key uploads submission_label => create cfg s actor key uploads submission_label
  | .classify actor task_id profile => classify cfg s actor task_id profile
  | .read kind actor task_id => readForWrite s kind actor task_id
  | .write rid => write s rid
  | .uploadRead actor task_id => uploadRead s actor task_id
  | .upload rid action => upload cfg s rid action
  | .worker action => worker cfg s action
  | .apply pid => apply cfg s pid
  | .cleanup action => cleanup s action
  | .workspace name owner target key =>
    some { s with db := { s.db with
      workspaces := s.db.workspaces ++ [⟨s.db.next_id, name, owner, target, key, s.db.now⟩]
      next_id := s.db.next_id + 1 } }
  | .expire key => some { s with claims := Function.update s.claims key none }
  | .tick => some { s with db := { s.db with now := s.db.now + 1 } }

end FileDelivery.Bridge
