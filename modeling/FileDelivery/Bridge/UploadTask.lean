import FileDelivery.Bridge.FileSpool
import FileDelivery.Bridge.System
import FileDelivery.Library.Handlers

namespace FileDelivery.Bridge.UploadTask
open FileDelivery.Library.Handlers FileDelivery.Control

/-- The system, and what the publishers of the two transports have written. -/
structure World where
  base : State
  /-- The JSON files of the outbox, by name. A `.tmp` file left behind is none of them. -/
  outbox : Text → Option DeliveryTaskMessage
  /-- The records of the Kafka topic, each with its key. -/
  topic : List (Text × DeliveryTaskMessage)

/-- One call of `upload_task`. -/
structure Request where
  world : World
  /-- What its session sees, with what it has not committed. -/
  session : Db
  source_ref : Option SourceRef
  /-- The objects that it has put. -/
  staged : List (Text × Text)

def start (w : World) : Request := ⟨w, w.base.db, none, []⟩

inductive Raised where
  | http (error : HTTPException)
  | failed
  /-- `CancelledError` is no `Exception`. -/
  | cancelled
  deriving DecidableEq, Repr

def Raised.isException : Raised → Bool
  | .cancelled => false
  | _ => true

/-- What a commit that raises has done. -/
inductive CommitFault where
  | rolledBack | stillOpen | committed
  deriving DecidableEq, Repr

/-- The calls up to the publish. -/
inductive Point where
  | list
  /-- With or without the archive stored. -/
  | stage (stored : Bool)
  /-- Before or after the insert of the staging event. -/
  | append (inserted : Bool)
  | commit (fault : CommitFault)
  | build
  /-- Without a message published. -/
  | publish
  deriving DecidableEq, Repr

structure Failure where
  point : Point
  cancelled : Bool
  deriving DecidableEq, Repr

def Failure.raised (f : Failure) : Raised := if f.cancelled then .cancelled else .failed

abbrev Upload := Call Request Raised

variable (cfg : Config) (actor : CurrentActor) (task_id : Nat) (failure : Option Failure)

/-- Raise here, where the failure is here. -/
def failAt (point : Point) : Upload Unit := fun r =>
  match failure with
  | some f => if f.point = point then (.error f.raised, r) else (.ok (), r)
  | none => (.ok (), r)

def upload_check : Upload Task :=
  .ofExcept (fun r => (Tasks.upload_check r.world.base.db actor task_id).mapError .http)

def Request.setBase (r : Request) (base : State) : Request :=
  { r with world := { r.world with base := base } }

/-- Each call has a token of its own. -/
def _acquire_idempotency_claim : Upload Nat := fun r =>
  let token := r.world.base.next_request
  let base := { r.world.base with next_request := token + 1 }
  match IdempotencyGuard.acquire cfg.settings.redis_idempotency_enabled base.claims
      (Tasks.upload_key actor task_id) token with
  | some claims => (.ok token, r.setBase { base with claims := claims })
  | none => (.error (.http ⟨409, "upload_task for '" ++ actor.tenant_id ++ ":" ++ toString task_id ++
      "' is already in progress"⟩), r.setBase base)

def _release_idempotency_claim (token : Nat) : Upload Unit :=
  .modify (fun r => r.setBase { r.world.base with
    claims := IdempotencyGuard.release cfg.settings.redis_idempotency_enabled r.world.base.claims
      (Tasks.upload_key actor task_id) token })

def append (payload : EventPayload) : Upload Unit := do
  failAt failure (.append false)
  .modify (fun r => { r with session := EventRepo.append r.session task_id payload })
  failAt failure (.append true)

def rollback (r : Request) : Request := { r with session := r.world.base.db }

def commit : Upload Unit := do
  failAt failure (.commit .stillOpen)
  Call.onError (failAt failure (.commit .rolledBack)) (fun _ => .modify rollback)
  .modify (fun r => r.setBase { r.world.base with db := r.session })
  failAt failure (.commit .committed)

/-- The archive that is read from the task directory. -/
def archiveOf (s : State) (task : Task) : Option Archive := (s.dirs task.temp_dir).bind (·.archive)

def Request.put (r : Request) (source : SourceRef) (archive : Archive) : Request where
  world := { r.world with base := { r.world.base with
    staging := r.world.base.staging.put source.bucket source.key archive } }
  session := r.session
  source_ref := r.source_ref
  staged := r.staged ++ [(source.bucket, source.key)]

def stage_task_archive (task : Task) : Upload SourceRef := do
  let archive ← .ofExcept (fun r => (archiveOf r.world.base task).elim (.error .failed) .ok)
  let source := Staging.sourceRef cfg.py cfg.settings.staging_bucket_name task.id archive
  failAt failure (.stage false)
  .modify (·.put source archive)
  failAt failure (.stage true)
  return source

def delete_staged_archive (source : SourceRef) : Upload Unit :=
  .modify (fun r => r.setBase { r.world.base with
    staging := r.world.base.staging.delete source.bucket source.key })

/-- The source of the message, staged and recorded in the `object` mode. -/
def stageSource (task : Task) : Upload Unit :=
  if cfg.settings.object_source then do
    let source ← stage_task_archive cfg failure task
    .modify (fun r => { r with source_ref := some source })
    append task_id failure (.task_staged_source actor source)
    commit failure
  else return ()

/-- The file of a task is replaced; the topic grows. -/
def World.publish (transport : Transport) (w : World) (message : DeliveryTaskMessage) : World :=
  match transport with
  | .file => { w with
      base := Bridge.publish w.base message
      outbox := Function.update w.outbox (FileSpool.messageFile (idText message.task_id))
        (some message) }
  | .kafka => { w with
      base := Bridge.publish w.base message
      topic := w.topic ++ [(idText message.task_id, message)] }

/-- The `try` block with the publish at its end. -/
def stageAndPublish (task : Task) (upload_items : List TaskItem) : Upload DeliveryTaskMessage := do
  stageSource cfg actor task_id failure task
  failAt failure .build
  let message ← .get (fun r => build_delivery_task_message task upload_items
    cfg.settings.s3_bucket_name r.source_ref none r.world.base.db.now)
  failAt failure .publish
  .modify (fun r => { r with world := r.world.publish cfg.settings.delivery_transport message })
  return message

/-- `except Exception`. -/
def compensate (e : Raised) : Upload Unit := do
  if e.isException then
    match ← .get Request.source_ref with
    | some source =>
      delete_staged_archive source
      let now ← .get (·.session.now)
      append task_id none (.task_staged_source_deleted (some actor) source.bucket source.key
        "publish_failed" none now)
      commit none
    | none => return ()

/-- The `try` block that holds the claim. -/
def deliver (task : Task) : Upload (Nat × TaskStatus) := do
  failAt failure .list
  let items ← .get (fun r => Tasks.upload_items r.session actor task_id)
  let message ← (stageAndPublish cfg actor task_id failure task items).onError
    (compensate actor task_id)
  .modify (fun r => { r with
    session := Tasks.queue_write cfg.settings r.session actor task_id message.items.length })
  commit none
  return (task_id, .queued)

/-- `upload_task` with the `go-worker` backend. -/
def upload_task : Upload (Nat × TaskStatus) := do
  let task ← upload_check actor task_id
  let token ← _acquire_idempotency_claim cfg actor task_id
  (deliver cfg actor task_id failure task).andFinally
    (_release_idempotency_claim cfg actor task_id token)

end FileDelivery.Bridge.UploadTask
