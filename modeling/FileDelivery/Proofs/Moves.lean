import FileDelivery.Bridge.System

namespace FileDelivery.Proofs.Moves
open FileDelivery.Library FileDelivery.Control FileDelivery.Bridge

/-- Where an exception takes a request, unless it ends there. -/
def raisedTo : UploadStage → Option UploadStage
  | .checked | .releasing => none
  | .staged _ source => some (.compensating source)
  | .ready _ source => afterException source
  | _ => some .releasing

/-- An exception leads to the end of the request or to the compensation. -/
def Handler : UploadStage → Prop
  | .releasing | .compensating _ => True
  | _ => False

theorem afterException_handler (h : some stage = afterException source) : Handler stage := by
  cases source <;> (cases h; trivial)

theorem raisedTo_handler {old : UploadStage} (h : some stage = raisedTo old) : Handler stage := by
  cases old
  case ready items source => exact afterException_handler h
  all_goals (cases h; try trivial)

/-- The message is out, and `queued` is not committed. -/
def InWindow : UploadStage → Bool
  | .published _ | .written _ => true
  | _ => false

theorem handler_window (h : Handler stage) : InWindow stage = false := by
  cases stage <;> first | exact False.elim h | rfl

/-- What one step of `upload_task` may do. -/
inductive UploadMove (cfg : Config) (s : State) (r : UploadRequest) :
    UploadStage → UploadAction → State → Option UploadStage → Prop
  | acquired (claims) (h : IdempotencyGuard.acquire cfg.settings.redis_idempotency_enabled s.claims
        r.key r.rid = some claims) :
      UploadMove cfg s r .checked .acquire { s with claims := claims } (some .claimed)
  | refused : UploadMove cfg s r .checked .acquire s none
  | listed :
      UploadMove cfg s r .claimed .list s (some (.listed (Tasks.upload_items s.db r.actor r.task.id)))
  | direct (h : cfg.settings.object_source = false) :
      UploadMove cfg s r (.listed items) (.stage raised) s (some (.ready items none))
  | stored (archive source) (h : (s.dirs r.task.temp_dir).bind (·.archive) = some archive)
      (hsource : source = Staging.sourceRef cfg.py cfg.settings.staging_bucket_name r.task.id archive) :
      UploadMove cfg s r (.listed items) (.stage raised)
        { s with staging := s.staging.put source.bucket source.key archive }
        (some (if raised then .releasing else .staged items source))
  | recorded :
      UploadMove cfg s r (.staged items source) .record
        { s with db := EventRepo.append s.db r.task.id (.task_staged_source r.actor source) }
        (some (.ready items (some source)))
  | published :
      UploadMove cfg s r (.ready items source) .publish (publish s (r.message cfg s.db items source))
        (some (.published (r.message cfg s.db items source)))
  | sent :
      UploadMove cfg s r (.ready items source) (.publishRaises true)
        (publish s (r.message cfg s.db items source)) (afterException source)
  | unsent :
      UploadMove cfg s r (.ready items source) (.publishRaises false) s (afterException source)
  | written : UploadMove cfg s r (.published message) .write s (some (.written message))
  | committed :
      UploadMove cfg s r (.written message) .commit
        { s with db := Tasks.queue_write cfg.settings s.db r.actor r.task.id message.items.length }
        (some .releasing)
  | deleted :
      UploadMove cfg s r (.compensating source) .delete
        { s with staging := s.staging.delete source.bucket source.key } (some (.deleted source))
  | reported (payload : EventPayload) :
      UploadMove cfg s r (.deleted source) .recordDelete
        { s with db := EventRepo.append s.db r.task.id payload } (some .releasing)
  | released :
      UploadMove cfg s r .releasing .release
        { s with
          claims := IdempotencyGuard.release cfg.settings.redis_idempotency_enabled s.claims r.key
            r.rid } none
  | raised (stage : UploadStage) : UploadMove cfg s r stage .raise s (raisedTo stage)
  | crashed (stage : UploadStage) : UploadMove cfg s r stage .crash s none

theorem uploadEffect_move (h : uploadEffect cfg s r stage action = some (s', next)) :
    UploadMove cfg s r stage action s' next := by
  cases action with
  | crash =>
    cases stage <;> (cases h; exact .crashed _)
  | raise =>
    cases stage <;> (cases h; exact .raised _)
  | acquire =>
    cases stage <;> try cases h
    simp only [uploadEffect] at h
    split at h
    · rename_i claims hc
      cases h
      exact .acquired claims hc
    · cases h
      exact .refused
  | list =>
    cases stage <;> cases h
    exact .listed
  | stage raised =>
    cases stage <;> try cases h
    simp only [uploadEffect] at h
    split at h
    · obtain ⟨archive, ha, he⟩ := Option.map_eq_some_iff.mp h
      cases he
      exact .stored archive _ ha rfl
    · rename_i hmode
      cases h
      exact .direct (by simpa using hmode)
  | record =>
    cases stage <;> cases h
    exact .recorded
  | publish =>
    cases stage <;> cases h
    exact .published
  | publishRaises sent =>
    cases stage <;> cases h
    cases sent
    · exact .unsent
    · exact .sent
  | write =>
    cases stage <;> cases h
    exact .written
  | commit =>
    cases stage <;> cases h
    exact .committed
  | delete =>
    cases stage <;> cases h
    exact .deleted
  | recordDelete =>
    cases stage <;> cases h
    exact .reported _
  | release =>
    cases stage <;> cases h
    exact .released

/-- What one step of a worker may do. -/
inductive WorkerMove (cfg : Config) (s : State) : WorkerAction → State → Prop
  | started (message) (h : s.messages[mid]? = some message) :
      WorkerMove cfg s (.start mid w)
        { s with
          runs := s.runs ++ [⟨s.next_request, mid, w, toWorker message,
            (Worker.Pipeline.uploadItems (toWorker message)).map (fun _ => none), s.db.now, false⟩]
          next_request := s.next_request + 1 }
  | item (run item) (hrun : Rows.find? s.runs wid = some run) (hslot : run.slots[index]? = some none)
      (hitem : (Worker.Pipeline.uploadItems run.task)[index]? = some item) :
      WorkerMove cfg s (.item wid index fault) (runItem cfg s run index item fault)
  | produced (run result) (hrun : Rows.find? s.runs wid = some run) (hnew : run.produced = false)
      (hresult : run.result s.db.now = some result) :
      WorkerMove cfg s (.produce wid)
        { s with
          results := s.results ++ [result]
          runs := Rows.update s.runs wid (fun r => { r with produced := true }) }
  | acked (run) (hrun : Rows.find? s.runs wid = some run) (hdone : run.produced = true) :
      WorkerMove cfg s (.ack wid)
        { s with acked := run.mid :: s.acked, runs := Rows.erase s.runs wid }
  | crashed (run) (hrun : Rows.find? s.runs wid = some run) :
      WorkerMove cfg s (.crash wid)
        { s with
          runs := Rows.erase s.runs wid
          caches := Function.update s.caches run.worker (fun _ => none) }

theorem worker_moves (h : Bridge.worker cfg s action = some s') : WorkerMove cfg s action s' := by
  cases action with
  | start mid w =>
    obtain ⟨m, hm, rfl⟩ := Option.map_eq_some_iff.mp h
    exact .started m hm
  | item wid index fault =>
    obtain ⟨run, hrun, h⟩ := Option.bind_eq_some_iff.mp h
    split at h
    · rename_i hslot
      obtain ⟨item, hitem, rfl⟩ := Option.map_eq_some_iff.mp h
      exact .item run item hrun hslot hitem
    · cases h
  | produce wid =>
    obtain ⟨run, hrun, h⟩ := Option.bind_eq_some_iff.mp h
    split at h
    · cases h
    · rename_i hnew
      obtain ⟨result, hresult, rfl⟩ := Option.map_eq_some_iff.mp h
      exact .produced run result hrun (by simpa using hnew) hresult
  | ack wid =>
    obtain ⟨run, hrun, h⟩ := Option.bind_eq_some_iff.mp h
    split at h
    · rename_i hdone
      cases h
      exact .acked run hrun hdone
    · cases h
  | crash wid =>
    obtain ⟨run, hrun, rfl⟩ := Option.map_eq_some_iff.mp h
    exact .crashed run hrun

/-- What one step of the cleanup job may do. -/
inductive CleanupMove (s : State) : CleanupAction → State → Prop
  | started : CleanupMove s (.read retention bucket_name)
      { s with
        cleanups := s.cleanups ++ [⟨s.next_request, bucket_name,
          Staging._list_cleanup_candidates s.db retention, Staging._list_deleted_source_keys s.db, []⟩]
        next_request := s.next_request + 1 }
  | deleted (c : Cleanup) (event : TaskEvent) (rest : List TaskEvent) (target : Text × Text)
      (hc : Rows.find? s.cleanups cid = some c)
      (hcand : c.candidates = event :: rest)
      (htarget : Staging.cleanupTarget c.bucket_name c.deleted_keys event = some target)
      (f : Cleanup → Cleanup) :
      CleanupMove s (.delete cid true)
        { s with
          staging := s.staging.delete target.1 target.2
          cleanups := Rows.update s.cleanups cid f }
  | skipped (f : Cleanup → Cleanup) :
      CleanupMove s (.delete cid ok) { s with cleanups := Rows.update s.cleanups cid f }
  | committed (c) (hc : Rows.find? s.cleanups cid = some c) :
      CleanupMove s (.commit cid)
        { s with
          db := c.events.foldl (fun db e => EventRepo.append db e.1 e.2) s.db
          cleanups := Rows.erase s.cleanups cid }
  | crashed : CleanupMove s (.crash cid) { s with cleanups := Rows.erase s.cleanups cid }

theorem cleanup_moves (h : Bridge.cleanup s action = some s') : CleanupMove s action s' := by
  cases action with
  | read retention bucket_name =>
    cases h
    exact .started
  | delete cid ok =>
    obtain ⟨c, hc, h⟩ := Option.bind_eq_some_iff.mp h
    split at h
    · cases h
    · rename_i event rest hcand
      split at h
      · rename_i target htarget _
        cases h
        exact .deleted c event rest target hc hcand htarget _
      · cases h
        exact .skipped _
  | commit cid =>
    obtain ⟨c, hc, h⟩ := Option.bind_eq_some_iff.mp h
    split at h
    · cases h
      exact .committed c hc
    · cases h
  | crash cid =>
    obtain ⟨c, _, rfl⟩ := Option.map_eq_some_iff.mp h
    exact .crashed

/-- The read of a confirm or retry request. -/
def checked (db : Db) (kind : WriteKind) (actor : CurrentActor) (t : Nat) :
    Except HTTPException Task :=
  match kind with
  | .confirm => Tasks.confirm_check db actor t
  | .retry => Tasks.readTask db actor t

/-- What one step of the system may do. -/
inductive Move (cfg : Config) (s : State) : Action → State → Prop
  | created (db t dir) (h : Tasks.create_task cfg.py cfg.settings s.db actor key uploads label =
        .ok (.created db t dir)) :
      Move cfg s (.create actor key uploads label)
        { s with
          db := db
          dirs := Function.update s.dirs (cfg.settings.task_dir_base ++ ['/'] ++ idText t) (some dir) }
  | classified (dir db) (h : Tasks.classify_task cfg.py profile dir s.db actor t = .ok db) :
      Move cfg s (.classify actor t profile) { s with db := db }
  | read (task) (h : checked s.db kind actor t = .ok task) :
      Move cfg s (.read kind actor t)
        { s with
          writes := s.writes ++ [⟨s.next_request, kind, actor, task⟩]
          next_request := s.next_request + 1 }
  | wrote (r) (hr : Rows.find? s.writes rid = some r) :
      Move cfg s (.write rid)
        { s with
          db := writeDb s.db r
          writes := Rows.erase s.writes rid
          trace := markConfirmed s.db (writeDb s.db r) r.task.id s.trace }
  | began (task) (h : Tasks.upload_check s.db actor t = .ok task) :
      Move cfg s (.uploadRead actor t)
        { s with
          uploads := s.uploads ++ [⟨s.next_request, actor, task, .checked⟩]
          next_request := s.next_request + 1 }
  | requested (r u next) (hr : Rows.find? s.uploads rid = some r)
      (h : UploadMove cfg s r r.stage action u next) :
      Move cfg s (.upload rid action) { u with uploads := setStage s.uploads rid next }
  | worked (h : WorkerMove cfg s action s') : Move cfg s (.worker action) s'
  | applied (p) (hp : s.results[pid]? = some p) :
      Move cfg s (.apply pid)
        { s with
          db := (apply_delivery_result cfg.settings.s3_bucket_name s.db p.message).1
          applied := pid :: s.applied }
  | cleaned (h : CleanupMove s action s') : Move cfg s (.cleanup action) s'
  | workspace : Move cfg s (.workspace name owner target key)
      { s with db := { s.db with
        workspaces := s.db.workspaces ++ [⟨s.db.next_id, name, owner, target, key, s.db.now⟩]
        next_id := s.db.next_id + 1 } }
  | expired : Move cfg s (.expire key) { s with claims := Function.update s.claims key none }
  | ticked : Move cfg s .tick { s with db := { s.db with now := s.db.now + 1 } }

theorem step_moves (h : step cfg s a = some s') : Move cfg s a s' := by
  cases a with
  | create actor key uploads label =>
    simp only [step, Bridge.create] at h
    split at h
    · rename_i db t dir hcreate
      cases h
      exact .created db t dir hcreate
    · cases h
  | classify actor t profile =>
    simp only [step, Bridge.classify] at h
    split at h
    · cases h
    · split at h
      · cases h
      · rename_i dir _
        split at h
        · rename_i db hclassify
          cases h
          exact .classified dir db hclassify
        · cases h
  | read kind actor t =>
    simp only [step, readForWrite] at h
    split at h
    · cases h
    · rename_i task hread
      cases h
      exact .read task hread
  | write rid =>
    obtain ⟨r, hr, rfl⟩ := Option.map_eq_some_iff.mp h
    exact .wrote r hr
  | uploadRead actor t =>
    simp only [step, Bridge.uploadRead] at h
    split at h
    · cases h
    · rename_i task hread
      cases h
      exact .began task hread
  | upload rid action =>
    obtain ⟨r, hr, h⟩ := Option.bind_eq_some_iff.mp h
    obtain ⟨⟨u, next⟩, hu, rfl⟩ := Option.map_eq_some_iff.mp h
    exact .requested r u next hr (uploadEffect_move hu)
  | worker action => exact .worked (worker_moves h)
  | apply pid =>
    obtain ⟨p, hp, rfl⟩ := Option.map_eq_some_iff.mp h
    exact .applied p hp
  | cleanup action => exact .cleaned (cleanup_moves h)
  | workspace name owner target key =>
    cases h
    exact .workspace
  | expire key =>
    cases h
    exact .expired
  | tick =>
    cases h
    exact .ticked

end FileDelivery.Proofs.Moves
