import FileDelivery.Bridge.Background
import FileDelivery.Control.OsPath

namespace FileDelivery.Bridge.Backends
open FileDelivery.Library FileDelivery.Control

/-- The files of a host by the components of their absolute paths. -/
abbrev FileSystem := List Text → Option Bytes

/-- Where a path leads from a working directory, without symbolic links. -/
def locate (cwd : List Text) (path : Text) : List Text :=
  (path.splitOn '/').foldl (OsPath.push true) (if ['/'].isPrefixOf path then [] else cwd)

/-- Go's `filepath.Clean`. -/
def clean (path : Text) : Text :=
  let comps := OsPath.comps path
  if ['/'].isPrefixOf path then '/' :: ['/'].intercalate comps
  else if comps = [] then ['.'] else ['/'].intercalate comps

/-- Go's `filepath.Join` of two parts. -/
def filepathJoin (a b : Text) : Text :=
  if a ≠ [] then clean (a ++ '/' :: b) else if b ≠ [] then clean b else []

/-- A `run_task` in a control plane that does nothing else. -/
structure PythonRun where
  db : Db
  run : TaskRun
  /-- The calls of `upload_file` that have returned: key and data. -/
  puts : List (Text × Bytes)

def putsAfter (s : PythonRun) : RunAction → List (Text × Bytes)
  | .item item_id (.store data) =>
    s.puts ++ ((Rows.find? s.run.items item_id).map (fun i => (i.item.dst_path, data))).toList
  | _ => s.puts

def step (s : PythonRun) (a : RunAction) : Option PythonRun :=
  (TaskRunner.run_task s.db s.run a).bind (fun (db, next) =>
    next.map (fun run => ⟨db, run, putsAfter s a⟩))

/-- Every call succeeds but the open of a file that is not there. `_upload_item` opens
the item's `src_path` as it is. -/
def Served (fs : FileSystem) (cwd : List Text) (s : PythonRun) : RunAction → Prop
  | .item item_id (.store data) => ∀ i ∈ Rows.find? s.run.items item_id,
      fs (locate cwd i.item.src_path) = some data
  | .item item_id (.raise _) => ∀ i ∈ Rows.find? s.run.items item_id,
      i.stage = .marked ∧ fs (locate cwd i.item.src_path) = none
  | .item _ .escape | .raise _ | .lose | .leave | .crash => False
  | _ => True

instance (fs : FileSystem) (cwd : List Text) (s : PythonRun) :
    (a : RunAction) → Decidable (Served fs cwd s a)
  | .item item_id (.store _) => inferInstanceAs (Decidable (∀ i ∈ Rows.find? s.run.items item_id, _))
  | .item item_id (.raise _) => inferInstanceAs (Decidable (∀ i ∈ Rows.find? s.run.items item_id, _))
  | .item _ .escape | .raise _ | .lose | .leave | .crash => .isFalse id
  | .item _ .mark | .item _ .done | .item _ .publish | .item _ .fail | .item _ .report
  | .read | .start | .list | .complete | .plan | .finalize | .publish | .fail => .isTrue trivial

def scheduled (db : Db) (rid task_id : Nat) : PythonRun := ⟨db, ⟨rid, task_id, .fresh, .starting, []⟩, []⟩

/-- `FileSource.Open`: `FileResolver` hands the item's path below `temp_dir` on. -/
def openSource (fs : FileSystem) (cwd : List Text) (task : Worker.DeliveryTask)
    (item : Worker.DeliveryItem) : Except String Bytes :=
  match fs (locate cwd (filepathJoin task.tempDir item.srcPath)) with
  | some bytes => .ok bytes
  | none => .error ("open source " ++ Worker.Source.quote (filepathJoin task.tempDir item.srcPath) ++
      ": open " ++ String.ofList (filepathJoin task.tempDir item.srcPath) ++
      ": no such file or directory")

/-- What a worker whose sink stores everything reports about an item. -/
def workerItem (cfg : Config) (fs : FileSystem) (cwd : List Text) (task : Worker.DeliveryTask)
    (item : Worker.DeliveryItem) : Worker.DeliveryResultItem :=
  Worker.Pipeline.processItem item (openSource fs cwd task item) (.ok ())
    (fun bytes => .ok (receipt cfg item bytes))

/-- The objects that it stores. -/
def workerPuts (fs : FileSystem) (cwd : List Text) (message : DeliveryTaskMessage) :
    List (Text × Bytes) :=
  (Worker.Pipeline.uploadItems (toWorker message)).filterMap (fun item =>
    (openSource fs cwd (toWorker message) item).toOption.map (item.dstPath, ·))

def workerResult (cfg : Config) (fs : FileSystem) (cwd : List Text) (message : DeliveryTaskMessage)
    (started ended : Time) : DeliveryResultMessage :=
  let task := toWorker message
  toControl (Worker.processTask task
    ((Worker.Pipeline.uploadItems task).map (workerItem cfg fs cwd task)) started ended)

/-- The message that an upload request publishes for a worker with files. -/
def uploadMessage (cfg : Config) (db : Db) (actor : CurrentActor) (task : Task) : DeliveryTaskMessage :=
  build_delivery_task_message task (Tasks.upload_items db actor task.id) cfg.settings.s3_bucket_name
    none none db.now

/-- The database once the request is through and the worker's result is applied. -/
def workerDb (cfg : Config) (fs : FileSystem) (cwd : List Text) (db : Db) (actor : CurrentActor)
    (task : Task) (started ended : Time) : Db :=
  let message := uploadMessage cfg db actor task
  (apply_delivery_result cfg.settings.s3_bucket_name
    (Tasks.queue_write cfg.settings db actor task.id message.items.length)
    (workerResult cfg fs cwd message started ended)).1

/-- Every one of the items is uploaded. -/
def AllUploaded (items : List TaskItem) (db : Db) : Prop :=
  ∀ i ∈ items, ∃ row ∈ db.items, row.id = i.id ∧ row.upload_status = .uploaded

instance (items : List TaskItem) (db : Db) : Decidable (AllUploaded items db) :=
  inferInstanceAs (Decidable (∀ i ∈ items, ∃ row ∈ db.items, _ ∧ _))

/-- The two backends have stored the same objects, and delivered every item. -/
structure Agree (items : List TaskItem) (python : PythonRun) (puts : List (Text × Bytes)) (db : Db) :
    Prop where
  stored : ∀ put, put ∈ python.puts ↔ put ∈ puts
  python : AllUploaded items python.db
  worker : AllUploaded items db

/-- The item's `src_path` from the one working directory and below `temp_dir` from the
other lead to the same bytes. -/
def SameSource (fs : FileSystem) (python worker : List Text) (task : Task) (item : TaskItem) : Prop :=
  ∃ data, fs (locate python item.src_path) = some data ∧
    fs (locate worker (filepathJoin task.temp_dir item.src_path)) = some data

end FileDelivery.Bridge.Backends
