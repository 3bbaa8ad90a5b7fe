import FileDelivery.Control.FolderUpload
import FileDelivery.Control.Staging
import FileDelivery.Worker.Pipeline

namespace FileDelivery.Worker.Source
open FileDelivery.Control FileDelivery.Worker

/-- Go's `%q`, for names without characters that it escapes. -/
def quote (t : Text) : String := "\"" ++ String.ofList t ++ "\""

/-- `FileResolver`: the file below the task's directory. The worker opens it as it uploads, where a file that
is missing fails with another text. -/
def resolveFile (dir : Option TaskDir) (task : DeliveryTask) (item : DeliveryItem) :
    Except String Bytes :=
  match dir.bind (fun d => FolderUpload.contentOf d.files (PurePosixPath.tail item.srcPath)) with
  | some bytes => .ok bytes
  | none => .error ("open source " ++ quote (task.tempDir ++ ['/'] ++ item.srcPath) ++
      ": no such file or directory")

/-- Archives that one `ZipArchiveResolver` has fetched, by bucket and key. -/
abbrev Cache := Text → Option Archive

def cacheKey (source : SourceRef) : Text := source.bucket ++ ['/'] ++ source.key

/-- The cached archive, else the stored object, which is then cached. -/
def getArchive (cache : Cache) (staging : Objects Archive) (source : SourceRef) :
    Except String Archive × Cache :=
  match cache (cacheKey source) with
  | some archive => (.ok archive, cache)
  | none =>
    match staging (source.bucket, source.key) with
    | some archive => (.ok archive, Function.update cache (cacheKey source) (some archive))
    | none => (.error ("get source object " ++ quote source.bucket ++ "/" ++ quote source.key ++
        ": NoSuchKey"), cache)

/-- The name that an item is looked up under. -/
def entryName (item : DeliveryItem) : Text :=
  if item.sourcePath = [] then item.srcPath else item.sourcePath

/-- The first entry of the archive under the item's name. -/
def openEntry (source : SourceRef) (item : DeliveryItem) (archive : Archive) :
    Except String Bytes :=
  match archive.find? (·.filename == entryName item) with
  | some entry => .ok entry.data
  | none => .error ("source item " ++ quote (entryName item) ++ " not found in archive " ++
      quote source.key)

/-- `ZipArchiveResolver`. -/
def resolveArchive (cache : Cache) (staging : Objects Archive) (task : DeliveryTask)
    (item : DeliveryItem) : Except String Bytes × Cache :=
  match task.source with
  | none => (.error ("task " ++ String.ofList task.taskId ++ " has no source reference"), cache)
  | some source =>
    match getArchive cache staging source with
    | (.error e, cache) => (.error e, cache)
    | (.ok archive, cache) => (openEntry source item archive, cache)

end FileDelivery.Worker.Source
