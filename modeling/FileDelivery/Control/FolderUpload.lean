import FileDelivery.Control.Runtime

namespace FileDelivery.Control

structure HTTPException where
  status_code : Nat
  detail : String
  deriving DecidableEq, Repr

structure UploadLimits where
  max_file_count : Nat
  max_folder_payload_bytes : Nat
  max_internal_archive_bytes : Nat
  deriving DecidableEq, Repr

namespace FolderUpload

def INTERNAL_ARCHIVE_DIR : Text := ".auto_upload_internal"
def INTERNAL_ARCHIVE_NAME : Text := "original.zip"

/-- Where `task_archive_path` puts the internal archive below a task's directory. -/
def task_archive_path : List Text := [INTERNAL_ARCHIVE_DIR, INTERNAL_ARCHIVE_NAME]

/-- The non-empty segments of a name, with either slash. -/
def nameParts (raw_name : Text) : List Text :=
  ((raw_name.map (fun c => if c.toNat = 92 then '/' else c)).splitOn '/').filter (· ≠ [])

def _safe_archive_name (raw_name : Text) : Option Text :=
  let parts := nameParts raw_name
  if parts = [] ∨ ['.', '.'] ∈ parts then none
  else if parts.head? = some INTERNAL_ARCHIVE_DIR then none
  else some (['/'].intercalate parts)

def _folder_label (file_names : List Text) : Text :=
  match file_names.filterMap (fun name => (nameParts name).head?) with
  | first :: rest => if rest.all (· == first) then first else "folder-upload"
  | [] => "folder-upload"

def tooManyFiles (count : Nat) (limits : UploadLimits) : HTTPException :=
  ⟨413, "Too many files: " ++ toString count ++ " exceeds " ++ toString limits.max_file_count⟩

/-- The loop over the uploaded files: names checked, files and bytes counted. -/
def readUploads (py : Python) (limits : UploadLimits) : List (Text × Bytes) → Nat → Nat → Archive →
    Except HTTPException Archive
  | [], _, _, entries => .ok entries
  | (raw_name, data) :: rest, file_count, total_size, entries =>
    match _safe_archive_name raw_name with
    | none => .error ⟨400, "Unsafe folder path: " ++ py.repr raw_name⟩
    | some archive_name =>
      let file_count := file_count + 1
      let total_size := total_size + data.length
      if file_count > limits.max_file_count then .error (tooManyFiles file_count limits)
      else if total_size > limits.max_folder_payload_bytes then
        .error ⟨413, "Folder payload too large: " ++ toString total_size ++ " bytes exceeds " ++
          toString limits.max_folder_payload_bytes⟩
      else readUploads py limits rest file_count total_size (entries ++ [⟨archive_name, data⟩])

structure PreparedArchive where
  label : Text
  archive : Archive
  deriving DecidableEq, Repr

/-- `zipfile` cuts a name at its first null character. -/
def writestr (info : ZipInfo) : ZipInfo :=
  { info with filename := info.filename.takeWhile (· ≠ Char.ofNat 0) }

def _prepare_folder_upload (py : Python) (limits : UploadLimits) (uploads : List (Text × Bytes))
    (submission_label : Option Text) : Except HTTPException PreparedArchive :=
  if uploads = [] then .error ⟨400, "Folder upload contains no files"⟩
  else (readUploads py limits uploads 0 0 []).bind (fun entries =>
    let archive := entries.map writestr
    if py.zipSize archive > limits.max_internal_archive_bytes then
      .error ⟨413, "Generated internal archive too large: " ++ toString (py.zipSize archive) ++
        " bytes exceeds " ++ toString limits.max_internal_archive_bytes⟩
    else .ok ⟨(submission_label.filter (· ≠ [])).getD (_folder_label (entries.map (·.filename))),
      archive⟩)

/-- The loop of `_validate_internal_archive_limits`. -/
def validateEntries (limits : UploadLimits) : Archive → Nat → Nat → Except HTTPException Unit
  | [], _, _ => .ok ()
  | entry :: rest, file_count, total_size =>
    if ['/'].isSuffixOf entry.filename ∨ _safe_archive_name entry.filename = none then
      validateEntries limits rest file_count total_size
    else
      let file_count := file_count + 1
      let total_size := total_size + entry.file_size
      if file_count > limits.max_file_count then .error (tooManyFiles file_count limits)
      else if total_size > limits.max_folder_payload_bytes then
        .error ⟨413, "Internal archive payload too large: " ++ toString total_size ++
          " bytes exceeds " ++ toString limits.max_folder_payload_bytes⟩
      else validateEntries limits rest file_count total_size

/-- `zf.read(name)`: the last entry of that name. -/
def readEntry (archive : Archive) (name : Text) : Bytes :=
  ((archive.reverse.find? (·.filename == name)).map (·.data)).getD []

/-- The file that one entry is extracted to, below the task's directory. -/
def extractEntry (archive : Archive) (entry : ZipInfo) : Option (List Text × Bytes) :=
  if ['/'].isSuffixOf entry.filename then none
  else (_safe_archive_name entry.filename).bind (fun archive_name =>
    let path := PurePosixPath.tail archive_name
    if path = [] then none else some (path, readEntry archive entry.filename))

/-- One path needs a directory where the other needs a file. -/
def clash (p q : List Text) : Bool := p.isPrefixOf q && p != q

/-- The files that extraction writes, in order; it raises where a file stands in the
way of a directory. -/
def _extract_internal_archive (limits : UploadLimits) (archive : Archive) :
    Except HTTPException (List (List Text × Bytes)) :=
  (validateEntries limits archive 0 0).bind (fun _ =>
    let files := archive.filterMap (extractEntry archive)
    let paths := task_archive_path :: files.map Prod.fst
    if paths.any (fun p => paths.any (clash p)) then .error ⟨500, "Internal Server Error"⟩
    else .ok files)

/-- The content of a file after these writes. -/
def contentOf (files : List (List Text × Bytes)) (path : List Text) : Option Bytes :=
  (files.reverse.find? (·.1 == path)).map Prod.snd

end FolderUpload

/-- A task's directory after its creation: the internal archive, as far as it opens as
one, and the extracted files. -/
structure TaskDir where
  archive : Option Archive
  files : List (List Text × Bytes)
  deriving DecidableEq, Repr

namespace FolderUpload

/-- Extraction comes after the archive was written and may write over it. -/
def taskDir (py : Python) (archive : Archive) (files : List (List Text × Bytes)) : TaskDir where
  archive :=
    match contentOf files task_archive_path with
    | none => some archive
    | some bytes => py.readZip bytes
  files := files

example : _safe_archive_name "/acme//q1.xlsx" = some ("acme/q1.xlsx" : Text) := by decide
example : _safe_archive_name "acme/../q1.xlsx" = none := by decide

end FolderUpload
end FileDelivery.Control
