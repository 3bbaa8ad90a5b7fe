import FileDelivery.Control.FolderUpload
import FileDelivery.Library.Lexical

namespace FileDelivery.Control.OsPath
open FileDelivery.Library.Lexical

/-- `os.path.join` of two parts. -/
def join (a b : Text) : Text :=
  if ['/'].isPrefixOf b then b
  else if a = [] ∨ ['/'].isSuffixOf a then a ++ b
  else a ++ '/' :: b

/-- One turn of the loop of `os.path.normpath` over the components of a path. -/
def push (initial_slashes : Bool) (new_comps : List Text) (comp : Text) : List Text :=
  if comp = [] ∨ comp = ['.'] then new_comps
  else if comp ≠ ['.', '.'] ∨ (initial_slashes = false ∧ new_comps = []) ∨
      new_comps.getLast? = some ['.', '.'] then new_comps ++ [comp]
  else new_comps.dropLast

def comps (path : Text) : List Text :=
  (path.splitOn '/').foldl (push (['/'].isPrefixOf path)) []

/-- `os.path.normpath`; up to two leading slashes stay. -/
def normpath (path : Text) : Text :=
  let normal := PurePosixPath.root path ++ ['/'].intercalate (comps path)
  if normal = [] then ['.'] else normal

/-- The file that the loop of `_extract_internal_archive` writes for an entry, if any. -/
def extractTo (extract_dir : Text) (archive : Archive) (entry : ZipInfo) : Option (Text × Bytes) :=
  if ['/'].isSuffixOf entry.filename then none
  else (FolderUpload._safe_archive_name entry.filename).bind (fun archive_name =>
    let safe_path := normpath (join extract_dir archive_name)
    if (normpath extract_dir ++ ['/']).isPrefixOf safe_path
    then some (safe_path, FolderUpload.readEntry archive entry.filename) else none)

example : normpath "/srv//tasks/./7/a/../b" = ("/srv/tasks/7/b" : Text) := by decide
example : normpath "../a/../.." = ("../.." : Text) := by decide

end FileDelivery.Control.OsPath
