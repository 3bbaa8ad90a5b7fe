import FileDelivery.Control.Tasks
import FileDelivery.Library.Fallible
import FileDelivery.Proofs.ArchivePaths

namespace FileDelivery.Proofs.Archives
open FileDelivery.Library.Fallible FileDelivery.Control FileDelivery.Control.FolderUpload
open FileDelivery.Proofs.ArchivePaths

/-- The name that an accepted upload is stored under. -/
def storedName (raw_name : Text) : Option Text :=
  (_safe_archive_name raw_name).map (fun name => name.takeWhile (· ≠ Char.ofNat 0))

def entryOf (upload : Text × Bytes) : Option ZipInfo := (storedName upload.1).map (⟨·, upload.2⟩)

/-- The archive of a list of uploads. -/
def entriesOf (uploads : List (Text × Bytes)) : Archive := uploads.filterMap entryOf

/-- Where an upload is extracted to. -/
def uploadPath (upload : Text × Bytes) : Option (List Text) :=
  (storedName upload.1).bind extractedPath

/-- The bytes of the last upload that is extracted to a path. -/
def lastExtracted (uploads : List (Text × Bytes)) (path : List Text) : Option Bytes :=
  (uploads.reverse.find? (fun u => uploadPath u == some path)).map Prod.snd

/-- The archive in a task's directory once the uploads are extracted over it. -/
def storedArchive (py : Python) (uploads : List (Text × Bytes)) : Option Archive :=
  match lastExtracted uploads task_archive_path with
  | none => some (entriesOf uploads)
  | some bytes => py.readZip bytes

theorem readUploads_entries {uploads : List (Text × Bytes)} {before : Archive}
    (h : readUploads py limits uploads count total before = .ok entries) :
    entries.map writestr = before.map writestr ++ entriesOf uploads := by
  induction uploads generalizing count total before with
  | nil =>
    cases h
    simp [entriesOf]
  | cons upload rest ih =>
    obtain ⟨raw_name, data⟩ := upload
    simp only [readUploads] at h
    split at h
    · cases h
    · rename_i name hname
      split at h
      · cases h
      · split at h
        · cases h
        · have hentry : entryOf (raw_name, data) = some (writestr ⟨name, data⟩) := by
            simp [entryOf, storedName, hname, writestr]
          rw [ih h]
          simp [entriesOf, hentry]

theorem prepared_archive
    (h : _prepare_folder_upload py limits uploads label = .ok prepared) :
    prepared.archive = entriesOf uploads := by
  simp only [_prepare_folder_upload] at h
  split at h
  · cases h
  · obtain ⟨entries, hread, h⟩ := bind_ok.mp h
    split at h
    · cases h
    · cases h
      simpa using readUploads_entries hread

theorem extracted_files (h : _extract_internal_archive limits archive = .ok files) :
    files = archive.filterMap (extractEntry archive) := by
  simp only [_extract_internal_archive] at h
  obtain ⟨_, _, h⟩ := bind_ok.mp h
  split at h
  · cases h
  · exact (Except.ok.inj h).symm

/-- An upload without a name is never stored. -/
theorem entriesOf_named (uploads : List (Text × Bytes)) :
    entriesOf (uploads.filter (fun u => u.1 ≠ [])) = entriesOf uploads := by
  have hempty : storedName [] = none := by decide
  rw [entriesOf, entriesOf, List.filterMap_filter]
  congr 1
  funext upload
  split
  · rfl
  · rename_i hn
    have hn : upload.1 = [] := by simpa using hn
    simp [entryOf, hn, hempty]

/-- The last entry that is extracted to a path is the one that its name reads. -/
theorem read_last {archive : Archive} {path : List Text}
    (h : archive.reverse.find? (fun e => extractedPath e.filename == some path) = some entry) :
    readEntry archive entry.filename = entry.data := by
  obtain ⟨hp, later, earlier, hrev, hlater⟩ := List.find?_eq_some_iff_append.mp h
  have hfind : archive.reverse.find? (·.filename == entry.filename) = some entry := by
    refine List.find?_eq_some_iff_append.mpr ⟨by simp, later, earlier, hrev, ?_⟩
    intro e he
    have hne := hlater e he
    by_cases hname : e.filename = entry.filename
    · simp [hname, hp] at hne
    · simpa using hname
  simp [readEntry, hfind]

theorem contentOf_extracted (archive : Archive) (path : List Text) :
    contentOf (archive.filterMap (extractEntry archive)) path =
      (archive.reverse.find? (fun e => extractedPath e.filename == some path)).map (·.data) := by
  have hpred : (fun e => (extractEntry archive e).any (fun f => f.1 == path)) =
      fun e => extractedPath e.filename == some path := by
    funext e
    rw [extractEntry_path]
    cases extractedPath e.filename <;> simp
  rw [contentOf, ← List.filterMap_reverse, List.find?_filterMap, hpred]
  cases h : archive.reverse.find? (fun e => extractedPath e.filename == some path) with
  | none => rfl
  | some entry =>
    have hpath : extractedPath entry.filename = some path := by simpa using List.find?_some h
    simp [extractEntry_path, hpath, read_last h]

/-- The same in terms of the uploads. -/
theorem contentOf_uploads (uploads : List (Text × Bytes)) (path : List Text) :
    contentOf ((entriesOf uploads).filterMap (extractEntry (entriesOf uploads))) path =
      lastExtracted uploads path := by
  rw [contentOf_extracted, lastExtracted]
  have hpred : (fun u => (entryOf u).any (fun e => extractedPath e.filename == some path)) =
      fun u => uploadPath u == some path := by
    funext u
    simp only [entryOf, uploadPath]
    cases storedName u.1 <;> simp
  rw [entriesOf, ← List.filterMap_reverse, List.find?_filterMap, hpred]
  cases h : uploads.reverse.find? (fun u => uploadPath u == some path) with
  | none => rfl
  | some u =>
    have hpath : uploadPath u = some path := by simpa using List.find?_some h
    obtain ⟨name, hname, _⟩ := Option.bind_eq_some_iff.mp hpath
    simp [entryOf, hname]

/-- The directory that a created task starts with. -/
theorem created_dir
    (h : Tasks.create_task py settings db actor key uploads label = .ok (.created db' t dir)) :
    dir.archive = storedArchive py uploads ∧
      ∀ path, contentOf dir.files path = lastExtracted uploads path := by
  simp only [Tasks.create_task] at h
  split at h
  · split at h
    · cases h
    · obtain ⟨prepared, hp, h⟩ := bind_ok.mp h
      obtain ⟨files, hf, h⟩ := map_ok.mp h
      cases h
      have harchive : prepared.archive = entriesOf uploads := by
        rw [prepared_archive hp, entriesOf_named]
      rw [harchive] at hf
      have hfiles := extracted_files hf
      subst hfiles
      refine ⟨?_, fun path => contentOf_uploads uploads path⟩
      simp only [taskDir, harchive]
      cases hl : lastExtracted uploads task_archive_path with
      | none => simp [contentOf_uploads, storedArchive, hl]
      | some content => simp [contentOf_uploads, storedArchive, hl]
  · cases h

end FileDelivery.Proofs.Archives
