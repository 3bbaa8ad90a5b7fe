import FileDelivery.Bridge.Replay
import FileDelivery.Proofs.Archives
import FileDelivery.Proofs.PlatformTables

namespace FileDelivery.Proofs.ArchiveKept
open FileDelivery.Library FileDelivery.Library.Lexical FileDelivery.Library.Runs
open FileDelivery.Control FileDelivery.Control.OsPath FileDelivery.Control.FolderUpload
open FileDelivery.Bridge FileDelivery.Proofs.Moves FileDelivery.Proofs.Effects
open FileDelivery.Proofs.ArchivePaths FileDelivery.Proofs.Archives
open FileDelivery.Proofs.PlatformTables

/-- Strictly below a directory. -/
def Inside (dir path : Text) : Prop := ∃ rest, rest ≠ [] ∧ path = dir ++ '/' :: rest

def internalDir (extract_dir : Text) : Text := normpath extract_dir ++ '/' :: INTERNAL_ARCHIVE_DIR

/-- Extraction writes inside the task's directory only, and not to its internal one. -/
def Confined (extract_dir : Text) (archive : Archive) : Prop :=
  ∀ entry ∈ archive, ∀ file, extractTo extract_dir archive entry = some file →
    Inside (normpath extract_dir) file.1 ∧
      file.1 ≠ internalDir extract_dir ∧ ¬Inside (internalDir extract_dir) file.1

def archiveAt (s : Platform.State) (temp_dir : Text) : Option Archive :=
  (s.base.dirs temp_dir).bind (·.archive)

/-- A new task's files are confined, and its archive is never another than it was built. -/
structure Intact (cfg : Config) (t : Platform.State) (id : Nat) (archive : Archive) : Prop where
  confined : Confined (join cfg.settings.task_dir_base (idText id)) archive
  kept : ∀ u, Run (Platform.step cfg) Free t u →
    archiveAt u (cfg.settings.task_dir_base ++ ['/'] ++ idText id) = some archive

/-- The upload is extracted below the internal directory: the check for it sees only the
first segment, which may be a dot. -/
def reserved (upload : Text × Bytes) : Bool :=
  (uploadPath upload).any (fun path => path.head? == some INTERNAL_ARCHIVE_DIR)

theorem extracted_segmented (h : extractedPath filename = some path) :
    Segmented '/' path ∧ path ≠ [] := by
  unfold extractedPath at h
  split at h
  · cases h
  · obtain ⟨name, hname, h⟩ := Option.bind_eq_some_iff.mp h
    split at h
    · cases h
    · rename_i hne
      cases h
      refine ⟨?_, hne⟩
      rw [safe_name_tail hname]
      exact (nameParts_segmented filename).filter _

theorem internal_segmented : '/' ∉ INTERNAL_ARCHIVE_DIR := by decide

/-- A path leads into the internal directory just when its first component is that. -/
theorem below_internal (dir : Text) (hseg : Segmented '/' path) (hne : path ≠ []) :
    (below dir path = internalDir dir ∨ Inside (internalDir dir) (below dir path)) ↔
      path.head? = some INTERNAL_ARCHIVE_DIR := by
  have hsplit : INTERNAL_ARCHIVE_DIR.splitOn '/' = [INTERNAL_ARCHIVE_DIR] :=
    List.splitOn_eq_singleton internal_segmented
  constructor
  · rintro (h | ⟨rest, _, h⟩)
    · have hj : ['/'].intercalate path = INTERNAL_ARCHIVE_DIR := by
        simpa [below, internalDir] using h
      have := splitOn_joined hseg hne
      rw [hj, hsplit] at this
      simp [← this]
    · have hj : ['/'].intercalate path = INTERNAL_ARCHIVE_DIR ++ '/' :: rest := by
        simpa [below, internalDir] using h
      have := splitOn_joined hseg hne
      rw [hj, List.splitOn_append_cons_self, hsplit] at this
      simp [← this]
  · intro h
    obtain ⟨more, rfl⟩ : ∃ more, path = [INTERNAL_ARCHIVE_DIR] ++ more := by
      cases path with
      | nil => exact absurd rfl hne
      | cons first more => exact ⟨more, by simpa using h⟩
    by_cases hm : more = []
    · subst hm
      exact .inl (by simp [below, internalDir, List.intercalate])
    · refine .inr ⟨['/'].intercalate more, ?_, ?_⟩
      · exact joined_ne_nil (fun s hs => hseg s (List.mem_append_right _ hs)) hm
      · rw [below, joined_append (by simp) hm, internalDir]
        simp [List.intercalate]

/-- What extraction writes for an upload is confined unless the upload is reserved. -/
theorem upload_confined (base : Text) (id : Nat) {archive : Archive} {upload : Text × Bytes}
    (he : entryOf upload = some entry)
    (hx : extractTo (join base (idText id)) archive entry = some file) :
    Inside (normpath (join base (idText id))) file.1 ∧
      (file.1 ≠ internalDir (join base (idText id)) ∧
        ¬Inside (internalDir (join base (idText id))) file.1 ↔ reserved upload = false) := by
  obtain ⟨name, hname, rfl⟩ := Option.map_eq_some_iff.mp he
  rw [extractTo_eq (task_dir_named base id), extractEntry_path] at hx
  simp only [Option.map_map, Option.map_eq_some_iff] at hx
  obtain ⟨path, hpath, rfl⟩ := hx
  obtain ⟨hseg, hne⟩ := extracted_segmented hpath
  have hupload : uploadPath upload = some path := by simp [uploadPath, hname, hpath]
  refine ⟨⟨_, joined_ne_nil hseg hne, rfl⟩, ?_⟩
  rw [← not_or, Function.comp_apply, below_internal _ hseg hne]
  simp [reserved, hupload]

theorem not_reserved_archive (py : Python) (h : ∀ u ∈ uploads, reserved u = false) :
    storedArchive py uploads = some (entriesOf uploads) := by
  have : lastExtracted uploads task_archive_path = none := by
    rw [lastExtracted, Option.map_eq_none_iff, List.find?_eq_none]
    intro u hu hpath
    have := h u (List.mem_reverse.mp hu)
    have hpath : uploadPath u = some task_archive_path := by simpa using hpath
    simp [reserved, hpath, task_archive_path] at this
  simp [storedArchive, this]

theorem confined_iff (base : Text) (id : Nat) (uploads : List (Text × Bytes)) :
    Confined (join base (idText id)) (entriesOf uploads) ↔ ∀ u ∈ uploads, reserved u = false := by
  constructor
  · intro h u hu
    by_contra hr
    obtain ⟨path, hpath, _⟩ := (Option.any_eq_true _ _).mp ((Bool.not_eq_false _).mp hr)
    obtain ⟨name, hname, hpath⟩ := Option.bind_eq_some_iff.mp hpath
    have he : entryOf u = some ⟨name, u.2⟩ := by simp [entryOf, hname]
    have hx : ∃ file, extractTo (join base (idText id)) (entriesOf uploads) ⟨name, u.2⟩ = some file := by
      rw [extractTo_eq (task_dir_named base id), extractEntry_path]
      simp [hpath]
    obtain ⟨file, hx⟩ := hx
    have hout := (h _ (List.mem_filterMap.mpr ⟨u, hu, he⟩) _ hx).2
    exact hr ((upload_confined base id he hx).2.mp hout)
  · intro h entry hentry file hx
    obtain ⟨u, hu, he⟩ := List.mem_filterMap.mp hentry
    obtain ⟨hin, hout⟩ := upload_confined base id he hx
    exact ⟨hin, hout.mpr (h u hu)⟩

/-- A created task is known, with the directory that its uploads left. -/
theorem created_kept (h : Platform.step cfg s (.request (.create actor key uploads label)) = some t) :
    ∃ content : TaskDir, content.archive = storedArchive cfg.py uploads ∧
      (∀ path, contentOf content.files path = lastExtracted uploads path) ∧
      TaskKept s.base.db.next_id actor.tenant_id
        (cfg.settings.task_dir_base ++ ['/'] ++ idText s.base.db.next_id) (some content) t := by
  cases platform_moves h with
  | requested base hb =>
    cases step_moves hb with
    | created db k content hcreate =>
      obtain ⟨text, rfl, rfl⟩ := create_spec hcreate
      obtain ⟨harchive, hfiles⟩ := created_dir hcreate
      refine ⟨content, harchive, hfiles,
        ⟨Tasks.draftTask cfg.settings s.base.db actor key text, ?_, rfl, rfl, rfl⟩, ?_⟩
      · exact List.mem_append_right _ (List.mem_singleton_self _)
      · exact Function.update_self _ _ _

/-- The internal archive of a new task stays the archive that was built, and its files
are confined, exactly when no upload is spelled to land in the internal directory. -/
theorem archive_kept_iff (cfg : Config) (hs : Run (Platform.step cfg) Free Platform.initial s)
    (hp : _prepare_folder_upload cfg.py cfg.settings.limits (uploads.filter (fun u => u.1 ≠ [])) label =
      .ok prepared)
    (h : Platform.step cfg s (.request (.create actor key uploads label)) = some t) :
    Intact cfg t s.base.db.next_id prepared.archive ↔ ∀ u ∈ uploads, reserved u = false := by
  have harchive : prepared.archive = entriesOf uploads := by
    rw [prepared_archive hp, entriesOf_named]
  rw [harchive]
  constructor
  · intro hk
    exact (confined_iff _ _ uploads).mp hk.confined
  · intro hr
    refine ⟨(confined_iff _ _ uploads).mpr hr, fun u hu => ?_⟩
    obtain ⟨content, hcontent, _, hkept⟩ := created_kept h
    have hw := step_wellformed (reachable_wellformed hs) h
    rw [archiveAt, (run_kept hw hu hkept).content, Option.bind_some, hcontent]
    exact not_reserved_archive cfg.py hr

/-- An upload with a plain name. -/
theorem plain_upload_intact :
    ∃ t prepared, Platform.step Sample.cfg Platform.initial
        (.request (.create Sample.actor "k" [("acme/a.txt", [1])] none)) = some t ∧
      _prepare_folder_upload Sample.py Sample.cfg.settings.limits [("acme/a.txt", [1])] none =
        .ok prepared ∧
      Intact Sample.cfg t 0 prepared.archive := by
  obtain ⟨t, ht⟩ : ∃ t, Platform.step Sample.cfg Platform.initial
      (.request (.create Sample.actor "k" [("acme/a.txt", [1])] none)) = some t := ⟨_, rfl⟩
  refine ⟨t, ⟨"acme", [⟨"acme/a.txt", [1]⟩]⟩, ht, by decide, ?_⟩
  exact (archive_kept_iff Sample.cfg (.refl _) (by decide) ht).mpr (by decide)

/-- A leading dot gets an upload past the check: it is extracted over the archive. -/
theorem dot_upload_overwrites_archive :
    ∃ t prepared, Platform.step Sample.cfg Platform.initial
        (.request (.create Sample.actor "k" [("./.auto_upload_internal/original.zip", [1])] none)) =
          some t ∧
      _prepare_folder_upload Sample.py Sample.cfg.settings.limits
        [("./.auto_upload_internal/original.zip", [1])] none = .ok prepared ∧
      extractTo "tasks/0" prepared.archive ⟨"./.auto_upload_internal/original.zip", [1]⟩ =
        some ("tasks/0/.auto_upload_internal/original.zip".toList, [1]) ∧
      ¬Intact Sample.cfg t 0 prepared.archive := by
  obtain ⟨t, ht⟩ : ∃ t, Platform.step Sample.cfg Platform.initial
      (.request (.create Sample.actor "k" [("./.auto_upload_internal/original.zip", [1])] none)) =
        some t := ⟨_, rfl⟩
  refine ⟨t, ⟨".", [⟨"./.auto_upload_internal/original.zip", [1]⟩]⟩, ht, by decide, by decide, ?_⟩
  intro hi
  have := (confined_iff "tasks" 0 [("./.auto_upload_internal/original.zip".toList, [1])]).mp hi.confined
  exact absurd (this _ (List.mem_singleton_self _)) (by decide)

end FileDelivery.Proofs.ArchiveKept
