import FileDelivery.Bridge.Replay
import FileDelivery.Library.Grouping
import FileDelivery.Library.Scan
import FileDelivery.Proofs.ArchiveKept
import Mathlib.Data.List.Induction

namespace FileDelivery.Proofs.UploadLimits
open FileDelivery.Library FileDelivery.Library.Fallible FileDelivery.Library.Runs FileDelivery.Library.Scan
open FileDelivery.Control FileDelivery.Control.FolderUpload FileDelivery.Proofs.Archives
open FileDelivery.Proofs.ArchivePaths

/-- The bytes of some uploads together. -/
def payload (uploads : List (Text × Bytes)) : Nat := (uploads.map (·.2.length)).sum

def payloadTooLarge (size : Nat) (limits : UploadLimits) : HTTPException :=
  ⟨413, "Folder payload too large: " ++ toString size ++ " bytes exceeds " ++
    toString limits.max_folder_payload_bytes⟩

/-- Why an upload that comes after some others is refused, if it is. -/
def refused (py : Python) (limits : UploadLimits) (before : List (Text × Bytes))
    (upload : Text × Bytes) : Option HTTPException :=
  if _safe_archive_name upload.1 = none then
    some ⟨400, "Unsafe folder path: " ++ py.repr upload.1⟩
  else if before.length + 1 > limits.max_file_count then
    some (tooManyFiles (before.length + 1) limits)
  else if payload before + upload.2.length > limits.max_folder_payload_bytes then
    some (payloadTooLarge (payload before + upload.2.length) limits)
  else none

/-- The entries of the uploads as they are handed to `zipfile`. -/
def rawEntries (uploads : List (Text × Bytes)) : Archive :=
  uploads.filterMap (fun u => (_safe_archive_name u.1).map (⟨·, u.2⟩))

theorem payload_append (before : List (Text × Bytes)) (upload : Text × Bytes) :
    payload (before ++ [upload]) = payload before + upload.2.length := by
  simp [payload]

/-- The loop over the uploads fails with the first upload that is refused. -/
theorem readUploads_scan (py : Python) (limits : UploadLimits)
    (before uploads : List (Text × Bytes)) (entries : Archive) :
    readUploads py limits uploads before.length (payload before) entries =
      (scan (refused py limits) before uploads).map (fun _ => entries ++ rawEntries uploads) := by
  induction uploads generalizing before entries with
  | nil => simp [readUploads, scan, rawEntries, Except.map]
  | cons upload rest ih =>
    obtain ⟨raw_name, data⟩ := upload
    rw [readUploads, scan]
    cases hname : _safe_archive_name raw_name with
    | none => simp [refused, hname, Except.map]
    | some name =>
      have hraw : rawEntries ((raw_name, data) :: rest) = ⟨name, data⟩ :: rawEntries rest := by
        simp [rawEntries, hname]
      by_cases hcount : before.length + 1 > limits.max_file_count
      · simp [refused, hname, hcount, Except.map]
      · by_cases hsize : payload before + data.length > limits.max_folder_payload_bytes
        · simp [refused, hname, hcount, hsize, Except.map, payloadTooLarge]
        · have hnext := ih (before ++ [(raw_name, data)]) (entries ++ [⟨name, data⟩])
          rw [payload_append, List.length_append, List.length_singleton] at hnext
          simp only [hcount, hsize, if_false, hnext, hraw]
          simp [refused, hname, hcount, hsize]

/-- All of the uploads pass the loop. -/
structure Readable (limits : UploadLimits) (uploads : List (Text × Bytes)) : Prop where
  safe : ∀ u ∈ uploads, _safe_archive_name u.1 ≠ none
  count : uploads.length ≤ limits.max_file_count
  size : payload uploads ≤ limits.max_folder_payload_bytes

theorem not_refused_iff : refused py limits before upload = none ↔
    _safe_archive_name upload.1 ≠ none ∧ before.length + 1 ≤ limits.max_file_count ∧
      payload before + upload.2.length ≤ limits.max_folder_payload_bytes := by
  unfold refused
  split
  · simp_all
  · split
    · simp_all
    · split <;> simp_all

theorem readable_snoc : Readable limits (before ++ [upload]) ↔
    Readable limits before ∧ refused py limits before upload = none := by
  rw [not_refused_iff]
  constructor
  · rintro ⟨hsafe, hcount, hsize⟩
    rw [List.length_append, List.length_singleton] at hcount
    rw [payload_append] at hsize
    refine ⟨⟨fun u hu => hsafe u (List.mem_append_left _ hu), by omega, by omega⟩, ?_, hcount, hsize⟩
    exact hsafe upload (List.mem_append_right _ (List.mem_singleton_self _))
  · rintro ⟨h, hsafe, hcount, hsize⟩
    refine ⟨fun u hu => ?_, by simpa using hcount, by simpa [payload_append] using hsize⟩
    rcases List.mem_append.mp hu with hu | hu
    · exact h.safe u hu
    · exact List.mem_singleton.mp hu ▸ hsafe

/-- As the counts only grow, the last upload decides about them. -/
theorem passes_iff (py : Python) (uploads : List (Text × Bytes)) :
    Passes (refused py limits) [] uploads ↔ Readable limits uploads := by
  induction uploads using List.reverseRecOn with
  | nil => exact ⟨fun _ => ⟨by simp, by simp, by simp [payload]⟩, fun _ => passes_nil⟩
  | append_singleton earlier upload ih =>
    rw [passes_snoc, ih, List.nil_append, readable_snoc]

theorem rawEntries_stored (uploads : List (Text × Bytes)) :
    (rawEntries uploads).map writestr = entriesOf uploads := by
  rw [rawEntries, entriesOf, List.map_filterMap]
  congr 1
  funext upload
  simp only [entryOf, storedName, Option.map_map]
  rfl

def archiveTooLarge (size : Nat) (limits : UploadLimits) : HTTPException :=
  ⟨413, "Generated internal archive too large: " ++ toString size ++ " bytes exceeds " ++
    toString limits.max_internal_archive_bytes⟩

/-- The label and the archive of uploads that pass. -/
def preparedFrom (uploads : List (Text × Bytes)) (submission_label : Option Text) : PreparedArchive where
  label := (submission_label.filter (· ≠ [])).getD
    (_folder_label ((rawEntries uploads).map (·.filename)))
  archive := entriesOf uploads

theorem prepare_spec (py : Python) (limits : UploadLimits) (uploads : List (Text × Bytes))
    (label : Option Text) :
    _prepare_folder_upload py limits uploads label =
      if uploads = [] then .error ⟨400, "Folder upload contains no files"⟩
      else (scan (refused py limits) [] uploads).bind (fun _ =>
        if py.zipSize (entriesOf uploads) > limits.max_internal_archive_bytes then
          .error (archiveTooLarge (py.zipSize (entriesOf uploads)) limits)
        else .ok (preparedFrom uploads label)) := by
  have hread := readUploads_scan py limits [] uploads []
  rw [List.length_nil, payload, List.map_nil, List.sum_nil, List.nil_append] at hread
  rw [_prepare_folder_upload, hread]
  cases scan (refused py limits) [] uploads with
  | error e => rfl
  | ok _ =>
    simp only [Except.map, Except.bind, rawEntries_stored]
    rfl

/-- The checks of extraction are no stricter than those on the way in. -/
theorem validate_fits {archive : Archive} (hcount : count + archive.length ≤ limits.max_file_count)
    (hsize : total + (archive.map (·.file_size)).sum ≤ limits.max_folder_payload_bytes) :
    validateEntries limits archive count total = .ok () := by
  induction archive generalizing count total with
  | nil => rfl
  | cons entry rest ih =>
    rw [List.length_cons] at hcount
    rw [List.map_cons, List.sum_cons] at hsize
    rw [validateEntries]
    split
    · exact ih (by omega) (by omega)
    · rw [if_neg (by omega), if_neg (by omega)]
      exact ih (by omega) (by omega)

theorem entriesOf_fits (uploads : List (Text × Bytes)) :
    (entriesOf uploads).length ≤ uploads.length ∧
      ((entriesOf uploads).map (·.file_size)).sum ≤ payload uploads := by
  induction uploads with
  | nil => simp [entriesOf, payload]
  | cons upload rest ih =>
    obtain ⟨hlength, hsum⟩ := ih
    simp only [entriesOf, payload, List.map_cons, List.sum_cons, List.length_cons] at hlength hsum ⊢
    rw [List.filterMap_cons]
    cases hentry : entryOf upload with
    | none =>
      simp only
      omega
    | some entry =>
      have hdata : entry.file_size = upload.2.length := by
        obtain ⟨name, _, rfl⟩ := Option.map_eq_some_iff.mp hentry
        rfl
      simp only [List.length_cons, List.map_cons, List.sum_cons, hdata]
      omega

/-- Where the files of an upload go, with the place of the internal archive. -/
def places (uploads : List (Text × Bytes)) : List (List Text) :=
  task_archive_path :: uploads.filterMap uploadPath

/-- No file stands where another one needs a directory. -/
def Placed (uploads : List (Text × Bytes)) : Prop :=
  ∀ p ∈ places uploads, ∀ q ∈ places uploads, p <+: q → p = q

theorem extracted_paths (uploads : List (Text × Bytes)) (archive : Archive) :
    ((entriesOf uploads).filterMap (extractEntry archive)).map Prod.fst =
      uploads.filterMap uploadPath := by
  rw [entriesOf, List.filterMap_filterMap, List.map_filterMap]
  congr 1
  funext upload
  simp only [entryOf, uploadPath]
  cases storedName upload.1 with
  | none => rfl
  | some name =>
    simp only [Option.map_some, Option.bind_some, extractEntry_path, Option.map_map]
    cases extractedPath name <;> rfl

theorem clash_iff (paths : List (List Text)) :
    paths.any (fun p => paths.any (clash p)) = true ↔
      ¬∀ p ∈ paths, ∀ q ∈ paths, p <+: q → p = q := by
  simp only [clash, List.any_eq_true, Bool.and_eq_true, List.isPrefixOf_iff_prefix, bne_iff_ne]
  push Not
  rfl

/-- What extraction makes of an archive that passed. -/
theorem extract_spec (h : Readable limits uploads) :
    (Placed uploads → _extract_internal_archive limits (entriesOf uploads) =
        .ok ((entriesOf uploads).filterMap (extractEntry (entriesOf uploads)))) ∧
      (¬Placed uploads → _extract_internal_archive limits (entriesOf uploads) =
        .error ⟨500, "Internal Server Error"⟩) := by
  obtain ⟨hlength, hsum⟩ := entriesOf_fits uploads
  have hvalid : validateEntries limits (entriesOf uploads) 0 0 = .ok () := by
    refine validate_fits ?_ ?_
    · exact (Nat.zero_add _).trans_le (hlength.trans h.count)
    · exact (Nat.zero_add _).trans_le (hsum.trans h.size)
  have hclash := clash_iff (places uploads)
  rw [_extract_internal_archive, hvalid]
  simp only [Except.bind, extracted_paths]
  constructor
  · intro hp
    exact if_neg (fun hc => hclash.mp hc hp)
  · intro hp
    exact if_pos (hclash.mpr hp)

/-- What is admitted as a new task. -/
structure Admitted (py : Python) (limits : UploadLimits) (uploads : List (Text × Bytes)) : Prop where
  some : uploads ≠ []
  readable : Readable limits uploads
  archive : py.zipSize (entriesOf uploads) ≤ limits.max_internal_archive_bytes
  placed : Placed uploads

/-- The error that uploads are refused with. -/
inductive Refusal (py : Python) (limits : UploadLimits) (uploads : List (Text × Bytes)) :
    HTTPException → Prop
  | empty (h : uploads = []) : Refusal py limits uploads ⟨400, "Folder upload contains no files"⟩
  | upload (h : uploads = earlier ++ upload :: later) (hbefore : Readable limits earlier)
      (hrefused : refused py limits earlier upload = some e) : Refusal py limits uploads e
  | archive (hsome : uploads ≠ []) (h : Readable limits uploads)
      (hsize : py.zipSize (entriesOf uploads) > limits.max_internal_archive_bytes) :
      Refusal py limits uploads (archiveTooLarge (py.zipSize (entriesOf uploads)) limits)
  | place (hsome : uploads ≠ []) (h : Readable limits uploads)
      (hsize : py.zipSize (entriesOf uploads) ≤ limits.max_internal_archive_bytes)
      (hplaced : ¬Placed uploads) : Refusal py limits uploads ⟨500, "Internal Server Error"⟩

/-- The checks of `create_task`, in the order in which it makes them. -/
def checked (py : Python) (limits : UploadLimits) (uploads : List (Text × Bytes))
    (label : Option Text) : Except HTTPException PreparedArchive :=
  (_prepare_folder_upload py limits uploads label).bind (fun prepared =>
    (_extract_internal_archive limits prepared.archive).map (fun _ => prepared))

theorem Admitted.checked (h : Admitted py limits uploads) (label : Option Text) :
    checked py limits uploads label = .ok (preparedFrom uploads label) := by
  have hspec := prepare_spec py limits uploads label
  have hpassed := scan_ok_iff.mpr ((passes_iff py uploads).mpr h.readable)
  simp only [if_neg h.some, hpassed, Except.bind, if_neg (Nat.not_lt.mpr h.archive)] at hspec
  rw [UploadLimits.checked, hspec, Except.bind, preparedFrom, (extract_spec h.readable).1 h.placed]
  rfl

/-- A refusal is the one that the checks report. -/
theorem Refusal.checked (h : Refusal py limits uploads e) (label : Option Text) :
    checked py limits uploads label = .error e := by
  have hspec := prepare_spec py limits uploads label
  have hpassed : Readable limits uploads → scan (refused py limits) [] uploads = .ok () :=
    fun hr => scan_ok_iff.mpr ((passes_iff py uploads).mpr hr)
  cases h with
  | empty h =>
    rw [if_pos h] at hspec
    rw [UploadLimits.checked, hspec]
    rfl
  | upload h hbefore hrefused =>
    have hscan := scan_error_iff.mpr ⟨_, _, _, h, (passes_iff py _).mpr hbefore, hrefused⟩
    rw [if_neg (by simp [h]), hscan] at hspec
    rw [UploadLimits.checked, hspec]
    rfl
  | archive hsome h hsize =>
    simp only [if_neg hsome, hpassed h, Except.bind, if_pos hsize] at hspec
    rw [UploadLimits.checked, hspec]
    rfl
  | place hsome h hsize hplaced =>
    simp only [if_neg hsome, hpassed h, Except.bind, if_neg (Nat.not_lt.mpr hsize)] at hspec
    rw [UploadLimits.checked, hspec, Except.bind, preparedFrom, (extract_spec h).2 hplaced]
    rfl

theorem admitted_or_refused (py : Python) (limits : UploadLimits) (uploads : List (Text × Bytes)) :
    Admitted py limits uploads ∨ ∃ e, Refusal py limits uploads e := by
  by_cases hsome : uploads = []
  · exact .inr ⟨_, .empty hsome⟩
  cases hscan : scan (refused py limits) [] uploads with
  | error e =>
    obtain ⟨earlier, upload, later, heq, hpass, hrefused⟩ := scan_error_iff.mp hscan
    exact .inr ⟨e, .upload heq ((passes_iff py earlier).mp hpass) hrefused⟩
  | ok _ =>
    have hread := (passes_iff py uploads).mp (scan_ok_iff.mp hscan)
    by_cases hsize : py.zipSize (entriesOf uploads) ≤ limits.max_internal_archive_bytes
    · by_cases hp : Placed uploads
      · exact .inl ⟨hsome, hread, hsize, hp⟩
      · exact .inr ⟨_, .place hsome hread hsize hp⟩
    · exact .inr ⟨_, .archive hsome hread (Nat.not_le.mp hsize)⟩

theorem checked_ok_iff (label : Option Text) :
    (∃ prepared, checked py limits uploads label = .ok prepared) ↔ Admitted py limits uploads := by
  constructor
  · rintro ⟨prepared, hok⟩
    rcases admitted_or_refused py limits uploads with h | ⟨e, h⟩
    · exact h
    · rw [h.checked label] at hok
      cases hok
  · exact fun h => ⟨_, h.checked label⟩

theorem checked_error_iff (label : Option Text) :
    checked py limits uploads label = .error e ↔ Refusal py limits uploads e := by
  constructor
  · intro herror
    rcases admitted_or_refused py limits uploads with h | ⟨x, h⟩
    · rw [h.checked label] at herror
      cases herror
    · rw [h.checked label] at herror
      exact Except.error.inj herror ▸ h
  · exact fun h => h.checked label

/-- Under a new key the outcome of `create_task` is that of its checks. -/
theorem create_checked (settings : Settings) (uploads : List (Text × Bytes)) (label : Option Text)
    (hactor : actor.can_write_tasks = true)
    (hkey : TaskRepo.get_by_idempotency_key db key (some actor.tenant_id) = none) :
    (∃ prepared db' task_id dir,
        checked py settings.limits (uploads.filter (fun u => u.1 ≠ [])) label = .ok prepared ∧
        Tasks.create_task py settings db actor key uploads label = .ok (.created db' task_id dir)) ∨
      ∃ e, checked py settings.limits (uploads.filter (fun u => u.1 ≠ [])) label = .error e ∧
        Tasks.create_task py settings db actor key uploads label = .error e := by
  simp only [Tasks.create_task, hactor, hkey, if_true, checked]
  cases hp : _prepare_folder_upload py settings.limits (uploads.filter (fun u => u.1 ≠ [])) label with
  | error e => exact .inr ⟨e, rfl, rfl⟩
  | ok prepared =>
    simp only [Except.bind]
    cases hf : _extract_internal_archive settings.limits prepared.archive with
    | error e => exact .inr ⟨e, rfl, rfl⟩
    | ok files => exact .inl ⟨prepared, _, _, _, rfl, rfl⟩

/-- Under a new key `create_task` makes a task of just the uploads that fit, and refuses others with
the error of the first check that fails; what its extraction checks again never fails. -/
theorem create_admits (py : Python) (settings : Settings) (db : Db) (actor : CurrentActor) (key : String)
    (uploads : List (Text × Bytes)) (label : Option Text) (hactor : actor.can_write_tasks = true)
    (hkey : TaskRepo.get_by_idempotency_key db key (some actor.tenant_id) = none) :
    ((∃ db' task_id dir, Tasks.create_task py settings db actor key uploads label =
        .ok (.created db' task_id dir)) ↔
      Admitted py settings.limits (uploads.filter (fun u => u.1 ≠ []))) ∧
    ∀ e, Tasks.create_task py settings db actor key uploads label = .error e ↔
      Refusal py settings.limits (uploads.filter (fun u => u.1 ≠ [])) e := by
  rcases create_checked settings uploads label hactor hkey with
    ⟨prepared, db', task_id, dir, hchecked, hcreate⟩ | ⟨e, hchecked, hcreate⟩
  · refine ⟨⟨fun _ => (checked_ok_iff label).mp ⟨_, hchecked⟩, fun _ => ⟨_, _, _, hcreate⟩⟩, fun e => ?_⟩
    rw [← checked_error_iff label, hchecked, hcreate]
    exact ⟨(by intro h; cases h), (by intro h; cases h)⟩
  · constructor
    · rw [← checked_ok_iff label, hchecked, hcreate]
      exact ⟨(by rintro ⟨_, _, _, h⟩; cases h), (by rintro ⟨_, h⟩; cases h)⟩
    · intro x
      rw [← checked_error_iff label, hchecked, hcreate]
      exact ⟨(by rintro ⟨⟩; rfl), (by rintro ⟨⟩; rfl)⟩

/-- One file fits where two are one too many. -/
theorem create_admits_one :
    (∃ db' task_id dir, Tasks.create_task Bridge.Sample.py { Bridge.Sample.cfg.settings with limits := ⟨1, 10, 10⟩ }
        Bridge.initial.db Bridge.Sample.actor "k" [("acme/a.txt", [1, 2])] none = .ok (.created db' task_id dir)) ∧
      Tasks.create_task Bridge.Sample.py { Bridge.Sample.cfg.settings with limits := ⟨1, 10, 10⟩ }
        Bridge.initial.db Bridge.Sample.actor "k" [("acme/a.txt", [1, 2]), ("acme/b.txt", [3])] none =
          .error ⟨413, "Too many files: 2 exceeds 1"⟩ := by
  have hone : Readable ⟨1, 10, 10⟩ [("acme/a.txt".toList, [1, 2])] :=
    ⟨by decide, by decide, by decide⟩
  constructor
  · refine (create_admits Bridge.Sample.py _ Bridge.initial.db Bridge.Sample.actor "k" _ none (by decide) rfl).1.mpr ?_
    exact ⟨by decide, hone, by decide, by unfold Placed; decide⟩
  · refine ((create_admits Bridge.Sample.py _ Bridge.initial.db Bridge.Sample.actor "k" _ none (by decide) rfl).2 _).mpr ?_
    exact .upload rfl hone (by decide)

theorem created_spec
    (h : Tasks.create_task py settings db actor key uploads label = .ok (.created db' task_id dir)) :
    ∃ named, Admitted py settings.limits named ∧
      dir = taskDir py (entriesOf named) ((entriesOf named).filterMap (extractEntry (entriesOf named))) := by
  refine ⟨uploads.filter (fun u => u.1 ≠ []), ?_⟩
  simp only [Tasks.create_task] at h
  split at h
  · split at h
    · cases h
    · obtain ⟨prepared, hprepared, h⟩ := bind_ok.mp h
      obtain ⟨files, hfiles, h⟩ := map_ok.mp h
      cases h
      have harchive := prepared_archive hprepared
      have hextracted := extracted_files hfiles
      rw [harchive] at hextracted
      refine ⟨(checked_ok_iff label).mp ⟨prepared, ?_⟩, by rw [harchive, hextracted]⟩
      rw [checked, hprepared, Except.bind, hfiles]
      rfl
  · cases h

/-- The paths of the files in a task's directory, each once. -/
def listing (dir : TaskDir) : List (List Text) := (dir.files.map Prod.fst).eraseDups

/-- The bytes that the files of a task's directory take up. -/
def usage (dir : TaskDir) : Nat :=
  ((listing dir).map (fun path => ((contentOf dir.files path).getD []).length)).sum

/-- A directory stays within the limits: its files in number and in size, and the archive beside
them, which no file of the upload has replaced. -/
structure Bounded (py : Python) (limits : UploadLimits) (dir : TaskDir) : Prop where
  count : (listing dir).length ≤ limits.max_file_count
  size : usage dir ≤ limits.max_folder_payload_bytes
  tree : ∀ p ∈ task_archive_path :: listing dir, ∀ q ∈ task_archive_path :: listing dir, p <+: q → p = q
  archive : task_archive_path ∉ listing dir →
    ∃ archive, dir.archive = some archive ∧ py.zipSize archive ≤ limits.max_internal_archive_bytes

/-- The content of a path is that of one of the uploads that go there. -/
theorem last_extracted (h : path ∈ uploads.filterMap uploadPath) :
    ∃ u ∈ uploads, uploadPath u = some path ∧ lastExtracted uploads path = some u.2 := by
  obtain ⟨u, hu, hpath⟩ := List.mem_filterMap.mp h
  have hsome : (uploads.reverse.find? (fun u => uploadPath u == some path)).isSome := by
    rw [List.find?_isSome]
    exact ⟨u, List.mem_reverse.mpr hu, by simpa using hpath⟩
  obtain ⟨v, hv⟩ := Option.isSome_iff_exists.mp hsome
  have hvpath : uploadPath v = some path := by simpa using List.find?_some hv
  refine ⟨v, List.mem_reverse.mp (List.mem_of_find?_eq_some hv), hvpath, ?_⟩
  rw [lastExtracted, hv, Option.map_some]

theorem none_extracted (h : path ∉ uploads.filterMap uploadPath) : lastExtracted uploads path = none := by
  rw [lastExtracted, Option.map_eq_none_iff, List.find?_eq_none]
  intro u hu hp
  exact h (List.mem_filterMap.mpr ⟨u, List.mem_reverse.mp hu, by simpa using hp⟩)

/-- Each file that is there is one of the uploads, another one for each path. -/
theorem extracted_usage (uploads : List (Text × Bytes)) :
    (uploads.filterMap uploadPath).eraseDups.length ≤ uploads.length ∧
      ((uploads.filterMap uploadPath).eraseDups.map
        (fun path => ((lastExtracted uploads path).getD []).length)).sum ≤ payload uploads := by
  have hchosen : ∀ path ∈ (uploads.filterMap uploadPath).eraseDups,
      ∃ u ∈ uploads, uploadPath u = some path ∧ lastExtracted uploads path = some u.2 :=
    fun path hp => last_extracted (List.mem_eraseDups.mp hp)
  choose! pick hpick hpath hbytes using hchosen
  have hapart : ∀ p ∈ (uploads.filterMap uploadPath).eraseDups,
      ∀ q ∈ (uploads.filterMap uploadPath).eraseDups, pick p = pick q → p = q := by
    intro p hp q hq he
    have hsame := hpath p hp
    rw [he, hpath q hq] at hsame
    exact (Option.some.inj hsame).symm
  obtain ⟨hcount, hsize⟩ := Grouping.chosen_sum (fun u : Text × Bytes => u.2.length) pick
    (Grouping.nodup_eraseDups _) hpick hapart
  refine ⟨hcount, (le_of_eq (congrArg List.sum (List.map_congr_left (fun path hp => ?_)))).trans hsize⟩
  rw [hbytes path hp, Option.getD_some]

theorem extracted_bounded (h : Admitted py limits uploads) :
    Bounded py limits (taskDir py (entriesOf uploads)
      ((entriesOf uploads).filterMap (extractEntry (entriesOf uploads)))) := by
  have hlisting : listing (taskDir py (entriesOf uploads)
      ((entriesOf uploads).filterMap (extractEntry (entriesOf uploads)))) =
        (uploads.filterMap uploadPath).eraseDups := by
    rw [listing, taskDir, extracted_paths]
  have hcontent := contentOf_uploads uploads
  have hplace : ∀ path ∈ task_archive_path :: (uploads.filterMap uploadPath).eraseDups,
      path ∈ places uploads := by
    intro path hp
    rcases List.mem_cons.mp hp with rfl | hp
    · exact List.mem_cons_self
    · exact List.mem_cons_of_mem _ (List.mem_eraseDups.mp hp)
  obtain ⟨hcount, hsize⟩ := extracted_usage uploads
  refine ⟨?_, ?_, ?_, ?_⟩
  · rw [hlisting]
    exact hcount.trans h.readable.count
  · rw [usage, hlisting, taskDir]
    simp only [hcontent]
    exact hsize.trans h.readable.size
  · rw [hlisting]
    exact fun p hp q hq => h.placed p (hplace p hp) q (hplace q hq)
  · rw [hlisting]
    intro hnone
    have habsent := none_extracted (fun hp => hnone (List.mem_eraseDups.mpr hp))
    exact ⟨entriesOf uploads, by rw [taskDir, hcontent, habsent], h.archive⟩

theorem created_bounded
    (h : Tasks.create_task py settings db actor key uploads label = .ok (.created db' task_id dir)) :
    Bounded py settings.limits dir := by
  obtain ⟨named, hadmitted, rfl⟩ := created_spec h
  exact extracted_bounded hadmitted

section Reachable
open FileDelivery.Bridge FileDelivery.Proofs.ArchiveKept FileDelivery.Proofs.Effects
open FileDelivery.Proofs.Moves FileDelivery.Proofs.PlatformTables FileDelivery.Proofs.Tables

/-- Only a new task gets a directory. -/
theorem step_dirs (h : Platform.step cfg s a = some t) (hp : t.base.dirs path = some dir) :
    s.base.dirs path = some dir ∨ ∃ actor key uploads label db',
      a = .request (.create actor key uploads label) ∧
      path = cfg.settings.task_dir_base ++ ['/'] ++ idText s.base.db.next_id ∧
      Tasks.create_task cfg.py cfg.settings s.base.db actor key uploads label =
        .ok (.created db' s.base.db.next_id dir) := by
  cases platform_moves h with
  | scheduled r _ ht => exact .inl (ht ▸ hp)
  | advanced run next _ _ _ ht => exact .inl (ht ▸ hp)
  | delivered => exact .inl hp
  | requested base hb =>
    cases step_moves hb with
    | created db k content hcreate =>
      obtain ⟨_, rfl, _⟩ := create_spec hcreate
      by_cases hpath : path = cfg.settings.task_dir_base ++ ['/'] ++ idText s.base.db.next_id
      · subst hpath
        have hsame : some content = some dir := (Function.update_self _ _ s.base.dirs).symm.trans hp
        cases hsame
        exact .inr ⟨_, _, _, _, _, rfl, rfl, hcreate⟩
      · exact .inl ((Function.update_of_ne hpath (some content) s.base.dirs).symm.trans hp)
    | requested r u next hr hmove =>
      generalize r.stage = stage at hmove
      cases hmove <;> exact .inl hp
    | worked hmove => cases hmove <;> exact .inl hp
    | cleaned hmove => cases hmove <;> exact .inl hp
    | _ => exact .inl hp

/-- A task is there from before, in the same directory, or has just been created. -/
theorem step_tasks (h : Platform.step cfg s a = some t) (hx : x ∈ t.base.db.tasks) :
    (∃ y ∈ s.base.db.tasks, y.temp_dir = x.temp_dir) ∨ ∃ actor key uploads label,
      a = .request (.create actor key uploads label) ∧
      x.temp_dir = cfg.settings.task_dir_base ++ ['/'] ++ idText s.base.db.next_id := by
  have hwrite : ∀ {k st f}, StatusWrite k st f s.base.db.tasks t.base.db.tasks →
      ∃ y ∈ s.base.db.tasks, y.temp_dir = x.temp_dir := by
    intro k st f hw
    obtain ⟨y, hy, _, _, hdir, _⟩ := hw.mem hx
    exact ⟨y, hy, hdir⟩
  have hsame : t.base.db.tasks = s.base.db.tasks → ∃ y ∈ s.base.db.tasks, y.temp_dir = x.temp_dir :=
    fun he => ⟨x, he ▸ hx, rfl⟩
  have happlied : ∀ m : DeliveryResultMessage,
      t.base.db = (apply_delivery_result cfg.settings.s3_bucket_name s.base.db m).1 →
      ∃ y ∈ s.base.db.tasks, y.temp_dir = x.temp_dir := by
    intro m hdb
    have hw := settle_write m s.base.db.tasks
    rw [← ApplyResult.apply_tasks cfg.settings.s3_bucket_name, ← hdb] at hw
    exact hwrite hw
  cases platform_moves h with
  | scheduled r _ _ hdb =>
    refine .inl (hsame ?_)
    rw [hdb]
    rfl
  | delivered => exact .inl (happlied _ rfl)
  | advanced run next action hr hm _ =>
    have hm := RunMoves.move_tasks hm
    refine .inl ?_
    split at hm
    · obtain ⟨g, hw⟩ := hm
      exact hwrite hw
    · obtain ⟨g, hw⟩ := hm
      exact hwrite hw
    · obtain ⟨st, g, _, hw⟩ := hm
      exact hwrite hw
    · obtain ⟨g, hw⟩ := hm
      exact hwrite hw
    · exact hsame hm
  | requested base hb =>
    cases step_effect hb with
    | quiet ht => exact .inl (hsame ht)
    | created task hid hst hdir ht =>
      rw [ht] at hx
      rcases List.mem_append.mp hx with hold | hnew
      · exact .inl ⟨x, hold, rfl⟩
      · obtain rfl := List.mem_singleton.mp hnew
        exact .inr ⟨_, _, _, _, rfl, hid ▸ hdir⟩
    | classified rows hids htask hpending ht =>
      obtain ⟨f, hw⟩ := ht
      exact .inl (hwrite hw)
    | confirmed r hr hkind ht =>
      obtain ⟨f, hw⟩ := ht
      exact .inl (hwrite hw)
    | retried r hr hkind hquiet hreopened =>
      by_cases hre : Reopens s.base.db r
      · obtain ⟨f, hw⟩ := hreopened hre
        exact .inl (hwrite hw)
      · exact .inl (hsame (hquiet hre))
    | queued r message hr hstage ht =>
      obtain ⟨f, hw⟩ := ht
      exact .inl (hwrite hw)
    | applied p hp hdb => exact .inl (happlied _ hdb)

/-- Every task has its directory, and every directory is within the limits. -/
structure Housed (cfg : Config) (s : Platform.State) : Prop where
  housed : ∀ task ∈ s.base.db.tasks, ∃ dir, s.base.dirs task.temp_dir = some dir
  bounded : ∀ path dir, s.base.dirs path = some dir → Bounded cfg.py cfg.settings.limits dir

theorem Housed.step (hw : Wellformed cfg s.base.db) (hh : Housed cfg s)
    (h : Platform.step cfg s a = some t) : Housed cfg t := by
  constructor
  · intro x hx
    rcases step_tasks h hx with ⟨y, hy, hdir⟩ | ⟨actor, key, uploads, label, rfl, hdir⟩
    · obtain ⟨dir, hold⟩ := hh.housed y hy
      have hkept := step_kept hw h ⟨⟨y, hy, rfl, rfl, rfl⟩, hold⟩
      exact ⟨dir, hdir ▸ hkept.content⟩
    · obtain ⟨dir, _, _, hkept⟩ := created_kept h
      exact ⟨dir, hdir ▸ hkept.content⟩
  · intro path dir hp
    rcases step_dirs h hp with hold | ⟨_, _, _, _, _, _, _, hcreate⟩
    · exact hh.bounded path dir hold
    · exact created_bounded hcreate

/-- In every state that the platform can reach each task has a directory that is within the limits,
whatever the requests, runs, results and cleanups have been. -/
theorem directories_bounded (cfg : Config) (h : Run (Platform.step cfg) Free Platform.initial s)
    (htask : task ∈ s.base.db.tasks) :
    ∃ dir, s.base.dirs task.temp_dir = some dir ∧ Bounded cfg.py cfg.settings.limits dir := by
  have hh : Housed cfg s := by
    refine h.invariant_given (Housed cfg) (fun s => Wellformed cfg s.base.db)
      (fun _ hr => reachable_wellformed hr) ?_ (fun s a t hw hi _ hs => hi.step hw hs)
    exact ⟨(by intro task hnone; cases hnone), (by intro path dir hnone; cases hnone)⟩
  obtain ⟨dir, hdir⟩ := hh.housed task htask
  exact ⟨dir, hdir, hh.bounded _ dir hdir⟩

/-- Two uploads of one path leave one file, with the bytes of the second. -/
theorem directories_bounded_twice :
    ∃ s dir, ∃ task ∈ s.base.db.tasks, Run (Platform.step Sample.cfg) Free Platform.initial s ∧
      s.base.dirs task.temp_dir = some dir ∧ usage dir = 1 ∧
      listing dir = [["acme".toList, "a.txt".toList]] ∧
      Bounded Sample.py Sample.cfg.settings.limits dir := by
  obtain ⟨s, hrun, task, htask, hfiles⟩ := replay_reaches (Platform.step Sample.cfg) Free
    (p := fun s => ∃ task ∈ s.base.db.tasks, (s.base.dirs task.temp_dir).any (fun dir =>
      usage dir == 1 && listing dir == [["acme".toList, "a.txt".toList]]) = true) Platform.initial
    [.request (.create Sample.actor "k" [("acme/a.txt", [1, 2]), ("acme//a.txt", [3])] none)] (by decide)
  obtain ⟨dir, hdir, hbounded⟩ := directories_bounded Sample.cfg hrun htask
  rw [hdir, Option.any_some, Bool.and_eq_true] at hfiles
  exact ⟨s, dir, task, htask, hrun, hdir, by simpa using hfiles.1, by simpa using hfiles.2, hbounded⟩

end Reachable

end FileDelivery.Proofs.UploadLimits
