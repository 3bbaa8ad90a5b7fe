import FileDelivery.Proofs.ArchiveKept

namespace FileDelivery.Proofs.ItemNames
open FileDelivery.Library FileDelivery.Library.Runs FileDelivery.Control FileDelivery.Bridge
open FileDelivery.Control.Classifier FileDelivery.Proofs.Effects
open FileDelivery.Proofs.Archives FileDelivery.Proofs.ArchiveKept FileDelivery.Proofs.PlatformTables

/-- The profile makes an item of a file: it looks for its filters only in names without `..`. -/
def keeps (profile : ProfileConfig) (src_path : Text) : Bool :=
  _is_path_traversal src_path ||
    !(profile.entry_filters.ignored_filenames.contains (PurePosixPath.name src_path) ||
      profile.entry_filters.ignored_prefixes.any (·.isPrefixOf src_path))

/-- The path that an entry is listed under, if it becomes an item. -/
def itemName (py : Python) (profile : ProfileConfig) (info : ZipInfo) : Option Text :=
  let src_path := _decode_zip_filename py info
  if ['/'].isSuffixOf src_path then none
  else if keeps profile src_path then some src_path else none

def itemNames (py : Python) (profile : ProfileConfig) (archive : Archive) : List Text :=
  archive.filterMap (itemName py profile)

theorem destination_path
    (h : destination py profile info src_path filename ext raw m method = some item) :
    item.src_path = src_path := by
  obtain ⟨rendered, _, rfl⟩ := Option.map_eq_some_iff.mp h
  cases rendered <;> rfl

theorem destination_matched
    (h : destination py profile info src_path filename ext raw m method = some item) :
    item.target_name_matched = some m := by
  obtain ⟨rendered, _, rfl⟩ := Option.map_eq_some_iff.mp h
  cases rendered <;> rfl

/-- How an entry that is not ignored leaves the loop body. -/
inductive EntryExit (py : Python) (profile : ProfileConfig) (info : ZipInfo) (src_path : Text) :
    ClassifiedItem → Prop
  | traversal (h : _is_path_traversal src_path = true) :
      EntryExit py profile info src_path (errorItem info src_path (PurePosixPath.name src_path)
        (py.lower (PurePosixPath.suffix (PurePosixPath.name src_path))) [] none "path_traversal"
        ("Path traversal detected: ".toList ++ src_path))
  | unnamed (h : _is_path_traversal src_path = false)
      (hraw : _extract_target_raw profile src_path (PurePosixPath.name src_path) = .error code) :
      EntryExit py profile info src_path (errorItem info src_path (PurePosixPath.name src_path)
        (py.lower (PurePosixPath.suffix (PurePosixPath.name src_path))) [] none code
        "Could not determine target from filename")
  | unknown (h : _is_path_traversal src_path = false)
      (hraw : _extract_target_raw profile src_path (PurePosixPath.name src_path) = .ok raw)
      (htarget : target py profile raw = none) :
      EntryExit py profile info src_path (errorItem info src_path (PurePosixPath.name src_path)
        (py.lower (PurePosixPath.suffix (PurePosixPath.name src_path))) raw none "unknown_target"
        ("Target '".toList ++ raw ++ "' did not match any known target".toList))
  | placed (h : _is_path_traversal src_path = false)
      (hraw : _extract_target_raw profile src_path (PurePosixPath.name src_path) = .ok raw)
      (htarget : target py profile raw = some (matched, method))
      (hplaced : destination py profile info src_path (PurePosixPath.name src_path)
        (py.lower (PurePosixPath.suffix (PurePosixPath.name src_path))) raw matched method =
          some item) :
      EntryExit py profile info src_path item

theorem entry_exit (h : classify_entry py profile info src_path = some (.item item)) :
    EntryExit py profile info src_path item := by
  simp only [classify_entry] at h
  split at h
  · rename_i ht
    cases h
    exact .traversal ht
  · rename_i ht
    have ht := Bool.eq_false_iff.mpr ht
    split at h
    · cases h
    · split at h
      · cases h
      · split at h
        · rename_i hraw
          cases h
          exact .unnamed ht hraw
        · rename_i hraw
          split at h
          · rename_i htarget
            cases h
            exact .unknown ht hraw htarget
          · rename_i htarget
            obtain ⟨placed, hplaced, he⟩ := Option.map_eq_some_iff.mp h
            cases he
            exact .placed ht hraw htarget hplaced

/-- An entry is ignored, or becomes an item of its own path, as the filters say. -/
theorem classify_entry_cases (h : classify_entry py profile info src_path = some outcome) :
    (keeps profile src_path = false ∧ outcome = .ignored) ∨
      (keeps profile src_path = true ∧ ∃ item, outcome = .item item ∧ item.src_path = src_path) := by
  simp only [classify_entry] at h
  split at h
  · rename_i ht
    cases h
    exact .inr ⟨by simp [keeps, ht], _, rfl, rfl⟩
  · rename_i ht
    have ht := Bool.eq_false_iff.mpr ht
    split at h
    · rename_i hn
      cases h
      exact .inl ⟨by simp only [keeps, ht, hn]; rfl, rfl⟩
    · rename_i hn
      have hn := Bool.eq_false_iff.mpr hn
      split at h
      · rename_i hp
        cases h
        exact .inl ⟨by simp only [keeps, ht, hn, hp]; rfl, rfl⟩
      · rename_i hp
        have hp := Bool.eq_false_iff.mpr hp
        refine .inr ⟨by simp only [keeps, ht, hn, hp]; rfl, ?_⟩
        split at h
        · cases h
          exact ⟨_, rfl, rfl⟩
        · split at h
          · cases h
            exact ⟨_, rfl, rfl⟩
          · obtain ⟨item, hitem, rfl⟩ := Option.map_eq_some_iff.mp h
            exact ⟨item, rfl, destination_path hitem⟩

theorem classify_entries_names {archive : Archive} {items : List ClassifiedItem}
    (h : classify_entries py profile archive items summary = some (items', summary')) :
    items'.map (·.src_path) = items.map (·.src_path) ++ itemNames py profile archive := by
  induction archive generalizing items summary with
  | nil =>
    cases h
    simp [itemNames]
  | cons info rest ih =>
    simp only [classify_entries] at h
    split at h
    · rename_i hdir
      rw [ih h]
      simp [itemNames, itemName, hdir]
    · rename_i hdir
      obtain ⟨outcome, ho, h⟩ := Option.bind_eq_some_iff.mp h
      rcases classify_entry_cases ho with ⟨hk, rfl⟩ | ⟨hk, item, rfl, hpath⟩
      · rw [ih h]
        simp [itemNames, itemName, hdir, hk]
      · rw [ih h]
        simp [itemNames, itemName, hdir, hk, hpath]

theorem classified_names (h : classify_zip py profile archive = some (items, summary)) :
    items.map (·.src_path) = itemNames py profile archive := by
  obtain ⟨⟨all, counted⟩, hentries, he⟩ := Option.map_eq_some_iff.mp h
  cases he
  simpa using classify_entries_names hentries

theorem assignIds_paths (next : Nat) (rows : List TaskItem) :
    (ItemRepo.assignIds next rows).map TaskItem.src_path = rows.map TaskItem.src_path := by
  induction rows generalizing next with
  | nil => rfl
  | cons row rest ih => simp [ItemRepo.assignIds, ih]

def taskPaths (db : Db) (t : Nat) : List Text :=
  (db.items.filter (·.task_id == t)).map TaskItem.src_path

/-- The unique constraint, on the paths alone. -/
theorem insert_iff (db : Db) (t : Nat) (rows : List TaskItem) :
    (ItemRepo.bulk_insert db t rows).isSome ↔ (taskPaths db t ++ rows.map TaskItem.src_path).Nodup := by
  have hpaths : ((ItemRepo.assignIds db.next_id rows).map (fun i => { i with task_id := t })).map
      TaskItem.src_path = rows.map TaskItem.src_path := by
    rw [List.map_map]
    exact assignIds_paths db.next_id rows
  simp only [ItemRepo.bulk_insert, hpaths, taskPaths]
  split
  · rename_i h
    simp [h]
  · rename_i h
    simp [h]

/-- A row without its keys. -/
def unkeyed (item : TaskItem) : TaskItem := { item with id := 0, task_id := 0 }

theorem assignIds_unkeyed (next : Nat) (rows : List TaskItem) :
    (ItemRepo.assignIds next rows).map unkeyed = rows.map unkeyed := by
  induction rows generalizing next with
  | nil => rfl
  | cons row rest ih => simp [ItemRepo.assignIds, ih, unkeyed]

/-- An insert appends rows of the same content under new keys. -/
theorem insert_appends (h : ItemRepo.bulk_insert db t rows = some db') :
    ∃ new, db'.items = db.items ++ new ∧ db'.tasks = db.tasks ∧
      (∀ i ∈ new, i.task_id = t ∧ db.next_id ≤ i.id) ∧ new.map unkeyed = rows.map unkeyed ∧
      new.map TaskItem.src_path = rows.map TaskItem.src_path := by
  simp only [ItemRepo.bulk_insert] at h
  split at h
  · cases h
    refine ⟨_, rfl, rfl, ?_, ?_, ?_⟩
    · intro i hi
      obtain ⟨j, hj, rfl⟩ := List.mem_map.mp hi
      have hid : j.id ∈ (ItemRepo.assignIds db.next_id rows).map TaskItem.id := List.mem_map_of_mem hj
      rw [assignIds_ids] at hid
      exact ⟨rfl, (List.mem_range'_1.mp hid).1⟩
    · rw [List.map_map]
      exact assignIds_unkeyed db.next_id rows
    · rw [List.map_map]
      exact assignIds_paths db.next_id rows
  · cases h

theorem row_paths (items : List ClassifiedItem) :
    (items.map Tasks.itemRow).map TaskItem.src_path = items.map (·.src_path) := by
  rw [List.map_map]
  rfl

/-- Items with paths of their own, which a task can be given. -/
def Insertable (db : Db) (t : Nat) (items : List ClassifiedItem) : Prop :=
  (items.map (·.src_path)).Nodup ∧ (ItemRepo.bulk_insert db t (items.map Tasks.itemRow)).isSome

/-- No two files of the stored archive that the profile keeps end up under one name. -/
def DistinctNames (py : Python) (profile : ProfileConfig) (uploads : List (Text × Bytes)) : Prop :=
  ∀ archive ∈ storedArchive py uploads, (itemNames py profile archive).Nodup

instance (uploads : List (Text × Bytes)) : Decidable (DistinctNames py profile uploads) :=
  inferInstanceAs (Decidable (∀ archive ∈ storedArchive py uploads, _))

theorem created_archive (h : Platform.step cfg s (.request (.create actor key uploads label)) = some t) :
    archiveAt t (cfg.settings.task_dir_base ++ ['/'] ++ idText s.base.db.next_id) =
      storedArchive cfg.py uploads := by
  obtain ⟨content, hcontent, _, hkept⟩ := created_kept h
  rw [archiveAt, hkept.content, Option.bind_some, hcontent]

/-- A task that has just been created has no items. -/
theorem created_empty (ho : Owned s.base.db)
    (h : Platform.step cfg s (.request (.create actor key uploads label)) = some t) :
    taskPaths t.base.db s.base.db.next_id = [] := by
  have hitems : t.base.db.items = s.base.db.items := by
    cases platform_moves h with
    | requested base hb =>
      cases step_effect hb with
      | quiet _ hi _ => exact hi
      | created _ _ _ _ _ hi _ _ => exact hi
  have : t.base.db.items.filter (·.task_id == s.base.db.next_id) = [] := by
    rw [List.filter_eq_nil_iff]
    intro i hi
    have := ho i (hitems ▸ hi)
    simp only [beq_iff_eq]
    omega
  simp [taskPaths, this]

/-- A new task can be classified exactly when the names that the profile keeps stay apart
through sanitising and decoding. -/
theorem items_insertable_iff (cfg : Config) (hs : Run (Platform.step cfg) Free Platform.initial s)
    (h : Platform.step cfg s (.request (.create actor key uploads label)) = some t)
    (ha : archiveAt t (cfg.settings.task_dir_base ++ ['/'] ++ idText s.base.db.next_id) = some archive)
    (hz : classify_zip cfg.py profile archive = some (items, summary)) :
    Insertable t.base.db s.base.db.next_id items ↔ DistinctNames cfg.py profile uploads := by
  have hnames := classified_names hz
  have hempty := created_empty (reachable_owned hs).2 h
  rw [created_archive h] at ha
  have hdistinct : DistinctNames cfg.py profile uploads ↔ (itemNames cfg.py profile archive).Nodup := by
    simp [DistinctNames, ha]
  rw [Insertable, insert_iff, row_paths, hnames, hempty, List.nil_append, and_self, hdistinct]

/-- Two names of different files. -/
theorem distinct_names_insertable :
    ∃ t items summary, Platform.step Sample.cfg Platform.initial (.request (.create Sample.actor "k"
        [("acme/a.txt", [1]), ("acme/b.txt", [2])] none)) = some t ∧
      classify_zip Sample.py Sample.profile [⟨"acme/a.txt", [1]⟩, ⟨"acme/b.txt", [2]⟩] =
        some (items, summary) ∧ Insertable t.base.db 0 items := by
  obtain ⟨t, ht⟩ : ∃ t, Platform.step Sample.cfg Platform.initial (.request (.create Sample.actor "k"
      [("acme/a.txt", [1]), ("acme/b.txt", [2])] none)) = some t := ⟨_, rfl⟩
  obtain ⟨⟨items, summary⟩, hz⟩ : ∃ r, classify_zip Sample.py Sample.profile
      [⟨"acme/a.txt", [1]⟩, ⟨"acme/b.txt", [2]⟩] = some r := Option.isSome_iff_exists.mp (by decide)
  refine ⟨t, items, summary, ht, hz, ?_⟩
  exact (items_insertable_iff Sample.cfg (.refl _) ht ((created_archive ht).trans (by decide)) hz).mpr
    (by decide)

/-- A doubled slash makes a second name of the same file: the task exists, and no
classification of it can be stored. -/
theorem doubled_slash_never_classified :
    ∃ t items summary, Platform.step Sample.cfg Platform.initial (.request (.create Sample.actor "k"
        [("acme/a.txt", [1]), ("acme//a.txt", [2])] none)) = some t ∧
      archiveAt t "tasks/0" = some [⟨"acme/a.txt", [1]⟩, ⟨"acme/a.txt", [2]⟩] ∧
      classify_zip Sample.py Sample.profile [⟨"acme/a.txt", [1]⟩, ⟨"acme/a.txt", [2]⟩] =
        some (items, summary) ∧
      ¬(items.map (·.src_path)).Nodup ∧
      ItemRepo.bulk_insert t.base.db 0 (items.map Tasks.itemRow) = none := by
  obtain ⟨t, ht⟩ : ∃ t, Platform.step Sample.cfg Platform.initial (.request (.create Sample.actor "k"
      [("acme/a.txt", [1]), ("acme//a.txt", [2])] none)) = some t := ⟨_, rfl⟩
  obtain ⟨⟨items, summary⟩, hz⟩ : ∃ r, classify_zip Sample.py Sample.profile
      [⟨"acme/a.txt", [1]⟩, ⟨"acme/a.txt", [2]⟩] = some r := Option.isSome_iff_exists.mp (by decide)
  have hdup : ¬(items.map (·.src_path)).Nodup := by
    rw [classified_names hz]
    decide
  refine ⟨t, items, summary, ht, (created_archive ht).trans (by decide), hz, hdup, ?_⟩
  rw [← Option.not_isSome_iff_eq_none, insert_iff, row_paths]
  exact fun h => hdup (List.nodup_append.mp h).2.1

end FileDelivery.Proofs.ItemNames
