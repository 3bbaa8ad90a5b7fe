import FileDelivery.Proofs.ItemNames

namespace FileDelivery.Proofs.SourcesAgree
open FileDelivery.Library FileDelivery.Library.Runs FileDelivery.Control FileDelivery.Bridge
open FileDelivery.Control.FolderUpload FileDelivery.Worker.Source
open FileDelivery.Proofs.Effects FileDelivery.Proofs.Tables FileDelivery.Proofs.Archives
open FileDelivery.Proofs.ArchiveKept FileDelivery.Proofs.ItemNames FileDelivery.Proofs.PlatformTables

/-- The path that an upload is listed under when it becomes an item. -/
def uploadName (py : Python) (upload : Text × Bytes) : Option Text :=
  (entryOf upload).map (Classifier._decode_zip_filename py)

/-- The file at a path below the task's directory. -/
def fileAt (dir : TaskDir) (src_path : Text) : Option Bytes :=
  contentOf dir.files (PurePosixPath.tail src_path)

/-- The resolver finds the archive under the reference, cached or stored. -/
def Serves (cache : Cache) (staging : Objects Archive) (source : Worker.SourceRef)
    (archive : Archive) : Prop :=
  staging (source.bucket, source.key) = some archive ∧
    (cache (cacheKey source) = none ∨ cache (cacheKey source) = some archive)

/-- One entry of the archive and one file bear the item's name, and both resolvers read
there what the client uploaded under it. -/
def Agrees (py : Python) (dir : TaskDir) (uploads : List (Text × Bytes)) (item : TaskItem) : Prop :=
  ∃ archive ∈ dir.archive, ∃ upload ∈ uploads, uploadName py upload = some item.src_path ∧
    (archive.filter (·.filename == item.src_path)).length = 1 ∧
    (fileAt dir item.src_path).isSome ∧
    (∀ ref cache staging source task, Serves cache staging source archive → task.source = some source →
      (resolveArchive cache staging task (itemToWorker (.ofItem ref item))).1 = .ok upload.2) ∧
    ∀ ref task, resolveFile (some dir) task (itemToWorker (.ofItem ref item)) = .ok upload.2

/-- The name of each item, once decoded, is the stored name of one entry with the bytes of
an upload of that name, and the last upload that is extracted to its path has them too. -/
def NamesAgree (py : Python) (profile : ProfileConfig) (uploads : List (Text × Bytes)) : Prop :=
  ∀ archive ∈ storedArchive py uploads, ∀ name ∈ itemNames py profile archive,
    ∃ upload ∈ uploads, uploadName py upload = some name ∧
      (archive.filter (·.filename == name)).map (·.data) = [upload.2] ∧
      lastExtracted uploads (PurePosixPath.tail name) = some upload.2

instance (uploads : List (Text × Bytes)) : Decidable (NamesAgree py profile uploads) :=
  inferInstanceAs (Decidable (∀ archive ∈ storedArchive py uploads, ∀ name ∈ _, ∃ upload ∈ uploads, _))

theorem entryName_item (ref : Option SourceRef) (item : TaskItem) :
    entryName (itemToWorker (.ofItem ref item)) = item.src_path := by
  unfold entryName
  cases ref with
  | none => simp [itemToWorker, DeliveryItemSpec.ofItem]
  | some ref =>
    split
    · rfl
    · rfl

theorem resolve_served (h : Serves cache staging source archive) (hs : task.source = some source) :
    (resolveArchive cache staging task item).1 = openEntry source item archive := by
  unfold resolveArchive getArchive
  rw [hs]
  rcases h with ⟨hstored, hcache | hcache⟩
  · simp [hcache, hstored]
  · simp [hcache]

/-- Something serves the archive, so that the resolver's answer can be read off. -/
theorem serves_exists (archive : Archive) :
    Serves (fun _ => none) (fun _ => some archive) ⟨"object", [], []⟩ archive :=
  ⟨rfl, .inl rfl⟩

theorem openEntry_ok : openEntry source item archive = .ok bytes ↔
    (archive.find? (·.filename == entryName item)).map (·.data) = some bytes := by
  unfold openEntry
  cases archive.find? (·.filename == entryName item) <;> simp

theorem resolveFile_ok {dir : TaskDir} : resolveFile (some dir) task item = .ok bytes ↔
    fileAt dir item.srcPath = some bytes := by
  unfold resolveFile fileAt
  rw [Option.bind_some]
  cases contentOf dir.files (PurePosixPath.tail item.srcPath) <;> simp

/-- The only entry of a name is the one that is found under it. -/
theorem single_entry {archive : Archive} {name : Text} {bytes : Bytes} :
    ((archive.filter (·.filename == name)).length = 1 ∧
      (archive.find? (·.filename == name)).map (·.data) = some bytes) ↔
      (archive.filter (·.filename == name)).map (·.data) = [bytes] := by
  rw [← List.head?_filter]
  cases archive.filter (·.filename == name) with
  | nil => simp
  | cons e rest => cases rest <;> simp

/-- The agreement about one item, in terms of the names. -/
theorem agrees_iff {dir : TaskDir} {item : TaskItem} {archive : Archive}
    (ha : dir.archive = some archive)
    (hf : ∀ path, contentOf dir.files path = lastExtracted uploads path) :
    Agrees py dir uploads item ↔ ∃ upload ∈ uploads, uploadName py upload = some item.src_path ∧
      (archive.filter (·.filename == item.src_path)).map (·.data) = [upload.2] ∧
      lastExtracted uploads (PurePosixPath.tail item.src_path) = some upload.2 := by
  constructor
  · rintro ⟨archive', ha', upload, hu, hname, hone, _, hzip, hfile⟩
    obtain rfl : archive = archive' := Option.some.inj (ha.symm.trans ha')
    refine ⟨upload, hu, hname, single_entry.mp ⟨hone, ?_⟩, ?_⟩
    · have hserves := serves_exists archive
      have := hzip none _ _ _ ⟨0, [], [], [], some ⟨"object", [], []⟩⟩ hserves rfl
      rw [resolve_served hserves rfl, openEntry_ok, entryName_item] at this
      exact this
    · have := resolveFile_ok.mp (hfile none ⟨0, [], [], [], none⟩)
      rwa [fileAt, hf] at this
  · rintro ⟨upload, hu, hname, hentry, hpath⟩
    obtain ⟨hone, hfind⟩ := single_entry.mpr hentry
    have hat : fileAt dir item.src_path = some upload.2 := (hf _).trans hpath
    refine ⟨archive, ha, upload, hu, hname, hone, by rw [hat]; rfl, ?_, ?_⟩
    · intro ref cache staging source task hserves hsource
      rw [resolve_served hserves hsource, openEntry_ok, entryName_item]
      exact hfind
    · intro ref task
      exact resolveFile_ok.mpr hat

/-- A classification reads the task's own directory, and adds rows for its archive. -/
theorem classify_adds (hw : Wellformed cfg s.base.db)
    (h : Platform.step cfg s (.request (.classify actor k profile)) = some u) :
    ∃ dir archive new, s.base.dirs (cfg.settings.task_dir_base ++ ['/'] ++ idText k) = some dir ∧
      dir.archive = some archive ∧ u.base.db.items = s.base.db.items ++ new ∧
      (∀ i ∈ new, i.task_id = k ∧ i ∉ s.base.db.items) ∧
      new.map TaskItem.src_path = itemNames cfg.py profile archive := by
  obtain ⟨base, hb, rfl⟩ := Option.map_eq_some_iff.mp h
  simp only [Bridge.step, Bridge.classify] at hb
  split at hb
  · cases hb
  · rename_i task htask
    split at hb
    · cases hb
    · rename_i dir hdir
      split at hb
      · rename_i db hclassify
        cases hb
        have hfind := (Option.filter_eq_some_iff.mp htask).1
        have hid : task.id = k := Rows.find_key hfind
        rw [hw.dirs task (Rows.find_mem hfind), hid] at hdir
        obtain ⟨archive, items, summary, inserted, harchive, hzip, _, hinsert, rfl⟩ :=
          classify_spec hclassify
        obtain ⟨new, hitems, _, heach, _, hpaths⟩ := insert_appends hinsert
        refine ⟨dir, archive, new, hdir, harchive, ?_, ?_, ?_⟩
        · rw [← hitems]
          exact (ApplyResult.update_status_same _ k .classified _ none none).1
        · intro i hi
          refine ⟨(heach i hi).1, fun hold => ?_⟩
          have := hw.item_fresh i hold
          have := (heach i hi).2
          omega
        · rw [hpaths, row_paths, classified_names hzip]
      · cases hb

/-- The rows that one classification adds agree with what the uploads left in the directory
exactly when the names do. -/
theorem added_agree_iff (hw : Wellformed cfg s.base.db)
    (hk : TaskKept k owner (cfg.settings.task_dir_base ++ ['/'] ++ idText k) (some content) s)
    (hcontent : content.archive = storedArchive cfg.py uploads)
    (hfiles : ∀ path, contentOf content.files path = lastExtracted uploads path)
    (h : Platform.step cfg s (.request (.classify actor k profile)) = some u) :
    (∃ dir, u.base.dirs (cfg.settings.task_dir_base ++ ['/'] ++ idText k) = some dir ∧
      ∀ i ∈ u.base.db.items, i ∉ s.base.db.items → Agrees cfg.py dir uploads i) ↔
      NamesAgree cfg.py profile uploads := by
  have hlast := step_kept hw h hk
  obtain ⟨dir, archive, new, hdir, harchive, hitems, hnew, hpaths⟩ := classify_adds hw h
  obtain rfl : content = dir := Option.some.inj (hk.content.symm.trans hdir)
  have hstored : storedArchive cfg.py uploads = some archive := hcontent.symm.trans harchive
  have hadded : ∀ i, i ∈ u.base.db.items ∧ i ∉ s.base.db.items ↔ i ∈ new := by
    intro i
    rw [hitems, List.mem_append]
    exact ⟨fun ⟨hm, hn⟩ => hm.resolve_left hn, fun hm => ⟨.inr hm, (hnew i hm).2⟩⟩
  constructor
  · rintro ⟨dir, hdir', hagree⟩
    obtain rfl : content = dir := Option.some.inj (hlast.content.symm.trans hdir')
    intro archive' ha name hname
    obtain rfl : archive = archive' := Option.some.inj (hstored.symm.trans ha)
    rw [← hpaths] at hname
    obtain ⟨i, hi, rfl⟩ := List.mem_map.mp hname
    obtain ⟨hmem, hout⟩ := (hadded i).mpr hi
    exact (agrees_iff harchive hfiles).mp (hagree i hmem hout)
  · intro hnames
    refine ⟨content, hlast.content, fun i hmem hout => ?_⟩
    have hname : i.src_path ∈ itemNames cfg.py profile archive :=
      hpaths ▸ List.mem_map_of_mem ((hadded i).mp ⟨hmem, hout⟩)
    exact (agrees_iff harchive hfiles).mpr (hnames archive hstored i.src_path hname)

/-- Whenever a new task is classified, all source paths agree about the items that this adds
exactly when the names of the uploads do. -/
theorem sources_agree_iff (cfg : Config) (hs : Run (Platform.step cfg) Free Platform.initial s)
    (h : Platform.step cfg s (.request (.create actor key uploads label)) = some t)
    (hrun : Run (Platform.step cfg) Free t t')
    (hc : Platform.step cfg t' (.request (.classify classifier s.base.db.next_id profile)) = some u) :
    (∃ dir, u.base.dirs (cfg.settings.task_dir_base ++ ['/'] ++ idText s.base.db.next_id) = some dir ∧
      ∀ i ∈ u.base.db.items, i ∉ t'.base.db.items → Agrees cfg.py dir uploads i) ↔
      NamesAgree cfg.py profile uploads := by
  have hw := step_wellformed (reachable_wellformed hs) h
  obtain ⟨content, hcontent, hfiles, hkept⟩ := created_kept h
  exact added_agree_iff (run_wellformed hw hrun) (run_kept hw hrun hkept) hcontent hfiles hc

/-- Files with plain names of their own. -/
theorem plain_names_agree :
    ∃ t u dir, Platform.step Sample.cfg Platform.initial (.request (.create Sample.actor "k"
        [("acme/a.txt", [1]), ("acme/b.txt", [2])] none)) = some t ∧
      Platform.step Sample.cfg t (.request (.classify Sample.actor 0 Sample.profile)) = some u ∧
      u.base.dirs "tasks/0" = some dir ∧ ∀ i ∈ u.base.db.items, i ∉ t.base.db.items →
        Agrees Sample.py dir [("acme/a.txt", [1]), ("acme/b.txt", [2])] i := by
  obtain ⟨t, u, ht, hu⟩ : ∃ t u, Platform.step Sample.cfg Platform.initial
        (.request (.create Sample.actor "k" [("acme/a.txt", [1]), ("acme/b.txt", [2])] none)) = some t ∧
      Platform.step Sample.cfg t (.request (.classify Sample.actor 0 Sample.profile)) = some u :=
    ⟨_, _, rfl, rfl⟩
  obtain ⟨dir, hdir, hagree⟩ :=
    (sources_agree_iff Sample.cfg (.refl _) ht (.refl _) hu).mpr (by decide)
  exact ⟨t, u, dir, ht, hu, hdir, hagree⟩

/-- A leading dot makes a second name of the same file: it is another entry of the archive,
but the file below the directory is written twice. -/
theorem dot_name_shares_file :
    ∃ t u, Platform.step Sample.cfg Platform.initial (.request (.create Sample.actor "k"
        [("acme/a.txt", [1]), ("./acme/a.txt", [2])] none)) = some t ∧
      Platform.step Sample.cfg t (.request (.classify Sample.actor 0 Sample.profile)) = some u ∧
      ¬∃ dir, u.base.dirs "tasks/0" = some dir ∧ ∀ i ∈ u.base.db.items, i ∉ t.base.db.items →
        Agrees Sample.py dir [("acme/a.txt", [1]), ("./acme/a.txt", [2])] i := by
  obtain ⟨t, u, ht, hu⟩ : ∃ t u, Platform.step Sample.cfg Platform.initial
        (.request (.create Sample.actor "k" [("acme/a.txt", [1]), ("./acme/a.txt", [2])] none)) = some t ∧
      Platform.step Sample.cfg t (.request (.classify Sample.actor 0 Sample.profile)) = some u :=
    ⟨_, _, rfl, rfl⟩
  have hw := step_wellformed (initial_wellformed Sample.cfg) ht
  obtain ⟨content, hcontent, hfiles, hkept⟩ := created_kept ht
  refine ⟨t, u, ht, hu, fun hagree => ?_⟩
  exact absurd ((added_agree_iff hw hkept hcontent hfiles hu).mp hagree) (by decide)

end FileDelivery.Proofs.SourcesAgree
