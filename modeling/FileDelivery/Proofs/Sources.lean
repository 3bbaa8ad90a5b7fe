import FileDelivery.Proofs.Flow

namespace FileDelivery.Proofs.Sources
open FileDelivery.Library FileDelivery.Library.Runs FileDelivery.Control FileDelivery.Bridge
open FileDelivery.Proofs.Moves FileDelivery.Proofs.Effects FileDelivery.Proofs.Tables
open FileDelivery.Proofs.Flow

/-- The directory of an item's task. -/
def dirOf (s : State) (i : TaskItem) : Option TaskDir :=
  (Rows.find? s.db.tasks i.task_id).bind (fun t => s.dirs t.temp_dir)

/-- The data of the archive entry that an item was classified from. -/
def sourceBytes (cfg : Config) (s : State) (i : TaskItem) : Option Bytes :=
  ((dirOf s i).bind (·.archive)).bind (fun archive =>
    (archive.find? (fun e => Classifier._decode_zip_filename cfg.py e == i.src_path)).map (·.data))

/-- What the workers read for an item: the entry under its path, or the file there. -/
def readable (cfg : Config) (s : State) (i : TaskItem) : Option Bytes :=
  (dirOf s i).bind (fun dir =>
    if cfg.archive_resolver then
      dir.archive.bind (fun archive => (archive.find? (·.filename == i.src_path)).map (·.data))
    else FolderUpload.contentOf dir.files (PurePosixPath.tail i.src_path))

/-- The archive of a known task. -/
def ArchiveOf (s : State) (t : Nat) (archive : Archive) : Prop :=
  ∃ owner dir, KnownTask s.db t owner dir ∧ (s.dirs dir).bind (·.archive) = some archive

/-- The reference of any round of a task, as the workers look it up. -/
def lookup (cfg : Config) (t : Nat) : Worker.SourceRef :=
  ⟨"object", cfg.settings.staging_bucket_name, Staging.stagingKey t⟩

/-- Staged objects and cached archives are those of their tasks. -/
structure Genuine (cfg : Config) (s : State) : Prop where
  staged : ∀ t archive, s.staging (cfg.settings.staging_bucket_name, Staging.stagingKey t) =
    some archive → ArchiveOf s t archive
  cached : ∀ w t archive, s.caches w (Worker.Source.cacheKey (lookup cfg t)) = some archive →
    ArchiveOf s t archive

theorem ArchiveOf.grow (g : Grows s s') (h : ArchiveOf s t archive) : ArchiveOf s' t archive := by
  obtain ⟨owner, dir, hk, ha⟩ := h
  exact ⟨owner, dir, g.tasks hk, by rw [g.dirs hk, ha]⟩

theorem lookup_injective
    (h : Worker.Source.cacheKey (lookup cfg t) = Worker.Source.cacheKey (lookup cfg t')) : t = t' :=
  Staging.stagingKey_injective (List.append_cancel_left h)

/-- A worker looks its archive up under the task's own reference. -/
theorem run_source (hm : Messages cfg s) (hr : RunFlow s run) (hs : run.task.source = some source) :
    ∃ m, s.messages[run.mid]? = some m ∧ run.task = toWorker m ∧ source = lookup cfg m.task_id := by
  obtain ⟨m, hmid, htask, _⟩ := hr.message
  refine ⟨m, hmid, htask, ?_⟩
  rw [htask] at hs
  obtain ⟨ref, href, rfl⟩ := Option.map_eq_some_iff.mp hs
  obtain ⟨archive, _, rfl⟩ := (hm m (List.mem_of_getElem? hmid)).source ref href
  rfl

/-- Fetching an archive adds a genuine one to the cache. -/
theorem fetched_genuine (h : Genuine cfg s) (w : Nat) (t : Nat) :
    (∀ archive, (Worker.Source.getArchive (s.caches w) s.staging (lookup cfg t)).1 = .ok archive →
      ArchiveOf s t archive) ∧
    ∀ t' archive, (Worker.Source.getArchive (s.caches w) s.staging (lookup cfg t)).2
      (Worker.Source.cacheKey (lookup cfg t')) = some archive → ArchiveOf s t' archive := by
  unfold Worker.Source.getArchive
  split
  · rename_i a ha
    refine ⟨fun archive he => ?_, fun t' archive => h.cached w t' archive⟩
    cases he
    exact h.cached w t a ha
  · split
    · rename_i a ha
      have hown := h.staged t a ha
      refine ⟨fun archive he => ?_, fun t' archive he => ?_⟩
      · cases he
        exact hown
      · by_cases ht : t' = t
        · subst ht
          simp only [Function.update_self, Option.some.injEq] at he
          exact he ▸ hown
        · have hne : Worker.Source.cacheKey (lookup cfg t') ≠ Worker.Source.cacheKey (lookup cfg t) :=
            fun hk => ht (lookup_injective hk)
          simp only [Function.update_of_ne hne] at he
          exact h.cached w t' archive he
    · refine ⟨fun archive he => ?_, fun t' archive => h.cached w t' archive⟩
      cases he

theorem resolved_caches (hm : Messages cfg s) (hr : RunFlow s run) (h : Genuine cfg s)
    (item : Worker.DeliveryItem) (w t : Nat) (archive : Archive)
    (hc : Function.update s.caches run.worker (resolve cfg s run item).2 w
      (Worker.Source.cacheKey (lookup cfg t)) = some archive) : ArchiveOf s t archive := by
  by_cases hw : w = run.worker
  · subst hw
    rw [Function.update_self] at hc
    unfold resolve at hc
    split at hc
    · unfold Worker.Source.resolveArchive at hc
      split at hc
      · exact h.cached _ t archive hc
      · rename_i source hsource
        obtain ⟨m, _, _, rfl⟩ := run_source hm hr hsource
        have hf := (fetched_genuine h run.worker m.task_id).2 t archive
        split at hc
        all_goals
          rename_i heq
          rw [heq] at hf
          exact hf hc
    · exact h.cached _ t archive hc
  · rw [Function.update_of_ne hw] at hc
    exact h.cached w t archive hc

theorem step_genuine (hi : Invariant cfg s) (hs : step cfg s a = some s') (h : Genuine cfg s) :
    Genuine cfg s' := by
  have g := step_grows hi.tables hs
  have same : (∀ t archive,
      s'.staging (cfg.settings.staging_bucket_name, Staging.stagingKey t) = some archive →
        s.staging (cfg.settings.staging_bucket_name, Staging.stagingKey t) = some archive) →
      s'.caches = s.caches → Genuine cfg s' := by
    intro hst hc
    refine ⟨fun t archive he => (h.staged t archive (hst t archive he)).grow g, ?_⟩
    intro w t archive he
    rw [hc] at he
    exact (h.cached w t archive he).grow g
  have deleted : ∀ p : Text × Text, s'.staging = s.staging.delete p.1 p.2 → ∀ t archive,
      s'.staging (cfg.settings.staging_bucket_name, Staging.stagingKey t) = some archive →
        s.staging (cfg.settings.staging_bucket_name, Staging.stagingKey t) = some archive := by
    intro p hdel t archive he
    rw [hdel] at he
    by_cases hp : (cfg.settings.staging_bucket_name, Staging.stagingKey t) = (p.1, p.2)
    · rw [hp, Objects.delete_self] at he
      cases he
    · rwa [Objects.delete_ne _ hp] at he
  cases step_moves hs with
  | requested r u next hfind hmove =>
    have hknown := (hi.requests.each r (Rows.find_mem hfind)).known
    generalize r.stage = stage at hmove
    cases hmove with
    | stored archive source harchive hsource =>
      refine ⟨?_, fun w t a he => (h.cached w t a he).grow g⟩
      intro t a he
      by_cases ht : t = r.task.id
      · subst ht hsource
        have hput := he.symm.trans (Objects.put_self _)
        cases hput
        exact ArchiveOf.grow g ⟨_, _, hknown, harchive⟩
      · subst hsource
        have hne : (cfg.settings.staging_bucket_name, Staging.stagingKey t) ≠
            (cfg.settings.staging_bucket_name, Staging.stagingKey r.task.id) :=
          fun hp => ht (Staging.stagingKey_injective (Prod.mk.inj hp).2)
        exact (h.staged t a ((Objects.put_ne _ hne).symm.trans he)).grow g
    | deleted =>
      rename_i source
      exact same (deleted (source.bucket, source.key) rfl) rfl
    | _ => exact same (fun _ _ he => he) rfl
  | worked hmove =>
    cases hmove with
    | item run item hfind hslot hitem =>
      refine ⟨fun t archive he => (h.staged t archive he).grow g, ?_⟩
      intro w t archive he
      exact (resolved_caches hi.messages (hi.work.runs run (Rows.find_mem hfind)) h item w t archive
        he).grow g
    | crashed run hfind =>
      refine ⟨fun t archive he => (h.staged t archive he).grow g, ?_⟩
      intro w t archive he
      by_cases hw : w = run.worker
      · subst hw
        simp at he
      · simp only [Function.update_of_ne hw] at he
        exact (h.cached w t archive he).grow g
    | _ => exact same (fun _ _ he => he) rfl
  | cleaned hmove =>
    cases hmove with
    | deleted c event rest target hc hcand htarget f => exact same (deleted target rfl) rfl
    | _ => exact same (fun _ _ he => he) rfl
  | _ => exact same (fun _ _ he => he) rfl

theorem reachable_genuine (h : Run (step cfg) ok initial s) : Genuine cfg s :=
  h.invariant_given (fun s => Genuine cfg s) (fun s => Invariant cfg s) (fun _ => reachable_flow)
    ⟨by simp [initial], by simp [initial]⟩ (fun _ _ _ hi hinv _ hs => step_genuine hi hs hinv)

/-- The row that an item of a run stands for. -/
theorem run_item {k : Nat} (hi : Invariant cfg s) (hr : run ∈ s.runs)
    (hitem : (Worker.Pipeline.uploadItems run.task)[k]? = some item) :
    ∃ m spec row, s.messages[run.mid]? = some m ∧ run.task = toWorker m ∧ m.items[k]? = some spec ∧
      item = itemToWorker spec ∧ Rows.find? s.db.items spec.item_id = some row ∧
      row.task_id = m.task_id ∧ row.dst_path = spec.dst_path ∧ row.src_path = spec.src_path ∧
      (spec.source_path = none ∨ spec.source_path = some row.src_path) := by
  obtain ⟨m, hmid, htask, _⟩ := (hi.work.runs run hr).message
  have hflow := hi.messages m (List.mem_of_getElem? hmid)
  rw [htask, worker_items hflow, List.getElem?_map] at hitem
  obtain ⟨spec, hspec, rfl⟩ := Option.map_eq_some_iff.mp hitem
  obtain ⟨items, hl, hitems⟩ := hflow.items
  have hspec' := hspec
  rw [hitems, List.getElem?_map] at hspec'
  obtain ⟨i, hget, rfl⟩ := Option.map_eq_some_iff.mp hspec'
  obtain ⟨ht, _, _, row, hrow, hcore⟩ := hl.each i (List.mem_of_getElem? hget)
  obtain ⟨hid, htask', hsrc, hdst, _⟩ := core_eq_fields hcore
  have hrid : row.id = i.id := hid
  refine ⟨m, _, row, hmid, htask, hspec, rfl, ?_, htask'.trans ht, hdst, hsrc, ?_⟩
  · have := Rows.find_of_mem hi.tables.item_ids hrow
    rw [item_key, hrid] at this
    exact this
  · rw [show row.src_path = i.src_path from hsrc]
    simp only [DeliveryItemSpec.ofItem]
    split
    · exact .inr rfl
    · exact .inl rfl

/-- A row of a known task finds the task's directory. -/
theorem dirOf_known (hw : Wellformed cfg s.db) (hk : KnownTask s.db t owner dir)
    (ht : row.task_id = t) : dirOf s row = s.dirs dir := by
  obtain ⟨task, hmem, hid, _, rfl⟩ := hk
  have hfind := Rows.find_of_mem hw.task_ids hmem
  rw [task_key, hid, ← ht] at hfind
  simp [dirOf, hfind]

/-- What a worker resolves is what is readable for the row. -/
theorem resolved_readable {k : Nat} (hi : Invariant cfg s) (hg : Genuine cfg s) (hr : run ∈ s.runs)
    (hitem : (Worker.Pipeline.uploadItems run.task)[k]? = some item)
    (hres : (resolve cfg s run item).1 = .ok bytes) :
    ∃ row, Rows.find? s.db.items (ofIdText item.itemId) = some row ∧ row.dst_path = item.dstPath ∧
      readable cfg s row = some bytes := by
  obtain ⟨m, spec, row, hmid, htask, _, rfl, hfind, ht, hdst, hsrc, hsource⟩ := run_item hi hr hitem
  obtain ⟨owner, hknown⟩ := (hi.messages m (List.mem_of_getElem? hmid)).known
  have hdir := dirOf_known hi.tables hknown ht
  refine ⟨row, by simpa [itemToWorker] using hfind, hdst, ?_⟩
  unfold resolve at hres
  unfold readable
  split at hres
  · rename_i hmode
    have hname : Worker.Source.entryName (itemToWorker spec) = row.src_path := by
      rcases hsource with hn | hn
      · simp [Worker.Source.entryName, itemToWorker, hn, hsrc]
      · simp only [Worker.Source.entryName, itemToWorker, hn, Option.getD_some]
        split
        · rename_i he
          rw [← hsrc]
        · rfl
    unfold Worker.Source.resolveArchive at hres
    split at hres
    · cases hres
    · rename_i source hs
      obtain ⟨m', hmid', _, rfl⟩ := run_source hi.messages (hi.work.runs run hr) hs
      cases hmid.symm.trans hmid'
      have hf := (fetched_genuine hg run.worker m.task_id).1
      split at hres
      · cases hres
      · rename_i archive cache heq
        rw [heq] at hf
        obtain ⟨owner', dir', hknown', harchive⟩ := hf archive rfl
        obtain ⟨_, rfl⟩ := known_unique hi.tables hknown hknown'
        unfold Worker.Source.openEntry at hres
        rw [hname] at hres
        obtain ⟨d, hd, ha⟩ := Option.bind_eq_some_iff.mp harchive
        simp only at hres
        split at hres
        · rename_i entry hentry
          cases hres
          simp [hdir, hd, hmode, ha, hentry]
        · cases hres
  · rename_i hmode
    unfold Worker.Source.resolveFile at hres
    split at hres
    · rename_i content hcontent
      cases hres
      rw [htask] at hcontent
      obtain ⟨d, hd, hc⟩ := Option.bind_eq_some_iff.mp hcontent
      have hpath : (itemToWorker spec).srcPath = row.src_path := hsrc.symm
      simp only [toWorker] at hd
      rw [hpath] at hc
      simp [hdir, hd, hmode, hc]
    · cases hres

/-- A row keeps its source bytes. -/
theorem sourceBytes_grow (g : Grows s s') (hw' : Wellformed cfg s'.db)
    (hcore : row'.core = row.core) (h : sourceBytes cfg s row = some bytes) :
    sourceBytes cfg s' row' = some bytes := by
  obtain ⟨_, htask, hsrc, _, _⟩ := core_eq_fields hcore
  obtain ⟨archive, harchive, hentry⟩ := Option.bind_eq_some_iff.mp h
  obtain ⟨d, hd, ha⟩ := Option.bind_eq_some_iff.mp harchive
  obtain ⟨task, hfind, hdir⟩ := Option.bind_eq_some_iff.mp hd
  have hknown : KnownTask s.db row.task_id task.owner_tenant_id task.temp_dir :=
    ⟨task, Rows.find_mem hfind, Rows.find_key hfind, rfl, rfl⟩
  have hdir' := dirOf_known hw' (g.tasks hknown) htask
  unfold sourceBytes
  rw [hdir', g.dirs hknown, hdir, Option.bind_some, ha, Option.bind_some, hsrc]
  exact hentry

end FileDelivery.Proofs.Sources
