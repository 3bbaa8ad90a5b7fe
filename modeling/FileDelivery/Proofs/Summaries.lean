import FileDelivery.Proofs.Flow
import FileDelivery.Proofs.PlatformTables
import FileDelivery.Proofs.Reclassify
import FileDelivery.Proofs.SummaryCounts

namespace FileDelivery.Proofs.Summaries
open FileDelivery.Library FileDelivery.Library.Runs FileDelivery.Library.Fallible FileDelivery.Control
open FileDelivery.Control.Classifier FileDelivery.Bridge FileDelivery.Proofs.ApplyResult
open FileDelivery.Proofs.Effects FileDelivery.Proofs.Moves FileDelivery.Proofs.Tables
open FileDelivery.Proofs.Reclassify FileDelivery.Proofs.ItemNames FileDelivery.Proofs.PlatformTables
open FileDelivery.Proofs.SummaryCounts

/-- The flag of a summary tells whether an item of the archive is in error. -/
theorem flag_iff (h : classify_zip py profile archive = some (items, summary)) :
    summary.has_blocking_errors = true ↔ ∃ item ∈ items, item.severity = .error :=
  (classify_zip_describes h).has_blocking_errors

/-- The key of a task, its directory and its summary. -/
def shape (t : Task) : Nat × Text × Option ClassifySummary := (t.id, t.temp_dir, t.summary_json)

/-- Summaries stay as they are, and so does what items were classified as. -/
structure Keeps (a b : Db) : Prop where
  tasks : b.tasks.map shape = a.tasks.map shape
  items : b.items.map TaskItem.core = a.items.map TaskItem.core

theorem Keeps.of_same (ht : b.tasks = a.tasks) (hi : b.items = a.items) : Keeps a b :=
  ⟨by rw [ht], by rw [hi]⟩

theorem status_shape (db : Db) (t : Nat) (st : TaskStatus) (ten : Option String) (c f : Option Time) :
    (TaskRepo.update_status db t st ten c f).tasks.map shape = db.tasks.map shape := by
  unfold TaskRepo.update_status
  split
  · rfl
  · simp only
    exact Rows.update_map shape (fun _ => rfl)

/-- Writes of a retry touch neither. -/
theorem retry_keeps (db : Db) (r : WriteRequest) : Keeps db (Tasks.retry_write db r.actor r.task) := by
  obtain ⟨hquiet, hwrite, hitems, _⟩ := retry_tables db r
  refine ⟨?_, ?_⟩
  · by_cases hr : Reopens db r
    · rw [hwrite hr]
      exact Rows.update_map (f := Tasks.reopen r.task) shape (fun _ => rfl)
    · rw [hquiet hr]
  · rw [hitems, List.map_map]
    exact List.map_congr_left (fun i _ => resetRow_core db r i)

theorem confirm_keeps (db : Db) (actor : CurrentActor) (t : Nat) :
    Keeps db (Tasks.confirm_write db actor t) := by
  refine ⟨status_shape db t .confirmed (some actor.tenant_id) (some db.now) none, ?_⟩
  simp only [Tasks.confirm_write, append_items]
  rw [(update_status_same db t .confirmed (some actor.tenant_id) (some db.now) none).1]

theorem write_keeps (db : Db) (r : WriteRequest) : Keeps db (writeDb db r) := by
  unfold writeDb
  split
  · exact confirm_keeps db r.actor r.task.id
  · exact retry_keeps db r

theorem queue_keeps (settings : Settings) (db : Db) (actor : CurrentActor) (t n : Nat) :
    Keeps db (Tasks.queue_write settings db actor t n) := by
  refine ⟨status_shape db t .queued (some actor.tenant_id) none none, ?_⟩
  simp only [Tasks.queue_write, append_items]
  rw [(update_status_same db t .queued (some actor.tenant_id) none none).1]

theorem result_keeps (bucket : Text) (hn : (db.items.map TaskItem.id).Nodup)
    (m : DeliveryResultMessage) : Keeps db (apply_delivery_result bucket db m).1 := by
  refine ⟨?_, ?_⟩
  · rw [apply_tasks]
    exact Rows.update_map (f := settleTask m) shape (fun _ => rfl)
  · rcases apply_items_cases bucket hn m with ⟨_, hsame⟩ | hitems
    · rw [hsame]
    · rw [hitems, List.map_map]
      exact List.map_congr_left (fun i _ => settle_core)

/-- A classification of a task: the rows that it adds and the summary that it stores. -/
structure Classification (cfg : Config) (s s' : State) (t : Nat) (profile : ProfileConfig) : Prop where
  spec : ∃ task dir archive items summary new,
    Rows.find? s.db.tasks t = some task ∧ s.dirs task.temp_dir = some dir ∧
    dir.archive = some archive ∧ classify_zip cfg.py profile archive = some (items, summary) ∧
    (taskPaths s.db t ++ items.map (·.src_path)).Nodup ∧
    s'.db.items = s.db.items ++ new ∧ (∀ i ∈ new, i.task_id = t) ∧
    new.map unkeyed = items.map Tasks.itemRow ∧
    s'.db.tasks.map shape = (Rows.update s.db.tasks t (Tasks.setSummary summary)).map shape

/-- What a step does to summaries and classifications. -/
inductive Judgement (cfg : Config) (s s' : State) : Action → Prop
  | kept (h : Keeps s.db s'.db) : Judgement cfg s s' a
  | created (task : Task) (hid : task.id = s.db.next_id) (hsummary : task.summary_json = none)
      (ht : s'.db.tasks = s.db.tasks ++ [task]) (hi : s'.db.items = s.db.items) :
      Judgement cfg s s' (.create actor key uploads label)
  | classified (h : Classification cfg s s' t profile) : Judgement cfg s s' (.classify actor t profile)

theorem classify_judgement (h : Bridge.classify cfg s actor t profile = some s') :
    Classification cfg s s' t profile := by
  unfold Bridge.classify at h
  split at h
  · cases h
  · rename_i task hget
    split at h
    · cases h
    · rename_i dir hdir
      split at h
      · rename_i db hclassify
        cases h
        have hfind := (Option.filter_eq_some_iff.mp hget).1
        obtain ⟨archive, items, summary, inserted, harchive, hzip, _, hinsert, rfl⟩ :=
          classify_spec hclassify
        have hnodup := (insert_iff s.db t _).mp (by rw [hinsert]; rfl)
        obtain ⟨new, hitems, htasks, heach, hcontent, _⟩ := insert_appends hinsert
        refine ⟨task, dir, archive, items, summary, new, hfind, hdir, harchive, hzip, ?_, ?_,
          fun i hi => (heach i hi).1, ?_, ?_⟩
        · rwa [row_paths] at hnodup
        · simp only [append_items]
          rw [(update_status_same _ t .classified (some actor.tenant_id) none none).1]
          exact hitems
        · rw [hcontent, List.map_map]
          rfl
        · simp only [append_tasks]
          rw [status_shape]
          simp only [htasks]
      · cases h

theorem step_judgement (hn : (s.db.items.map TaskItem.id).Nodup) (h : step cfg s a = some s') :
    Judgement cfg s s' a := by
  cases step_moves h with
  | created db t dir hcreate =>
    obtain ⟨text, rfl, rfl⟩ := create_spec hcreate
    exact .created _ rfl rfl rfl rfl
  | classified dir db _ => exact .classified (classify_judgement h)
  | wrote r hr => exact .kept (write_keeps s.db r)
  | requested r u next hr hmove =>
    generalize r.stage = stage at hmove
    cases hmove with
    | committed => exact .kept (queue_keeps cfg.settings s.db r.actor r.task.id _)
    | _ => exact .kept (.of_same rfl rfl)
  | worked hmove =>
    have hdb := worker_db hmove
    exact .kept (.of_same (by rw [hdb]) (by rw [hdb]))
  | applied p hp => exact .kept (result_keeps _ hn p.message)
  | cleaned hmove =>
    cases hmove with
    | committed c hc =>
      obtain ⟨ht, hi, _⟩ := appends_frame c.events s.db
      exact .kept (.of_same ht hi)
    | _ => exact .kept (.of_same rfl rfl)
  | _ => exact .kept (.of_same rfl rfl)

/-- What a row and an item of an archive are compared by. -/
def judged (i : TaskItem) : Text × Severity := (i.src_path, i.severity)

/-- The summary of a task is that of its archive under its profile, and its rows are the items of
the archive; without a summary there are none. -/
def Accurate (cfg : Config) (profiles : Nat → ProfileConfig) (s : State) (t : Nat) (dir : Text) :
    Option ClassifySummary → Prop
  | none => taskRows s.db t = []
  | some summary => ∃ archive items, (s.dirs dir).bind (·.archive) = some archive ∧
      classify_zip cfg.py (profiles t) archive = some (items, summary) ∧
      (taskRows s.db t).map judged = items.map (fun item => (item.src_path, item.severity))

/-- Each task is classified with the profile that is fixed for it. -/
def Fixed (profiles : Nat → ProfileConfig) (_ : State) : Action → Prop
  | .classify _ t profile => profile = profiles t
  | _ => True

theorem rows_cores (h : b.items.map TaskItem.core = a.items.map TaskItem.core) (t : Nat) :
    (taskRows b t).map TaskItem.core = (taskRows a t).map TaskItem.core := by
  have hrows : ∀ db : Db, (taskRows db t).map TaskItem.core =
      (db.items.map TaskItem.core).filter (·.task_id == t) := by
    intro db
    rw [List.filter_map]
    rfl
  rw [hrows, hrows, h]

theorem rows_judged (h : b.items.map TaskItem.core = a.items.map TaskItem.core) (t : Nat) :
    (taskRows b t).map judged = (taskRows a t).map judged := by
  have hj : ∀ rows : List TaskItem, rows.map judged = (rows.map TaskItem.core).map judged := by
    intro rows
    rw [List.map_map]
    rfl
  rw [hj, rows_cores h, ← hj]

theorem Accurate.frame (h : Accurate cfg profiles s t dir summary)
    (hrows : (taskRows s'.db t).map judged = (taskRows s.db t).map judged)
    (hdir : s'.dirs dir = s.dirs dir) : Accurate cfg profiles s' t dir summary := by
  cases summary with
  | none =>
    have : taskRows s.db t = [] := h
    rw [this] at hrows
    exact List.map_eq_nil_iff.mp hrows
  | some summary =>
    obtain ⟨archive, items, harchive, hzip, hsame⟩ := h
    exact ⟨archive, items, by rw [hdir, harchive], hzip, hrows.trans hsame⟩

/-- The flag of an accurate summary tells whether a row of the task is in error. -/
theorem Accurate.flag (h : Accurate cfg profiles s t dir (some summary)) :
    summary.has_blocking_errors = true ↔
      ∃ i ∈ s.db.items, i.task_id = t ∧ i.severity = .error := by
  obtain ⟨archive, items, _, hzip, hrows⟩ := h
  rw [flag_iff hzip]
  constructor
  · intro h
    obtain ⟨item, hitem, herr⟩ := h
    have hmem : (item.src_path, item.severity) ∈ (taskRows s.db t).map judged :=
      hrows ▸ List.mem_map_of_mem hitem
    obtain ⟨row, hrow, he⟩ := List.mem_map.mp hmem
    obtain ⟨hrow, ht⟩ := List.mem_filter.mp hrow
    exact ⟨row, hrow, by simpa using ht, (congrArg Prod.snd he).trans herr⟩
  · intro h
    obtain ⟨row, hrow, ht, herr⟩ := h
    have hmem : judged row ∈ items.map (fun item => (item.src_path, item.severity)) :=
      hrows ▸ List.mem_map_of_mem (List.mem_filter.mpr ⟨hrow, by simpa using ht⟩)
    obtain ⟨item, hitem, he⟩ := List.mem_map.mp hmem
    exact ⟨item, hitem, (congrArg Prod.snd he).trans herr⟩

/-- A list that can be appended to itself without repetition is empty. -/
theorem nil_of_doubled {l : List α} (h : (l ++ l).Nodup) : l = [] := by
  cases l with
  | nil => rfl
  | cons a l => exact absurd rfl ((List.nodup_append.mp h).2.2 a List.mem_cons_self a List.mem_cons_self)

/-- What a classification of a task leaves, where its profile is fixed: an accurate summary, and
the one it had if it had one. -/
theorem Classification.accurate (hc : Classification cfg s s' t (profiles t))
    (hacc : ∀ task ∈ s.db.tasks, Accurate cfg profiles s task.id task.temp_dir task.summary_json)
    (hdirs : ∀ task ∈ s.db.tasks, s'.dirs task.temp_dir = s.dirs task.temp_dir) :
    ∃ task summary, Rows.find? s.db.tasks t = some task ∧
      s'.db.tasks.map shape = (Rows.update s.db.tasks t (Tasks.setSummary summary)).map shape ∧
      Accurate cfg profiles s' t task.temp_dir (some summary) ∧
      (∀ old ∈ task.summary_json, old = summary) := by
  obtain ⟨task, dir, archive, items, summary, new, hfind, hdir, harchive, hzip, hnodup, hitems, htask,
    hnew, hshape⟩ := hc.spec
  have hid : task.id = t := Rows.find_key hfind
  have hmem := Rows.find_mem hfind
  have harchive' : (s.dirs task.temp_dir).bind (·.archive) = some archive := by rw [hdir]; exact harchive
  have hrows : taskRows s'.db t = taskRows s.db t ++ new := by
    have hown : new.filter (·.task_id == t) = new :=
      List.filter_eq_self.mpr (fun i hi => by simpa using htask i hi)
    rw [taskRows, hitems, List.filter_append, hown, taskRows]
  have hjudged : new.map judged = items.map (fun item => (item.src_path, item.severity)) := by
    have hview : ∀ rows : List TaskItem, rows.map judged = (rows.map unkeyed).map judged := by
      intro rows
      rw [List.map_map]
      rfl
    rw [hview, hnew, List.map_map]
    rfl
  have hold := hacc task hmem
  rw [hid] at hold
  cases hsum : task.summary_json with
  | none =>
    rw [hsum] at hold
    have hempty : taskRows s.db t = [] := hold
    refine ⟨task, summary, hfind, hshape, ⟨archive, items, ?_, hzip, ?_⟩, by simp [hsum]⟩
    · rw [hdirs task hmem, harchive']
    · rw [hrows, hempty, List.nil_append, hjudged]
  | some old =>
    rw [hsum] at hold
    obtain ⟨archive', items', harchive'', hzip', hsame⟩ := hold
    obtain rfl : archive = archive' := Option.some.inj (harchive'.symm.trans harchive'')
    obtain ⟨rfl, rfl⟩ := Prod.mk.inj (Option.some.inj (hzip.symm.trans hzip'))
    -- The rows are already there: only an archive without items can be classified again.
    have hpaths : taskPaths s.db t = items.map (·.src_path) := by
      have := congrArg (List.map Prod.fst) hsame
      simpa [List.map_map, Function.comp_def, judged, taskPaths, taskRows] using this
    have hnone : items = [] := List.map_eq_nil_iff.mp (nil_of_doubled (hpaths ▸ hnodup))
    refine ⟨task, summary, hfind, hshape, ⟨archive, items, ?_, hzip, ?_⟩, by simp [hsum]⟩
    · rw [hdirs task hmem, harchive']
    · rw [hrows, List.map_append, hsame, hjudged, hnone]
      rfl

/-- The summaries of all tasks are accurate. -/
def AllAccurate (cfg : Config) (profiles : Nat → ProfileConfig) (s : State) : Prop :=
  ∀ task ∈ s.db.tasks, Accurate cfg profiles s task.id task.temp_dir task.summary_json

/-- A task's summary, once it has one. -/
def Summarised (s : State) (t : Nat) (summary : ClassifySummary) : Prop :=
  ∃ task ∈ s.db.tasks, task.id = t ∧ task.summary_json = some summary

theorem mem_shape {a b : List Task} (h : b.map shape = a.map shape) (hx : x ∈ b) :
    ∃ y ∈ a, shape y = shape x :=
  List.mem_map.mp (h ▸ List.mem_map_of_mem hx)

theorem rows_other {s s' : State} (hitems : s'.db.items = s.db.items ++ new)
    (htask : ∀ i ∈ new, i.task_id = t) (hne : k ≠ t) : taskRows s'.db k = taskRows s.db k := by
  have hnone : new.filter (·.task_id == k) = [] :=
    List.filter_eq_nil_iff.mpr (fun i hi => by simpa [htask i hi] using fun he => hne he.symm)
  rw [taskRows, hitems, List.filter_append, hnone, List.append_nil, taskRows]

/-- A summary that some row has, as the rows' shapes tell. -/
theorem Summarised.of_shape {rows : List Task} (h : s'.db.tasks.map shape = rows.map shape)
    (hx : x ∈ rows) (hsum : x.summary_json = some summary) : Summarised s' x.id summary := by
  obtain ⟨y, hy, hshape⟩ := mem_shape h.symm hx
  obtain ⟨hid, _, hsum'⟩ : y.id = x.id ∧ y.temp_dir = x.temp_dir ∧
      y.summary_json = x.summary_json := by simpa [shape] using hshape
  exact ⟨y, hy, hid, hsum'.trans hsum⟩

/-- A row with the shape of an old one, where the old task's rows are classified as before. -/
theorem AllAccurate.carried (hacc : AllAccurate cfg profiles s) (hold : old ∈ s.db.tasks)
    (hdir : s'.dirs old.temp_dir = s.dirs old.temp_dir) (hshape : shape old = shape task)
    (hrows : (taskRows s'.db old.id).map judged = (taskRows s.db old.id).map judged) :
    Accurate cfg profiles s' task.id task.temp_dir task.summary_json := by
  obtain ⟨hid, hdir', hsum⟩ : old.id = task.id ∧ old.temp_dir = task.temp_dir ∧
      old.summary_json = task.summary_json := by simpa [shape] using hshape
  rw [← hid, ← hdir', ← hsum]
  exact (hacc old hold).frame hrows hdir

/-- A classification writes the summary of one task and rows of that task. -/
theorem Classification.all_accurate (hw : Wellformed cfg s.db)
    (hc : Classification cfg s s' t (profiles t)) (hacc : AllAccurate cfg profiles s)
    (hdirs : ∀ task ∈ s.db.tasks, s'.dirs task.temp_dir = s.dirs task.temp_dir) :
    AllAccurate cfg profiles s' ∧ ∀ k summary, Summarised s k summary → Summarised s' k summary := by
  obtain ⟨_, _, _, _, _, _, _, _, _, _, _, hitems, htask, _⟩ := hc.spec
  obtain ⟨task, summary, hfind, hshape, hnew, hsame⟩ := hc.accurate hacc hdirs
  have hid : task.id = t := Rows.find_key hfind
  refine ⟨fun other hmem => ?_, ?_⟩
  · obtain ⟨old, hold, hs⟩ := mem_shape hshape hmem
    rcases Rows.mem_update_cases hw.task_ids hfind hold with rfl | ⟨hold, hne⟩
    · obtain ⟨hid', hdir', hsum'⟩ : task.id = other.id ∧ task.temp_dir = other.temp_dir ∧
          some summary = other.summary_json := by simpa [shape, Tasks.setSummary] using hs
      rw [← hid', ← hdir', ← hsum', hid]
      exact hnew
    · have hrows := rows_other (k := old.id) hitems htask hne
      exact hacc.carried hold (hdirs old hold) hs (by rw [hrows])
  · intro k old h
    obtain ⟨row, hrow, rfl, hsum⟩ := h
    by_cases hk : row.id = t
    · have hrt : row = task := Rows.eq_of_key hw.task_ids hrow (Rows.find_mem hfind) (hk.trans hid.symm)
      have hset : (Tasks.setSummary summary row).summary_json = some old := by
        rw [hsame old (hrt ▸ hsum)]
        rfl
      have hset := Summarised.of_shape hshape (Rows.mem_update_of_mem hrow hk) hset
      exact hset
    · exact .of_shape hshape (Rows.mem_update_of_ne hrow hk) hsum

theorem step_accurate (hw : Wellformed cfg s.db) (ho : Owned s.db) (h : step cfg s a = some s')
    (hfix : Fixed profiles s a) (hacc : AllAccurate cfg profiles s) :
    AllAccurate cfg profiles s' ∧ ∀ t summary, Summarised s t summary → Summarised s' t summary := by
  have hdirs : ∀ task ∈ s.db.tasks, s'.dirs task.temp_dir = s.dirs task.temp_dir :=
    fun task ht => (Flow.step_grows hw h).dirs ⟨task, ht, rfl, rfl, rfl⟩
  cases step_judgement hw.item_ids h with
  | kept hk =>
    refine ⟨fun task ht => ?_, ?_⟩
    · obtain ⟨old, hold, hshape⟩ := mem_shape hk.tasks ht
      exact hacc.carried hold (hdirs old hold) hshape (rows_judged hk.items old.id)
    · intro t summary h
      obtain ⟨task, ht, rfl, hsum⟩ := h
      exact .of_shape hk.tasks ht hsum
  | created draft hid hnone ht hi =>
    refine ⟨fun task hmem => ?_, ?_⟩
    · rcases List.mem_append.mp (ht ▸ hmem) with hmem | hmem
      · exact hacc.carried hmem (hdirs task hmem) rfl (by rw [taskRows, hi, taskRows])
      · obtain rfl := List.mem_singleton.mp hmem
        rw [hnone]
        refine List.filter_eq_nil_iff.mpr (fun i hmem => ?_)
        have := ho i (hi ▸ hmem)
        have : i.task_id ≠ task.id := by omega
        simpa using this
    · intro t summary h
      obtain ⟨task, hmem, hrest⟩ := h
      exact ⟨task, ht ▸ List.mem_append_left _ hmem, hrest⟩
  | classified hc =>
    rename_i t profile actor
    obtain rfl : profile = profiles t := hfix
    exact hc.all_accurate hw hacc hdirs

end FileDelivery.Proofs.Summaries
