import FileDelivery.Bridge.Backends
import FileDelivery.Library.Runs
import FileDelivery.Proofs.RunSteps
import Mathlib.Algebra.GroupWithZero.Nat
import Mathlib.Algebra.Order.BigOperators.Group.List
import Mathlib.Algebra.Order.Group.Nat

namespace FileDelivery.Proofs.PythonBackend
open FileDelivery.Library FileDelivery.Library.Runs FileDelivery.Control
open FileDelivery.Control.TaskRunner FileDelivery.Bridge FileDelivery.Bridge.Backends
open FileDelivery.Proofs.RunMoves FileDelivery.Proofs.RunSteps

variable {fs : FileSystem} {cwd : List Text} {db : Db} {t rid : Nat} {s s' : PythonRun}

/-- The bytes that the open of an item's source reads. -/
def source (fs : FileSystem) (cwd : List Text) (item : TaskItem) : Option Bytes :=
  fs (locate cwd item.src_path)

/-- How the open of an item's source has come out, once its coroutine is at a stage. -/
def Fate (fs : FileSystem) (cwd : List Text) (item : TaskItem) : ItemStage → Prop
  | .waiting | .marked => True
  | .stored | .delivered | .ended true => (source fs cwd item).isSome
  | .raised _ | .reported | .ended false => source fs cwd item = none
  | .escaped => False

/-- The `upload_file` of an item has returned. -/
def ItemStage.hasStored : ItemStage → Bool
  | .stored | .delivered | .ended true => true
  | _ => false

/-- The objects of the items whose upload has returned. -/
def StoredBy (fs : FileSystem) (cwd : List Text) (items : List ItemRun) (put : Text × Bytes) : Prop :=
  ∃ c ∈ items, ItemStage.hasStored c.stage = true ∧ c.item.dst_path = put.1 ∧
    source fs cwd c.item = some put.2

/-- What a run holds at each of its stages. -/
def AtStage (db : Db) (t : Nat) (s : PythonRun) : RunStage → Prop
  | .starting | .checked => s.db = db ∧ s.run.items = []
  | .started => s.db.items = db.items ∧ s.run.items = []
  | .idle _ => uploadable db t = [] ∧ s.run.items = []
  | .planned items => items = uploadable db t ∧ s.db.items = db.items ∧ s.run.items = []
  | .working => s.run.items.map (·.item) = uploadable db t
  | .finished | .ended => s.run.items.map (·.item) = uploadable db t ∧
      ∀ c ∈ s.run.items, c.stage.over = true
  | .failing _ => False

/-- The invariant of a run whose calls succeed, started on the database `db`. -/
structure Works (fs : FileSystem) (cwd : List Text) (db : Db) (t : Nat) (s : PythonRun) : Prop where
  task : s.run.task_id = t
  rows : (s.db.items.map TaskItem.id).Nodup
  ids : (s.run.items.map (·.item.id)).Nodup
  shown : ∀ c ∈ s.run.items, ∃ row ∈ s.db.items, row.id = c.item.id ∧ Shows c.stage row.upload_status
  fate : ∀ c ∈ s.run.items, Fate fs cwd c.item c.stage
  puts : ∀ put, put ∈ s.puts ↔ StoredBy fs cwd s.run.items put
  stage : AtStage db t s s.run.stage

theorem scheduled_works (hn : (db.items.map TaskItem.id).Nodup) :
    Works fs cwd db t (scheduled db rid t) := by
  refine ⟨rfl, hn, .nil, by simp [scheduled], by simp [scheduled], ?_, rfl, rfl⟩
  intro put
  simp [scheduled, StoredBy]

theorem uploadable_same {db' : Db} (h : db'.items = db.items) : uploadable db' t = uploadable db t := by
  simp only [uploadable, ItemRepo.list_by_task, ItemRepo.ownerAllows, h]

/-- The stages between which a run does nothing to its items. -/
theorem Works.moved {run : TaskRun} {db' : Db} (h : Works fs cwd db t s) (hi : db'.items = s.db.items)
    (ht : run.task_id = s.run.task_id) (hr : run.items = s.run.items)
    (hst : AtStage db t ⟨db', run, s.puts⟩ run.stage) : Works fs cwd db t ⟨db', run, s.puts⟩ := by
  refine ⟨ht.trans h.task, ?_, ?_, ?_, ?_, ?_, hst⟩
  · exact hi ▸ h.rows
  · exact hr ▸ h.ids
  · simpa only [hr, hi] using h.shown
  · simpa only [hr] using h.fate
  · simpa only [hr] using h.puts

/-- An item's coroutine whose calls succeed; its open fails where there is no file. -/
def ItemServed (fs : FileSystem) (cwd : List Text) (c : ItemRun) : ItemAction → Prop
  | .store data => source fs cwd c.item = some data
  | .raise _ => c.stage = .marked ∧ source fs cwd c.item = none
  | .escape => False
  | _ => True

theorem served_item {item_id : Nat} {action : ItemAction} {c : ItemRun}
    (h : Served fs cwd s (.item item_id action)) (hfind : Rows.find? s.run.items item_id = some c) :
    ItemServed fs cwd c action := by
  cases action with
  | store data => exact h c hfind
  | raise e => exact h c hfind
  | escape => exact h
  | _ => trivial

/-- What a step of an item's coroutine does to its fate, and to what it has stored. -/
theorem fate_step {c : ItemRun} {db' : Db} {stage : ItemStage} {action : ItemAction}
    (hok : ItemServed fs cwd c action) (h : _upload_item db c.item c.stage action = some (db', stage))
    (hf : Fate fs cwd c.item c.stage) :
    Fate fs cwd c.item stage ∧
      ((∃ data, action = .store data ∧ ItemStage.hasStored c.stage = false ∧
          ItemStage.hasStored stage = true) ∨
        (∀ data, action ≠ .store data) ∧ ItemStage.hasStored stage = ItemStage.hasStored c.stage) := by
  obtain ⟨item, old⟩ := c
  cases action with
  | store data =>
    cases old <;> cases h
    exact ⟨Option.isSome_iff_exists.mpr ⟨data, hok⟩, .inl ⟨data, rfl, rfl, rfl⟩⟩
  | raise e =>
    obtain ⟨hst, hnone⟩ := hok
    cases hst
    cases h
    exact ⟨hnone, .inr ⟨fun _ he => ItemAction.noConfusion he, rfl⟩⟩
  | escape => exact hok.elim
  | mark | done | publish | fail | report =>
    cases old <;> cases h
    all_goals exact ⟨hf, .inr ⟨fun _ he => ItemAction.noConfusion he, rfl⟩⟩

/-- The objects after a step of an item's coroutine. -/
theorem Works.item_puts {item_id : Nat} {action : ItemAction} {c : ItemRun} {db' : Db}
    {stage : ItemStage} (h : Works fs cwd db t s) (hok : Served fs cwd s (.item item_id action))
    (hfind : Rows.find? s.run.items item_id = some c)
    (hu : _upload_item s.db c.item c.stage action = some (db', stage)) (put : Text × Bytes) :
    put ∈ putsAfter s (.item item_id action) ↔
      StoredBy fs cwd (Rows.update s.run.items item_id (fun c => { c with stage := stage })) put := by
  have hc := Rows.find_mem hfind
  have hkey : c.item.id = item_id := Rows.find_key hfind
  have hserved := served_item hok hfind
  have hcases : ∀ q ∈ Rows.update s.run.items item_id (fun c => { c with stage := stage }),
      q = { c with stage := stage } ∨ q ∈ s.run.items ∧ q.item.id ≠ item_id :=
    fun q hq => Rows.mem_update_cases h.ids hfind hq
  have hnew := Rows.mem_update_of_mem (f := fun c : ItemRun => { c with stage := stage }) hc hkey
  have hother : ∀ q ∈ s.run.items, q = c ∨
      q ∈ Rows.update s.run.items item_id (fun c => { c with stage := stage }) := by
    intro q hq
    by_cases he : q.item.id = item_id
    · exact .inl (Rows.eq_of_key h.ids hq hc (he.trans hkey.symm))
    · exact .inr (Rows.mem_update_of_ne hq he)
  rcases (fate_step hserved hu (h.fate c hc)).2 with ⟨data, rfl, hold, hst⟩ | ⟨hno, hst⟩
  · have hputs : putsAfter s (.item item_id (.store data)) = s.puts ++ [(c.item.dst_path, data)] := by
      simp [putsAfter, hfind]
    rw [hputs, List.mem_append, List.mem_singleton, h.puts]
    constructor
    · rintro (⟨q, hq, hqst, hrest⟩ | rfl)
      · rcases hother q hq with rfl | hq
        · exact absurd hqst (by simp [hold])
        · exact ⟨q, hq, hqst, hrest⟩
      · exact ⟨_, hnew, hst, rfl, hserved⟩
    · intro h
      obtain ⟨q, hq, hqst, hdst, hsrc⟩ := h
      rcases hcases q hq with rfl | ⟨hq, _⟩
      · refine .inr (Prod.ext hdst.symm ?_)
        exact Option.some.inj (hsrc.symm.trans hserved)
      · exact .inl ⟨q, hq, hqst, hdst, hsrc⟩
  · have hputs : putsAfter s (.item item_id action) = s.puts := by
      cases action with
      | store data => exact absurd rfl (hno data)
      | _ => rfl
    rw [hputs, h.puts]
    constructor
    · intro h
      obtain ⟨q, hq, hqst, hrest⟩ := h
      rcases hother q hq with rfl | hq
      · exact ⟨_, hnew, hst.trans hqst, hrest⟩
      · exact ⟨q, hq, hqst, hrest⟩
    · intro h
      obtain ⟨q, hq, hqst, hrest⟩ := h
      rcases hcases q hq with rfl | ⟨hq, _⟩
      · exact ⟨c, hc, hst.symm.trans hqst, hrest⟩
      · exact ⟨q, hq, hqst, hrest⟩

/-- One step of an item, from the run's point of view. -/
theorem Works.item {item_id : Nat} {action : ItemAction} {c : ItemRun} {db' : Db} {stage : ItemStage}
    (h : Works fs cwd db t s) (hok : Served fs cwd s (.item item_id action))
    (hfind : Rows.find? s.run.items item_id = some c)
    (hu : _upload_item s.db c.item c.stage action = some (db', stage)) :
    Works fs cwd db t
      ⟨db', { s.run with items := Rows.update s.run.items item_id (fun c => { c with stage := stage }) },
        putsAfter s (.item item_id action)⟩ := by
  have hc := Rows.find_mem hfind
  have hkey : c.item.id = item_id := Rows.find_key hfind
  have hserved := served_item hok hfind
  obtain ⟨hlive, hwrite⟩ := item_moves hu
  have hfate := (fate_step hserved hu (h.fate c hc)).1
  have hcases : ∀ q ∈ Rows.update s.run.items item_id (fun c => { c with stage := stage }),
      q = { c with stage := stage } ∨ q ∈ s.run.items ∧ q.item.id ≠ item_id :=
    fun q hq => Rows.mem_update_cases h.ids hfind hq
  have hitems : (Rows.update s.run.items item_id (fun c => { c with stage := stage })).map (·.item) =
      s.run.items.map (·.item) := Rows.update_map (f := fun c : ItemRun => { c with stage := stage })
        (fun c : ItemRun => c.item) (fun _ => rfl)
  refine ⟨h.task, ?_, ?_, ?_, ?_, ?_, ?_⟩
  · rcases hwrite with ⟨st, e, at', rfl, _⟩ | ⟨rfl, _⟩
    · rw [set_map s.db c.item st e at' TaskItem.id (fun _ => rfl)]
      exact h.rows
    · exact h.rows
  · have := congrArg (List.map TaskItem.id) hitems
    rw [List.map_map, List.map_map] at this
    exact this ▸ h.ids
  · intro q hq
    obtain ⟨row, hrow, hid, hshow⟩ := h.shown c hc
    rcases hcases q hq with rfl | ⟨hq, hne⟩
    · rcases hwrite with ⟨st, e, at', rfl, hst⟩ | ⟨rfl, hkeep⟩
      · refine ⟨ItemRepo.setUpload st e at' row, ?_, hid, hst⟩
        rw [set_items]
        exact Rows.mem_update_of_mem hrow hid
      · refine ⟨row, hrow, hid, hkeep _ hshow (fun he => ?_)⟩
        exact (he ▸ hserved : ItemServed fs cwd c .escape).elim
    · obtain ⟨other, hother, hoid, hoshow⟩ := h.shown q hq
      refine ⟨other, ?_, hoid, hoshow⟩
      rcases hwrite with ⟨st, e, at', rfl, _⟩ | ⟨rfl, _⟩
      · rw [set_items]
        exact Rows.mem_update_of_ne hother (fun he => hne (hoid.symm.trans (he.trans hkey)))
      · exact hother
  · intro q hq
    rcases hcases q hq with rfl | ⟨hq, _⟩
    · exact hfate
    · exact h.fate q hq
  · exact h.item_puts hok hfind hu
  · have hstage := h.stage
    have hempty : s.run.items ≠ [] := List.ne_nil_of_mem hc
    revert hstage
    change AtStage db t s s.run.stage → AtStage db t _ s.run.stage
    cases s.run.stage with
    | starting | checked | started | idle | planned => simp [AtStage, hempty]
    | working => exact fun hw => hitems.trans hw
    | finished | ended => exact fun hw => absurd (hw.2 c hc) (by simp [hlive])
    | failing => exact id

/-- The coroutines of a plan start on rows that are pending. -/
theorem Works.planned (h : Works fs cwd db t s) (hsame : s.db.items = db.items)
    (hnil : s.run.items = []) :
    Works fs cwd db t ⟨s.db, { s.run with
      stage := .working, items := (uploadable db t).map (⟨·, .waiting⟩) }, s.puts⟩ := by
  have hids : ((uploadable db t).map (fun i => (⟨i, .waiting⟩ : ItemRun))).map (·.item.id) =
      (uploadable db t).map TaskItem.id := by
    simp
  refine ⟨h.task, h.rows, ?_, ?_, ?_, ?_, by simp [AtStage, Function.comp_def]⟩
  · rw [hids]
    exact uploadable_ids (hsame ▸ h.rows)
  · intro c hc
    obtain ⟨i, hi, rfl⟩ := List.mem_map.mp hc
    obtain ⟨hrow, _, _, hpending⟩ := mem_uploadable.mp hi
    exact ⟨i, hsame ▸ hrow, rfl, hpending⟩
  · intro c hc
    obtain ⟨i, _, rfl⟩ := List.mem_map.mp hc
    trivial
  · intro put
    rw [h.puts]
    simp [StoredBy, hnil, ItemStage.hasStored]

/-- Where no coroutine raises, the outer `gather` waits for every item. -/
theorem results_over {items : List ItemRun} {results : List Bool} {c : ItemRun}
    (h : all_results items = some results) (hno : ∀ c ∈ items, c.stage ≠ .escaped) (hc : c ∈ items) :
    c.stage.over = true := by
  obtain ⟨bs, hbs⟩ := (results_groups h).1 _ (item_group items hc)
  obtain ⟨ok, _, hst⟩ := plain_ended hbs (fun q hq => hno q (List.mem_of_mem_filter hq))
    (List.mem_filter.mpr ⟨hc, by simp⟩)
  rw [hst]
  rfl

theorem Works.none_escaped (h : Works fs cwd db t s) : ∀ c ∈ s.run.items, c.stage ≠ .escaped := by
  intro c hc he
  have hf := h.fate c hc
  rw [he] at hf
  exact hf

theorem step_works {task : Task} {a : RunAction} (hcheck : check db t = .ok task)
    (h : Works fs cwd db t s) (hok : Served fs cwd s a) (hs : Backends.step s a = some s') :
    Works fs cwd db t s' := by
  obtain ⟨⟨db', next⟩, hrun, hs⟩ := Option.bind_eq_some_iff.mp hs
  obtain ⟨run, rfl, rfl⟩ := Option.map_eq_some_iff.mp hs
  have hstage := h.stage
  have htask := h.task
  cases a with
  | read =>
    simp only [run_task] at hrun
    split at hrun
    · rename_i hst
      obtain ⟨hdb, hnil⟩ : s.db = db ∧ s.run.items = [] := by simpa only [AtStage, hst] using hstage
      have hread : check s.db s.run.task_id = .ok task := by rw [hdb, htask, hcheck]
      rw [hread] at hrun
      cases hrun
      exact h.moved rfl rfl rfl ⟨hdb, hnil⟩
    · cases hrun
  | start =>
    cases run_moves hrun with
    | started hst =>
      rw [hst] at hstage
      have hi := (written_tables s.db s.run.task_id .uploading none none .upload_started).2.1
      exact h.moved hi rfl rfl ⟨hi.trans (by rw [hstage.1]), hstage.2⟩
  | list =>
    cases run_moves hrun with
    | listed hst =>
      rw [hst] at hstage
      refine h.moved rfl rfl rfl ?_
      simp only [listed, htask, uploadable_same hstage.1]
      split
      · exact ⟨‹_›, hstage.2⟩
      · exact ⟨rfl, hstage.1, hstage.2⟩
  | complete =>
    cases run_moves hrun with
    | completed n hst =>
      rw [hst] at hstage
      refine h.moved (written_tables s.db s.run.task_id _ _ _ _).2.1 rfl rfl ⟨?_, ?_⟩
      · simp [hstage.1, hstage.2]
      · simp [hstage.2]
  | plan =>
    cases run_moves hrun with
    | planned items hst =>
      rw [hst] at hstage
      obtain ⟨rfl, hsame, hnil⟩ := hstage
      exact h.planned hsame hnil
  | item item_id action =>
    cases run_moves hrun with
    | item c db' stage hfind hu => exact h.item hok hfind hu
  | finalize =>
    cases run_moves hrun with
    | finalized results hst hr =>
      rw [hst] at hstage
      exact h.moved (written_tables s.db s.run.task_id _ _ _ _).2.1 rfl rfl
        ⟨hstage, fun c hc => results_over hr h.none_escaped hc⟩
  | publish =>
    cases run_moves hrun with
    | published hst =>
      rw [hst] at hstage
      exact h.moved rfl rfl rfl hstage
  | fail =>
    cases run_moves hrun with
    | failed e hst =>
      rw [hst] at hstage
      exact hstage.elim
  | raise | lose | leave | crash => exact hok.elim

/-- The steps that an item's coroutine still has to take. -/
def ItemStage.left : ItemStage → Nat
  | .waiting => 4
  | .marked => 3
  | .stored | .raised _ => 2
  | .delivered | .reported => 1
  | .ended _ | .escaped => 0

/-- A bound on the steps that a run which uploads `n` items still has to take. -/
def left (n : Nat) (s : PythonRun) : Nat :=
  match s.run.stage with
  | .starting => 4 * n + 6
  | .checked => 4 * n + 5
  | .started => 4 * n + 4
  | .idle _ => 2
  | .planned _ => 4 * n + 3
  | .working => (s.run.items.map (fun c => ItemStage.left c.stage)).sum + 2
  | .finished => 1
  | .failing _ | .ended => 0

/-- A coroutine that is not over can go on, whatever the open of its source comes to. -/
theorem item_goes_on (db : Db) {c : ItemRun} (hlive : c.stage.over = false) :
    ∃ action db' stage, ItemServed fs cwd c action ∧
      _upload_item db c.item c.stage action = some (db', stage) ∧
      ItemStage.left stage < ItemStage.left c.stage := by
  obtain ⟨item, old⟩ := c
  cases old with
  | waiting => exact ⟨.mark, _, _, trivial, rfl, Nat.lt_succ_self _⟩
  | marked =>
    cases hsrc : source fs cwd item with
    | some data => exact ⟨.store data, _, _, hsrc, rfl, Nat.lt_succ_self _⟩
    | none => exact ⟨.raise "", _, _, ⟨rfl, hsrc⟩, rfl, Nat.lt_succ_self _⟩
  | stored => exact ⟨.done, _, _, trivial, rfl, Nat.lt_succ_self _⟩
  | delivered => exact ⟨.publish, _, _, trivial, rfl, Nat.lt_succ_self _⟩
  | raised e => exact ⟨.fail, _, _, trivial, rfl, Nat.lt_succ_self _⟩
  | reported => exact ⟨.report, _, _, trivial, rfl, Nat.lt_succ_self _⟩
  | ended | escaped => cases hlive

theorem served_of_item {item_id : Nat} {action : ItemAction} {c : ItemRun}
    (hfind : Rows.find? s.run.items item_id = some c) (h : ItemServed fs cwd c action) :
    Served fs cwd s (.item item_id action) := by
  have honly : ∀ i ∈ Rows.find? s.run.items item_id, i = c :=
    fun i hi => Option.some.inj (hi.symm.trans hfind)
  cases action with
  | store data => exact fun i hi => honly i hi ▸ h
  | raise e => exact fun i hi => honly i hi ▸ h
  | escape => exact h
  | _ => trivial

/-- A gather whose coroutines have all returned is done. -/
theorem results_some {items : List ItemRun} (h : ∀ c ∈ items, ∃ ok, c.stage = .ended ok) :
    ∃ results, all_results items = some results := by
  have hgroups : ∃ groups, (grouped items).mapM groupResults = some groups := by
    refine Fallible.mapM_some (fun group hgroup => ?_)
    obtain ⟨key, _, rfl⟩ := List.mem_map.mp hgroup
    unfold groupResults
    split
    · exact ⟨_, rfl⟩
    · refine Fallible.mapM_some (fun c hc => ?_)
      obtain ⟨ok, hst⟩ := h c (List.mem_of_mem_filter hc)
      exact ⟨ok, by rw [hst]; rfl⟩
  obtain ⟨groups, hg⟩ := hgroups
  exact ⟨groups.flatten, by rw [all_results, hg]; rfl⟩

/-- A step of one coroutine brings the run closer to its end. -/
theorem left_item {items : List ItemRun} {item_id : Nat} {c : ItemRun} {stage : ItemStage}
    (hn : (items.map (·.item.id)).Nodup) (hfind : Rows.find? items item_id = some c)
    (hlt : ItemStage.left stage < ItemStage.left c.stage) :
    ((Rows.update items item_id (fun c => { c with stage := stage })).map
        (fun c => ItemStage.left c.stage)).sum <
      (items.map (fun c => ItemStage.left c.stage)).sum := by
  have hkey : c.item.id = item_id := Rows.find_key hfind
  rw [Rows.update, List.map_map]
  refine List.sum_lt_sum _ _ (fun q hq => ?_) ⟨c, Rows.find_mem hfind, ?_⟩
  · by_cases he : q.item.id = item_id
    · obtain rfl : q = c := Rows.eq_of_key hn hq (Rows.find_mem hfind) (he.trans hkey.symm)
      simpa [hkey] using hlt.le
    · simp [he]
  · simpa [hkey] using hlt

theorem step_of_run {a : RunAction} {db' : Db} {run : TaskRun}
    (h : run_task s.db s.run a = some (db', some run)) :
    Backends.step s a = some ⟨db', run, putsAfter s a⟩ := by
  simp [Backends.step, h]

/-- A run that is not over has a step that brings it closer to its end. -/
theorem goes_on {task : Task} (hcheck : check db t = .ok task) (h : Works fs cwd db t s)
    (hlive : s.run.stage ≠ .ended) :
    ∃ a s', Served fs cwd s a ∧ Backends.step s a = some s' ∧
      left (uploadable db t).length s' < left (uploadable db t).length s := by
  have hstage := h.stage
  have htask := h.task
  cases hst : s.run.stage with
  | starting =>
    obtain ⟨hdb, _⟩ : s.db = db ∧ s.run.items = [] := by simpa only [AtStage, hst] using hstage
    have hread : check s.db s.run.task_id = .ok task := by rw [hdb, htask, hcheck]
    have hrun : run_task s.db s.run .read = some (s.db, some { s.run with stage := .checked }) := by
      simp only [run_task, hst, if_true, hread]
    exact ⟨.read, _, trivial, step_of_run hrun, by simp [left, hst]⟩
  | checked =>
    have hrun : run_task s.db s.run .start = some (start s.db s.run.task_id,
        some { s.run with stage := .started, phase := .uploading }) := by
      simp only [run_task, hst, if_true]
    exact ⟨.start, _, trivial, step_of_run hrun, by simp [left, hst]⟩
  | started =>
    have hrun : run_task s.db s.run .list = some (s.db,
        some { s.run with stage := listed s.db s.run.task_id }) := by
      simp only [run_task, hst, if_true]
    refine ⟨.list, _, trivial, step_of_run hrun, ?_⟩
    by_cases hnil : uploadable s.db s.run.task_id = []
    · simp only [left, hst, listed, hnil, if_true]
      omega
    · simp only [left, hst, listed, hnil, if_false]
      omega
  | idle n =>
    have hrun : run_task s.db s.run .complete = some (complete s.db s.run.task_id n,
        some { s.run with stage := .finished, phase := .final }) := by
      simp only [run_task, hst]
    exact ⟨.complete, _, trivial, step_of_run hrun, by simp [left, hst]⟩
  | planned items =>
    rw [hst] at hstage
    obtain ⟨rfl, _⟩ := hstage
    have hrun : run_task s.db s.run .plan = some (s.db, some { s.run with
        stage := .working, items := (uploadable db t).map (⟨·, .waiting⟩) }) := by
      simp only [run_task, hst]
    refine ⟨.plan, _, trivial, step_of_run hrun, ?_⟩
    simp [left, hst, Function.comp_def, ItemStage.left]
    omega
  | working =>
    by_cases hall : ∀ c ∈ s.run.items, c.stage.over = true
    · have hended : ∀ c ∈ s.run.items, ∃ ok, c.stage = .ended ok := by
        intro c hc
        have hover := hall c hc
        cases hc' : c.stage with
        | ended ok => exact ⟨ok, rfl⟩
        | escaped => exact absurd hc' (h.none_escaped c hc)
        | _ => rw [hc'] at hover; cases hover
      obtain ⟨results, hr⟩ := results_some hended
      have hrun : run_task s.db s.run .finalize = some (
          finalize s.db s.run.task_id results s.run.items.length,
          some { s.run with stage := .finished, phase := .final }) := by
        simp only [run_task, hst, if_true, hr, Option.map_some]
      exact ⟨.finalize, _, trivial, step_of_run hrun, by simp [left, hst]⟩
    · obtain ⟨c, hc, hover⟩ : ∃ c ∈ s.run.items, c.stage.over = false := by simpa using hall
      obtain ⟨action, db', stage, hok, hu, hlt⟩ : ∃ action db' stage, ItemServed fs cwd c action ∧
          _upload_item s.db c.item c.stage action = some (db', stage) ∧
          ItemStage.left stage < ItemStage.left c.stage := item_goes_on s.db hover
      have hfind : Rows.find? s.run.items c.item.id = some c := Rows.find_of_mem h.ids hc
      have hrun : run_task s.db s.run (.item c.item.id action) = some (db', some { s.run with
          items := Rows.update s.run.items c.item.id (fun c => { c with stage := stage }) }) := by
        simp only [run_task, hfind, Option.bind_some, hu, Option.map_some]
      refine ⟨.item c.item.id action, _, served_of_item hfind hok, step_of_run hrun, ?_⟩
      have hsum := left_item h.ids hfind hlt
      simp only [left, hst]
      omega
  | finished =>
    have hrun : run_task s.db s.run .publish = some (s.db, some { s.run with stage := .ended }) := by
      simp only [run_task, hst, if_true]
    exact ⟨.publish, _, trivial, step_of_run hrun, by simp [left, hst]⟩
  | failing e =>
    rw [hst] at hstage
    exact hstage.elim
  | ended => exact absurd hst hlive

/-- A run whose calls succeed can be brought to its end. -/
theorem ends {task : Task} (hn : (db.items.map TaskItem.id).Nodup) (hcheck : check db t = .ok task) :
    ∃ s, Run Backends.step (Served fs cwd) (scheduled db rid t) s ∧ s.run.stage = .ended := by
  refine Run.progress (Works fs cwd db t) _ (left (uploadable db t).length) ?_ (scheduled_works hn)
  intro s hs hlive
  obtain ⟨a, s', hok, hstep, hlt⟩ := goes_on hcheck hs hlive
  exact ⟨a, s', hok, hstep, step_works hcheck hs hok hstep, hlt⟩

theorem run_works {task : Task} (hn : (db.items.map TaskItem.id).Nodup)
    (hcheck : check db t = .ok task)
    (h : Run Backends.step (Served fs cwd) (scheduled db rid t) s) : Works fs cwd db t s :=
  h.invariant (Works fs cwd db t) (scheduled_works hn)
    (fun _ _ _ hi hok hs => step_works hcheck hi hok hs)

/-- At the end every item has its outcome, by whether its source was there. -/
theorem Works.outcome (h : Works fs cwd db t s) (hend : s.run.stage = .ended) {i : TaskItem}
    (hi : i ∈ uploadable db t) :
    ∃ c ∈ s.run.items, c.item = i ∧ c.stage = .ended (source fs cwd i).isSome := by
  have hstage := h.stage
  rw [hend] at hstage
  obtain ⟨hitems, hover⟩ := hstage
  obtain ⟨c, hc, rfl⟩ := List.mem_map.mp (hitems ▸ hi)
  refine ⟨c, hc, rfl, ?_⟩
  have hdone := hover c hc
  have hfate := h.fate c hc
  cases hst : c.stage with
  | ended ok =>
    rw [hst] at hfate
    cases ok with
    | true => rw [show (source fs cwd c.item).isSome = true from hfate]
    | false => rw [show source fs cwd c.item = none from hfate, Option.isSome_none]
  | escaped => exact absurd hst (h.none_escaped c hc)
  | _ => rw [hst] at hdone; cases hdone

/-- The objects that a run leaves are its items' sources under their destinations. -/
theorem ended_puts (h : Works fs cwd db t s) (hend : s.run.stage = .ended) (put : Text × Bytes) :
    put ∈ s.puts ↔
      ∃ i ∈ uploadable db t, i.dst_path = put.1 ∧ source fs cwd i = some put.2 := by
  have hstage := h.stage
  rw [hend] at hstage
  rw [h.puts]
  constructor
  · intro h
    obtain ⟨c, hc, _, hdst, hsrc⟩ := h
    exact ⟨c.item, hstage.1 ▸ List.mem_map_of_mem hc, hdst, hsrc⟩
  · intro h
    obtain ⟨i, hi, hdst, hsrc⟩ := h
    obtain ⟨c, hc, rfl, hst⟩ := h.outcome hend hi
    refine ⟨c, hc, ?_, hdst, hsrc⟩
    rw [hst, hsrc]
    rfl

theorem ended_uploaded (h : Works fs cwd db t s) (hend : s.run.stage = .ended) :
    AllUploaded (uploadable db t) s.db ↔ ∀ i ∈ uploadable db t, (source fs cwd i).isSome := by
  constructor
  · intro hall i hi
    obtain ⟨c, hc, rfl, hst⟩ := h.outcome hend hi
    obtain ⟨row, hrow, hid, hup⟩ := hall c.item hi
    obtain ⟨row', hrow', hid', hshow⟩ := h.shown c hc
    obtain rfl : row = row' := Rows.eq_of_key h.rows hrow hrow' (hid.trans hid'.symm)
    by_contra hnone
    rw [hst, Bool.eq_false_iff.mpr hnone, hup] at hshow
    cases hshow
  · intro hsrc i hi
    obtain ⟨c, hc, rfl, hst⟩ := h.outcome hend hi
    obtain ⟨row, hrow, hid, hshow⟩ := h.shown c hc
    rw [hst, hsrc c.item hi] at hshow
    exact ⟨row, hrow, hid, hshow⟩

end FileDelivery.Proofs.PythonBackend
