import FileDelivery.Bridge.Replay
import FileDelivery.Library.Grouping
import FileDelivery.Proofs.PythonBackend
import Mathlib.Data.Bool.Count
import Mathlib.Data.List.Count

namespace FileDelivery.Proofs.RunCounts
open FileDelivery.Library FileDelivery.Library.Runs FileDelivery.Control
open FileDelivery.Control.TaskRunner FileDelivery.Bridge FileDelivery.Bridge.Backends
open FileDelivery.Proofs.RunMoves FileDelivery.Proofs.RunSteps FileDelivery.Proofs.PythonBackend

/-- The upload status in an item's row. -/
def itemStatus (db : Db) (item_id : Nat) : Option UploadStatus :=
  (Rows.find? db.items item_id).map TaskItem.upload_status

/-- `_run_task_inner` writes its final status. -/
def WritesFinal : RunAction → Prop
  | .complete | .finalize => True
  | _ => False

/-- The counts are those of the items by the status in their rows. -/
structure Counted (items : List TaskItem) (db : Db) (uploaded failed : Nat) : Prop where
  sum : uploaded + failed = items.length
  uploaded : uploaded = items.countP (fun i => itemStatus db i.id == some .uploaded)
  failed : failed = items.countP (fun i => itemStatus db i.id == some .failed)

/-- The event that comes with the final status of a run over `items`. -/
def completion (items : List TaskItem) (uploaded failed : Nat) (payload : EventPayload) : Prop :=
  if items = [] then ∃ skipped, payload = .task_completed uploaded failed none (some skipped)
  else payload = .task_completed uploaded failed (some items.length) none

/-- What a run owes once it has written its final status. -/
structure Accounted (items : List TaskItem) (s : PythonRun) : Prop where
  settled : ∀ i ∈ items, itemStatus s.db i.id = some .uploaded ∨ itemStatus s.db i.id = some .failed
  none_running : ∀ c ∈ s.run.items, c.stage.over = true
  recorded : ∃ e uploaded failed, s.db.events.getLast? = some e ∧ e.task_id = s.run.task_id ∧
    completion items uploaded failed e.payload ∧ Counted items s.db uploaded failed ∧
    ∀ task ∈ s.db.tasks, task.id = s.run.task_id →
      task.status = if failed = 0 then .uploaded else .partial_failed

/-- No other item of the run has the item's target. -/
def Alone (items : List ItemRun) (item : TaskItem) : Prop :=
  ∀ q ∈ items, groupKey q.item = groupKey item → q.item.id = item.id

/-- An exception leaves an item only once its `failed` is committed, and only where the item is
alone. -/
def Contained (s : PythonRun) : RunAction → Prop
  | .item item_id .escape => ∀ c ∈ Rows.find? s.run.items item_id,
      c.stage = .reported ∧ Alone s.run.items c.item
  | _ => True

instance (items : List ItemRun) (item : TaskItem) : Decidable (Alone items item) :=
  inferInstanceAs (Decidable (∀ q ∈ items, _))

instance (s : PythonRun) : (a : RunAction) → Decidable (Contained s a)
  | .item item_id .escape => inferInstanceAs (Decidable (∀ c ∈ Rows.find? s.run.items item_id, _))
  | .item _ .mark | .item _ (.store _) | .item _ .done | .item _ .publish | .item _ (.raise _)
  | .item _ .fail | .item _ .report => .isTrue trivial
  | .read | .start | .list | .complete | .plan | .finalize | .publish | .raise _ | .fail | .lose
  | .leave | .crash => .isTrue trivial

variable {db db' : Db} {t rid item_id : Nat} {s s' : PythonRun} {items : List ItemRun} {c : ItemRun}
  {stage : ItemStage} {action : ItemAction} {results : List Bool}

/-- What a run, with any failures, holds at each of its stages. -/
def Listed (db : Db) (t : Nat) (s : PythonRun) : RunStage → Prop
  | .starting | .checked | .started => s.db.items = db.items ∧ s.run.items = []
  | .idle _ => uploadable db t = [] ∧ s.run.items = []
  | .planned items => items = uploadable db t ∧ items ≠ [] ∧ s.db.items = db.items ∧ s.run.items = []
  | .working => s.run.items.map (·.item) = uploadable db t ∧ s.run.items ≠ []
  | _ => True

/-- The invariant of a run with any failures, started on the database `db`. -/
structure Tracked (db : Db) (t : Nat) (s : PythonRun) : Prop where
  task : s.run.task_id = t
  ids : (s.run.items.map (·.item.id)).Nodup
  shown : ∀ c ∈ s.run.items, ∃ st, itemStatus s.db c.item.id = some st ∧
    (Shows c.stage st ∨ c.stage = .escaped)
  stage : Listed db t s s.run.stage

/-- Every exception that has left an item was contained. -/
def Kept (s : PythonRun) : Prop :=
  ∀ c ∈ s.run.items, c.stage = .escaped →
    itemStatus s.db c.item.id = some .failed ∧ Alone s.run.items c.item

/-- The row of an item after a write to one. -/
theorem set_status (db : Db) (item : TaskItem) (st : UploadStatus) (e : String) (at' : Option Time)
    (k : Nat) : itemStatus (setStatus db item st e at') k =
      (itemStatus db k).map (fun old => if k = item.id then st else old) := by
  simp only [itemStatus, set_items]
  rw [Rows.find_update (f := ItemRepo.setUpload st e at') (fun _ => rfl)]
  cases Rows.find? db.items k with
  | none => rfl
  | some row =>
    by_cases hk : k = item.id <;> simp [hk, ItemRepo.setUpload]

/-- A step of an item leaves the rows of the other items, and its own row shows its new stage. -/
theorem item_status (hm : _upload_item db c.item c.stage action = some (db', stage))
    (hst : itemStatus db c.item.id = some st) (hs : Shows c.stage st ∨ c.stage = .escaped) :
    (∀ k, k ≠ c.item.id → itemStatus db' k = itemStatus db k) ∧
      ∃ st', itemStatus db' c.item.id = some st' ∧ (Shows stage st' ∨ stage = .escaped) ∧
        (action = .escape → stage = .escaped ∧ st' = st) ∧ (action ≠ .escape → stage ≠ .escaped) := by
  obtain ⟨hlive, hwrite⟩ := item_moves hm
  have hshow : Shows c.stage st := by
    rcases hs with hs | hs
    · exact hs
    · rw [hs] at hlive
      cases hlive
  have hescape : (action = .escape → stage = .escaped ∧ db' = db) ∧
      (action ≠ .escape → stage ≠ .escaped) := by
    cases action <;> cases hstage : c.stage <;> rw [hstage] at hm <;> cases hm <;> simp
  refine ⟨?_, ?_⟩
  · intro k hk
    rcases hwrite with ⟨st', e, at', rfl, _⟩ | ⟨rfl, _⟩
    · simp [set_status, hk]
    · rfl
  · by_cases ha : action = .escape
    · obtain ⟨hesc, rfl⟩ := hescape.1 ha
      exact ⟨st, hst, .inr hesc, fun _ => ⟨hesc, rfl⟩, fun hne => absurd ha hne⟩
    · rcases hwrite with ⟨st', e, at', rfl, hst'⟩ | ⟨rfl, hkeep⟩
      · exact ⟨st', by simp [set_status, hst], .inl hst', fun h => absurd h ha, hescape.2⟩
      · exact ⟨st, hst, .inl (hkeep st hshow (fun h => absurd h ha)), fun h => absurd h ha, hescape.2⟩

theorem status_same (h : db'.items = db.items) (k : Nat) : itemStatus db' k = itemStatus db k := by
  rw [itemStatus, itemStatus, h]

/-- Only the coroutines of the items write to the items. -/
theorem quiet_rows {run : TaskRun} {next : Option TaskRun} {a : RunAction}
    (hm : RunMove db run a db' next) (hq : ∀ k x, a ≠ .item k x) : db'.items = db.items := by
  cases hm with
  | started => exact (written_tables db run.task_id _ _ _ _).2.1
  | completed => exact (written_tables db run.task_id _ _ _ _).2.1
  | finalized => exact (written_tables db run.task_id _ _ _ _).2.1
  | failed => exact (written_tables db run.task_id _ _ _ _).2.1
  | item => exact absurd rfl (hq _ _)
  | _ => rfl

theorem Tracked.moved {run : TaskRun} (h : Tracked db t s) (hi : db'.items = s.db.items)
    (ht : run.task_id = s.run.task_id) (hr : run.items = s.run.items)
    (hst : Listed db t ⟨db', run, puts⟩ run.stage) : Tracked db t ⟨db', run, puts⟩ := by
  refine ⟨ht.trans h.task, ?_, ?_, hst⟩
  · exact hr ▸ h.ids
  · intro c hc
    rw [status_same hi]
    exact h.shown c (hr ▸ hc)

theorem Tracked.planned (hn : (db.items.map TaskItem.id).Nodup) (ht : s.run.task_id = t)
    (hi : s.db.items = db.items) (hsome : uploadable db t ≠ []) :
    Tracked db t ⟨s.db, { s.run with
      stage := .working, items := (uploadable db t).map (⟨·, .waiting⟩) }, puts⟩ := by
  refine ⟨ht, ?_, ?_, ?_⟩
  · simpa [Function.comp_def] using uploadable_ids hn
  · intro c hc
    obtain ⟨i, hmem, rfl⟩ := List.mem_map.mp hc
    obtain ⟨hrow, _, _, hpending⟩ := mem_uploadable.mp hmem
    refine ⟨.pending, ?_, .inl rfl⟩
    have hfind : Rows.find? db.items i.id = some i := Rows.find_of_mem hn hrow
    simp [itemStatus, hi, hfind, hpending]
  · simpa [Listed, Function.comp_def] using hsome

/-- The items of a run after a step of one of them. -/
def restaged (items : List ItemRun) (item_id : Nat) (stage : ItemStage) : List ItemRun :=
  Rows.update items item_id (fun c => { c with stage := stage })

theorem restaged_map (g : TaskItem → β) :
    (restaged items item_id stage).map (fun c => g c.item) = items.map (fun c => g c.item) :=
  Rows.update_map (f := fun c : ItemRun => { c with stage := stage }) (fun c : ItemRun => g c.item)
    (fun _ => rfl)

theorem restaged_cases (h : Tracked db t s) (hfind : Rows.find? s.run.items item_id = some c)
    {q : ItemRun} (hq : q ∈ restaged s.run.items item_id stage) :
    q = { c with stage := stage } ∨ q ∈ s.run.items ∧ q.item.id ≠ c.item.id := by
  obtain rfl : c.item.id = item_id := Rows.find_key hfind
  exact Rows.mem_update_cases (f := fun c : ItemRun => { c with stage := stage }) h.ids hfind hq

theorem alone_restaged {item : TaskItem} :
    Alone (restaged items item_id stage) item ↔ Alone items item := by
  have hall : ∀ items : List ItemRun, Alone items item ↔ ∀ i ∈ items.map (·.item),
      groupKey i = groupKey item → i.id = item.id := by
    intro items
    simp [Alone]
  rw [hall, hall]
  simp only [show (restaged items item_id stage).map (·.item) = items.map (·.item) from restaged_map id]

theorem Tracked.item (h : Tracked db t s) (hfind : Rows.find? s.run.items item_id = some c)
    (hm : _upload_item s.db c.item c.stage action = some (db', stage)) :
    Tracked db t ⟨db', { s.run with items := restaged s.run.items item_id stage }, puts⟩ := by
  have hmem := Rows.find_mem hfind
  obtain ⟨st, hst, hshow⟩ := h.shown c hmem
  obtain ⟨hother, st', hst', hshow', _⟩ := item_status hm hst hshow
  refine ⟨h.task, ?_, ?_, ?_⟩
  · change ((restaged s.run.items item_id stage).map (fun c => c.item.id)).Nodup
    rw [restaged_map TaskItem.id]
    exact h.ids
  · intro q hq
    rcases restaged_cases h hfind hq with rfl | ⟨hq, hne⟩
    · exact ⟨st', hst', hshow'⟩
    · rw [hother _ hne]
      exact h.shown q hq
  · have hstage := h.stage
    have hsome : s.run.items ≠ [] := List.ne_nil_of_mem hmem
    have hsome' : restaged s.run.items item_id stage ≠ [] := by
      simpa [restaged, Rows.update] using hsome
    revert hstage
    change Listed db t s s.run.stage → Listed db t _ s.run.stage
    cases s.run.stage with
    | starting | checked | started | idle | planned => simp [Listed, hsome]
    | working => exact fun hw => ⟨(restaged_map id).trans hw.1, hsome'⟩
    | finished | ended | failing => exact id

theorem step_tracked (hn : (db.items.map TaskItem.id).Nodup) (h : Tracked db t s) {a : RunAction}
    (hs : Backends.step s a = some s') : Tracked db t s' := by
  obtain ⟨⟨db', next⟩, hrun, hs⟩ := Option.bind_eq_some_iff.mp hs
  obtain ⟨run, rfl, rfl⟩ := Option.map_eq_some_iff.mp hs
  have hstage := h.stage
  have hquiet := quiet_rows (run_moves hrun)
  cases run_moves hrun with
  | checked hst =>
    rw [hst] at hstage
    exact h.moved rfl rfl rfl hstage
  | started hst =>
    rw [hst] at hstage
    have hi := hquiet (by simp)
    exact h.moved hi rfl rfl ⟨hi.trans hstage.1, hstage.2⟩
  | listed hst =>
    rw [hst] at hstage
    refine h.moved rfl rfl rfl ?_
    have hsame : uploadable s.db s.run.task_id = uploadable db t := by
      rw [h.task]
      exact uploadable_same hstage.1
    simp only [listed, hsame]
    split
    · rename_i hnil
      exact ⟨hnil, hstage.2⟩
    · rename_i hsome
      exact ⟨rfl, hsome, hstage⟩
  | planned items hst =>
    rw [hst] at hstage
    obtain ⟨rfl, hsome, hi, _⟩ := hstage
    exact Tracked.planned hn h.task hi hsome
  | item c db' stage hfind hitem => exact h.item hfind hitem
  | completed | finalized | failed => exact h.moved (hquiet (by simp)) rfl rfl trivial
  | refused | published | raised | lost => exact h.moved rfl rfl rfl trivial

/-- An item's step keeps to the rule just where the escape that it may be is contained. -/
theorem item_kept_iff (h : Tracked db t s) (hfind : Rows.find? s.run.items item_id = some c)
    (hm : _upload_item s.db c.item c.stage action = some (db', stage)) :
    Kept ⟨db', { s.run with items := restaged s.run.items item_id stage }, puts⟩ ↔
      Kept s ∧ Contained s (.item item_id action) := by
  have hmem := Rows.find_mem hfind
  have hlive : c.stage ≠ .escaped := by
    intro hesc
    have := (item_moves hm).1
    simp [hesc, ItemStage.over] at this
  obtain ⟨st, hst, hshow⟩ := h.shown c hmem
  obtain ⟨hother, st', hst', _, hesc, hno⟩ := item_status hm hst hshow
  have hnew : { c with stage := stage } ∈ restaged s.run.items item_id stage :=
    Rows.mem_update_of_mem (f := fun c : ItemRun => { c with stage := stage }) hmem
      (Rows.find_key hfind)
  have hcontained : Contained s (.item item_id action) ↔
      (action = .escape → c.stage = .reported ∧ Alone s.run.items c.item) := by
    cases action <;> simp [Contained, hfind]
  -- An item that has raised outside its handler shows `failed` just where its `failed` is committed.
  have hfailed : action = .escape → (st = .failed ↔ c.stage = .reported) := by
    intro heq
    subst heq
    have hshow := hshow.resolve_right hlive
    cases hstage : c.stage <;> rw [hstage] at hm hshow <;> cases hm
    · simp [show st = .pending from hshow]
    · rcases hshow with rfl | rfl <;> simp
    · simp [show st = .failed from hshow]
  rw [hcontained]
  constructor
  · intro hk
    refine ⟨?_, ?_⟩
    · intro q hq hqe
      have hne : q.item.id ≠ c.item.id :=
        fun he => hlive (Rows.eq_of_key h.ids hq hmem he ▸ hqe)
      have hqm : q ∈ restaged s.run.items item_id stage :=
        Rows.mem_update_of_ne hq (Rows.find_key hfind ▸ hne)
      have hq' := hk q hqm hqe
      rwa [hother _ hne, alone_restaged] at hq'
    · intro ha
      obtain ⟨hstage, rfl⟩ := hesc ha
      obtain ⟨hf, halone⟩ := hk _ hnew hstage
      rw [hst', Option.some.injEq] at hf
      exact ⟨(hfailed ha).mp hf, alone_restaged.mp halone⟩
  · intro h q hq hqe
    obtain ⟨hk, hok⟩ := h
    rw [alone_restaged]
    rcases restaged_cases h hfind hq with rfl | ⟨hq, hne⟩
    · have ha : action = .escape := by
        by_contra ha
        exact hno ha hqe
      obtain ⟨hstage, halone⟩ := hok ha
      obtain ⟨_, rfl⟩ := hesc ha
      exact ⟨hst'.trans (congrArg some ((hfailed ha).mpr hstage)), halone⟩
    · rw [hother _ hne]
      exact hk q hq hqe

theorem step_kept_iff (h : Tracked db t s) {a : RunAction} (hs : Backends.step s a = some s') :
    Kept s' ↔ Kept s ∧ Contained s a := by
  obtain ⟨⟨db', next⟩, hrun, hs⟩ := Option.bind_eq_some_iff.mp hs
  obtain ⟨run, rfl, rfl⟩ := Option.map_eq_some_iff.mp hs
  have hquiet := quiet_rows (run_moves hrun)
  have hkept : db'.items = s.db.items → run.items = s.run.items →
      (Kept ⟨db', run, putsAfter s a⟩ ↔ Kept s) := by
    intro hi hr
    simp only [Kept, hr, status_same hi]
  cases run_moves hrun with
  | planned items hst =>
    have hstage := h.stage
    rw [hst] at hstage
    obtain ⟨_, _, _, hnil⟩ := hstage
    simp [Kept, hnil, Contained]
  | item c db' stage hfind hitem => exact item_kept_iff h hfind hitem
  | started | completed | finalized | failed =>
    exact (hkept (hquiet (by simp)) rfl).trans (and_iff_left trivial).symm
  | _ => exact (hkept rfl rfl).trans (and_iff_left trivial).symm

/-- The row of an item has a status. -/
def rowIs (db : Db) (st : UploadStatus) (c : ItemRun) : Bool := itemStatus db c.item.id == some st

/-- The status that a result stands for. -/
def outcome (ok : Bool) : UploadStatus := if ok then .uploaded else .failed

variable {group : List ItemRun}

theorem plain_count (h : Tracked db t s) (hsub : ∀ c ∈ group, c ∈ s.run.items)
    (hres : groupResults group = some results) (hno : ∀ c ∈ group, c.stage ≠ .escaped) (ok : Bool) :
    results.count ok = group.countP (rowIs s.db (outcome ok)) := by
  have hstages := plain_group hres hno
  have hinj : Function.Injective ItemStage.ended := fun _ _ he => ItemStage.ended.inj he
  rw [← List.count_map_of_injective results ItemStage.ended hinj, ← hstages, List.count_eq_countP,
    List.countP_map]
  apply List.countP_congr
  intro c hc
  obtain ⟨b, _, hb⟩ := plain_ended hres hno hc
  obtain ⟨st, hst, hshow⟩ := h.shown c (hsub c hc)
  have hshow := hshow.resolve_right (hno c hc)
  rw [hb] at hshow
  obtain rfl : st = outcome b := hshow
  rw [Function.comp_apply, hb, rowIs, hst]
  cases b <;> cases ok <;> simp [outcome]

theorem group_sub (hg : group ∈ grouped items) (hc : c ∈ group) : c ∈ items := by
  obtain ⟨x, _, rfl⟩ := Grouping.mem_groups (grouped_groups items ▸ hg)
  exact List.mem_of_mem_filter hc

/-- An item that is alone is its group. -/
theorem alone_group (h : Tracked db t s) (hg : group ∈ grouped s.run.items) (hc : c ∈ group)
    (halone : Alone s.run.items c.item) : group = [c] := by
  obtain ⟨x, hx, rfl⟩ := Grouping.mem_groups (grouped_groups _ ▸ hg)
  obtain ⟨hcmem, hkey⟩ := List.mem_filter.mp hc
  have hn : (s.run.items.filter (fun q => groupKey q.item == groupKey x.item)).Nodup :=
    (List.Nodup.of_map _ h.ids).filter _
  refine (List.perm_singleton.mp ((List.perm_ext_iff_of_nodup hn (List.nodup_singleton c)).mpr ?_))
  intro q
  rw [List.mem_singleton]
  constructor
  · intro hq
    obtain ⟨hqmem, hqkey⟩ := List.mem_filter.mp hq
    refine Rows.eq_of_key h.ids hqmem hcmem (halone q hqmem ?_)
    exact (beq_iff_eq.mp hqkey).trans (beq_iff_eq.mp hkey).symm
  · intro heq
    subst heq
    exact hc

/-- Where every exception was contained, a group is over, and counts what its rows show. -/
theorem Kept.group_counts (hk : Kept s) (h : Tracked db t s) (hg : group ∈ grouped s.run.items)
    (hres : groupResults group = some results) :
    (∀ ok, results.count ok = group.countP (rowIs s.db (outcome ok))) ∧
      ∀ c ∈ group, c.stage.over = true ∧ ∃ ok, itemStatus s.db c.item.id = some (outcome ok) := by
  by_cases hesc : ∃ c ∈ group, c.stage = .escaped
  · obtain ⟨c, hc, hst⟩ := hesc
    obtain ⟨hfailed, halone⟩ := hk c (group_sub hg hc) hst
    obtain rfl := escaped_group hres hc hst
    obtain rfl := alone_group h hg hc halone
    refine ⟨?_, ?_⟩
    · intro ok
      cases ok <;> simp [rowIs, hfailed, outcome]
    · intro q hq
      obtain rfl := List.mem_singleton.mp hq
      exact ⟨by rw [hst]; rfl, false, hfailed⟩
  · have hno : ∀ c ∈ group, c.stage ≠ .escaped := fun c hc hst => hesc ⟨c, hc, hst⟩
    refine ⟨plain_count h (fun c => group_sub hg) hres hno, ?_⟩
    intro c hc
    obtain ⟨ok, _, hst⟩ := plain_ended hres hno hc
    obtain ⟨st, hstatus, hshow⟩ := h.shown c (group_sub hg hc)
    have hshow := hshow.resolve_right (hno c hc)
    rw [hst] at hshow
    obtain rfl : st = outcome ok := hshow
    exact ⟨by rw [hst]; rfl, ok, hstatus⟩

/-- The counts of a run whose exceptions were all contained are those of the rows. -/
theorem Kept.counts (hk : Kept s) (h : Tracked db t s) (hres : all_results s.run.items = some results)
    (ok : Bool) : results.count ok = s.run.items.countP (rowIs s.db (outcome ok)) := by
  obtain ⟨hall, hflat⟩ := results_groups hres
  rw [hflat, List.count_flatten, List.map_map, ← Grouping.countP_groups (fun c => groupKey c.item),
    ← grouped_groups]
  refine congrArg List.sum (List.map_congr_left ?_)
  intro group hg
  obtain ⟨bs, hbs⟩ := hall group hg
  rw [Function.comp_apply, hbs, Option.getD_some]
  exact (hk.group_counts h hg hbs).1 ok

theorem Kept.settled (hk : Kept s) (h : Tracked db t s) (hres : all_results s.run.items = some results)
    (hc : c ∈ s.run.items) :
    c.stage.over = true ∧ ∃ ok, itemStatus s.db c.item.id = some (outcome ok) := by
  have hg := item_group s.run.items hc
  obtain ⟨bs, hbs⟩ := (results_groups hres).1 _ hg
  exact (hk.group_counts h hg hbs).2 c (List.mem_filter.mpr ⟨hc, by simp⟩)

/-- A group never counts more items than it has, nor more delivered ones than its rows show. -/
theorem group_bounds (h : Tracked db t s) (hg : group ∈ grouped s.run.items)
    (hres : groupResults group = some results) :
    results.length ≤ group.length ∧ results.count true ≤ group.countP (rowIs s.db .uploaded) := by
  by_cases hesc : ∃ c ∈ group, c.stage = .escaped
  · obtain ⟨c, hc, hst⟩ := hesc
    obtain rfl := escaped_group hres hc hst
    refine ⟨List.length_pos_of_mem hc, ?_⟩
    simp
  · have hno : ∀ c ∈ group, c.stage ≠ .escaped := fun c hc hst => hesc ⟨c, hc, hst⟩
    refine ⟨?_, Nat.le_of_eq (plain_count h (fun c => group_sub hg) hres hno true)⟩
    have hlen := congrArg List.length (plain_group hres hno)
    rw [List.length_map, List.length_map] at hlen
    omega

/-- Counts that are those of the rows show that every exception was contained. -/
theorem kept_of_counts (h : Tracked db t s) (hres : all_results s.run.items = some results)
    (hsum : results.count true + results.count false = s.run.items.length)
    (hup : results.count true = s.run.items.countP (rowIs s.db .uploaded))
    (hsettled : ∀ c ∈ s.run.items, ∃ ok, itemStatus s.db c.item.id = some (outcome ok)) : Kept s := by
  obtain ⟨hall, hflat⟩ := results_groups hres
  have hbounds : ∀ group ∈ grouped s.run.items,
      ((groupResults group).getD []).length ≤ group.countP (fun _ => true) ∧
        ((groupResults group).getD []).count true ≤ group.countP (rowIs s.db .uploaded) := by
    intro group hg
    obtain ⟨bs, hbs⟩ := hall group hg
    rw [hbs, Option.getD_some, List.countP_true]
    exact group_bounds h hg hbs
  have hlengths := Grouping.bounds_met (fun group hg => (hbounds group hg).1) (by
    rw [grouped_groups, Grouping.countP_groups, List.countP_true, ← hsum,
      List.count_true_add_count_false, hflat, List.length_flatten, List.map_map, grouped_groups]
    exact Nat.le_refl _)
  have huploads := Grouping.bounds_met (fun group hg => (hbounds group hg).2) (by
    rw [grouped_groups, Grouping.countP_groups, ← hup, hflat, List.count_flatten, List.map_map,
      grouped_groups]
    exact Nat.le_refl _)
  intro c hc hst
  have hg := item_group s.run.items hc
  obtain ⟨bs, hbs⟩ := hall _ hg
  have hcg : c ∈ s.run.items.filter (fun q => groupKey q.item == groupKey c.item) :=
    List.mem_filter.mpr ⟨hc, by simp⟩
  have hlen := hlengths _ hg
  have hnone := huploads _ hg
  obtain rfl := escaped_group hbs hcg hst
  rw [hbs, Option.getD_some, List.countP_true] at hlen
  rw [hbs, Option.getD_some] at hnone
  refine ⟨?_, ?_⟩
  · obtain ⟨ok, hok⟩ := hsettled c hc
    cases ok with
    | false => exact hok
    | true =>
      have hpos : 0 < (s.run.items.filter (fun q => groupKey q.item == groupKey c.item)).countP
          (rowIs s.db .uploaded) := List.countP_pos_iff.mpr ⟨c, hcg, by simp [rowIs, hok, outcome]⟩
      simp at hnone
      omega
  · intro q hq hkey
    obtain ⟨d, hd⟩ := List.length_eq_one_iff.mp hlen.symm
    have hqg : q ∈ s.run.items.filter (fun q => groupKey q.item == groupKey c.item) :=
      List.mem_filter.mpr ⟨hq, by simp [hkey]⟩
    rw [hd, List.mem_singleton] at hcg hqg
    rw [hqg, hcg]

theorem written_last (db : Db) (k : Nat) (st : TaskStatus) (payload : EventPayload) :
    let db' := EventRepo.append (TaskRepo.update_status db k st none none (some db.now)) k payload
    (∃ e, db'.events.getLast? = some e ∧ e.task_id = k ∧ e.payload = payload) ∧
      ∀ task ∈ db'.tasks, task.id = k → task.status = st := by
  obtain ⟨⟨g, hw⟩, _⟩ := written_tables db k st none (some db.now) payload
  exact ⟨⟨_, List.getLast?_concat, rfl, rfl⟩, fun task ht hid => written_status hw ht hid⟩

/-- The items that a run has planned, and those of its plan. -/
theorem planned_count (hitems : s.run.items.map (·.item) = uploadable db t)
    (hi : db'.items = s.db.items) (st : UploadStatus) :
    (uploadable db t).countP (fun i => itemStatus db' i.id == some st) =
      s.run.items.countP (rowIs s.db st) := by
  rw [← hitems, List.countP_map]
  apply List.countP_congr
  intro c _
  rw [Function.comp_apply, status_same hi, rowIs]

theorem finalized_accounted_iff (h : Tracked db t s) (hstage : s.run.stage = .working)
    (hres : all_results s.run.items = some results) {puts : List (Text × Bytes)} :
    Accounted (uploadable db t) ⟨finalize s.db s.run.task_id results s.run.items.length,
      { s.run with stage := .finished, phase := .final }, puts⟩ ↔ Kept s := by
  have hlisted := h.stage
  rw [hstage] at hlisted
  obtain ⟨hitems, hsome⟩ := hlisted
  have hlen : (uploadable db t).length = s.run.items.length := by rw [← hitems, List.length_map]
  have hne : uploadable db t ≠ [] := by simpa [← hitems] using hsome
  have hi : (finalize s.db s.run.task_id results s.run.items.length).items = s.db.items :=
    (written_tables s.db s.run.task_id _ none _ _).2.1
  obtain ⟨⟨e, hlast, htask, hpayload⟩, hstatus⟩ := written_last s.db s.run.task_id
    (final_status (results.count false)) (.task_completed (results.count true)
      (results.count false) (some s.run.items.length) none)
  have hmem : ∀ c ∈ s.run.items, c.item ∈ uploadable db t :=
    fun c hc => hitems ▸ List.mem_map_of_mem hc
  constructor
  · intro ha
    obtain ⟨e', uploaded, failed, hlast', _, hcompletion, hcounted, _⟩ := ha.recorded
    obtain rfl : e = e' := Option.some.inj (hlast.symm.trans hlast')
    rw [completion, if_neg hne, hpayload, EventPayload.task_completed.injEq] at hcompletion
    obtain ⟨rfl, rfl, _⟩ := hcompletion
    refine kept_of_counts h hres (hcounted.sum.trans hlen) ?_ ?_
    · exact hcounted.uploaded.trans (planned_count hitems hi .uploaded)
    · intro c hc
      have hst := ha.settled c.item (hmem c hc)
      rw [status_same hi] at hst
      rcases hst with hst | hst
      · exact ⟨true, hst⟩
      · exact ⟨false, hst⟩
  · intro hk
    have hsettled : ∀ c ∈ s.run.items, _ := fun c hc => hk.settled h hres hc
    refine ⟨?_, fun c hc => (hsettled c hc).1, e, results.count true, results.count false, hlast,
      htask, ?_, ⟨?_, ?_, ?_⟩, hstatus⟩
    · intro i hmem
      rw [← hitems] at hmem
      obtain ⟨c, hc, rfl⟩ := List.mem_map.mp hmem
      obtain ⟨_, ok, hok⟩ := hsettled c hc
      rw [status_same hi, hok]
      cases ok
      · exact .inr rfl
      · exact .inl rfl
    · rw [completion, if_neg hne, hlen]
      exact hpayload
    · rw [hk.counts h hres true, hk.counts h hres false, Grouping.countP_either, hlen,
        List.countP_eq_length]
      · intro c hc
        obtain ⟨_, ok, hok⟩ := hsettled c hc
        cases ok <;> simp [rowIs, hok, outcome]
      · intro c _ hc
        simp only [rowIs, beq_iff_eq] at hc
        simp [rowIs, hc, outcome]
    · exact (hk.counts h hres true).trans (planned_count hitems hi .uploaded).symm
    · exact (hk.counts h hres false).trans (planned_count hitems hi .failed).symm

theorem completed_accounted (h : Tracked db t s) (hstage : s.run.stage = .idle n)
    {puts : List (Text × Bytes)} :
    Accounted (uploadable db t) ⟨complete s.db s.run.task_id n,
      { s.run with stage := .finished, phase := .final }, puts⟩ ∧ Kept s := by
  have hlisted := h.stage
  rw [hstage] at hlisted
  obtain ⟨hnone, hnil⟩ := hlisted
  obtain ⟨⟨e, hlast, htask, hpayload⟩, hstatus⟩ := written_last s.db s.run.task_id .uploaded
    (.task_completed 0 0 none (some n))
  refine ⟨⟨?_, ?_, e, 0, 0, hlast, htask, ?_, ?_, hstatus⟩, ?_⟩
  · simp [hnone]
  · simp [hnil]
  · rw [completion, if_pos hnone]
    exact ⟨n, hpayload⟩
  · rw [hnone]
    exact ⟨rfl, rfl, rfl⟩
  · simp [Kept, hnil]

theorem scheduled_tracked : Tracked db t (scheduled db rid t) := by
  refine ⟨rfl, .nil, ?_, rfl, rfl⟩
  simp [scheduled]

/-- When a run writes its final status, every item that it was to upload is settled and counted as
its row shows, if and only if each exception that has left an item was contained. -/
theorem accounted_iff (hn : (db.items.map TaskItem.id).Nodup)
    (hrun : Run Backends.step Free (scheduled db rid t) s) {a : RunAction} (ha : WritesFinal a)
    (hs : Backends.step s a = some s') :
    Accounted (uploadable db t) s' ↔ Run Backends.step Contained (scheduled db rid t) s := by
  have htracked : ∀ s, Run Backends.step Free (scheduled db rid t) s → Tracked db t s := by
    intro s hrun
    exact hrun.invariant (Tracked db t) scheduled_tracked (fun _ _ _ h _ hs => step_tracked hn h hs)
  have hstart : Kept (scheduled db rid t) := by simp [Kept, scheduled]
  rw [hrun.meets_iff Kept (Tracked db t) htracked hstart (fun _ _ _ h hs => step_kept_iff h hs)]
  have h := htracked s hrun
  obtain ⟨⟨db', next⟩, hmove, hs⟩ := Option.bind_eq_some_iff.mp hs
  obtain ⟨run, rfl, rfl⟩ := Option.map_eq_some_iff.mp hs
  cases run_moves hmove with
  | completed n hstage =>
    obtain ⟨hacc, hk⟩ := completed_accounted h hstage
    exact iff_of_true hacc hk
  | finalized results hstage hres => exact finalized_accounted_iff h hstage hres
  | _ => exact ha.elim

/-- The database in which a task with these files is confirmed. -/
def confirmedDb (files : List (Text × Bytes)) : Db :=
  ((replay (Bridge.step Sample.cfg) Free Bridge.initial (Sample.confirmed 0 0 files)).getD
    Bridge.initial).db

/-- One item is delivered; an exception leaves the other one once its failure is committed. -/
theorem contained_accounted :
    ∃ s s', Run Backends.step Contained
        (scheduled (confirmedDb [("acme/a.txt".toList, [1]), ("beta/b.txt".toList, [2])]) 0 0) s ∧
      Backends.step s .finalize = some s' ∧ s'.run.items.map (·.stage) = [.ended true, .escaped] ∧
      Accounted (uploadable (confirmedDb [("acme/a.txt".toList, [1]), ("beta/b.txt".toList, [2])]) 0)
        s' := by
  obtain ⟨s, hrun, hfinal⟩ := replay_reaches Backends.step Contained
    (p := fun s => (Backends.step s .finalize).any (fun s' =>
      s'.run.items.map (·.stage) = [.ended true, .escaped]) = true)
    (scheduled (confirmedDb [("acme/a.txt".toList, [1]), ("beta/b.txt".toList, [2])]) 0 0)
    [.read, .start, .list, .plan, .item 2 .mark, .item 3 .mark, .item 2 (.store [1]),
      .item 3 (.raise "refused"), .item 2 .done, .item 3 .fail, .item 2 .publish, .item 3 .escape]
    (by decide +kernel)
  obtain ⟨s', hs, hstages⟩ := (Option.any_eq_true ..).mp hfinal
  refine ⟨s, s', hrun, hs, of_decide_eq_true hstages, ?_⟩
  exact (accounted_iff (by decide +kernel) hrun.free (a := .finalize) trivial hs).mpr hrun

/-- The first `uploading` of a target cannot be committed: its other item still runs when the final
status is written, and is not counted. -/
theorem escape_hides_sibling :
    ¬∀ (db : Db) (rid t : Nat) (s s' : PythonRun) (a : RunAction), (db.items.map TaskItem.id).Nodup →
      Run Backends.step Free (scheduled db rid t) s → WritesFinal a → Backends.step s a = some s' →
        Accounted (uploadable db t) s' := by
  intro h
  obtain ⟨s, hrun, hfinal⟩ := replay_reaches Backends.step Free
    (p := fun s => (Backends.step s .finalize).any (fun s' =>
      s'.run.items.any (fun c => !c.stage.over)) = true)
    (scheduled (confirmedDb [("acme/a.txt".toList, [1]), ("acme/b.txt".toList, [2])]) 0 0)
    [.read, .start, .list, .plan, .item 2 .escape, .item 3 .mark] (by decide +kernel)
  obtain ⟨s', hs, hrunning⟩ := (Option.any_eq_true ..).mp hfinal
  obtain ⟨c, hc, hover⟩ := List.any_eq_true.mp hrunning
  have hacc := h _ 0 0 s s' .finalize (by decide +kernel) hrun trivial hs
  rw [hacc.none_running c hc] at hover
  cases hover

end FileDelivery.Proofs.RunCounts
