import FileDelivery.Bridge.RunProgress
import FileDelivery.Proofs.RunCounts

namespace FileDelivery.Proofs.RunStory
open FileDelivery.Library FileDelivery.Library.Runs FileDelivery.Control
open FileDelivery.Control.TaskRunner FileDelivery.Bridge FileDelivery.Bridge.Backends
open FileDelivery.Bridge.RunProgress
open FileDelivery.Proofs.RunMoves FileDelivery.Proofs.RunSteps FileDelivery.Proofs.PythonBackend
open FileDelivery.Proofs.RunCounts

/-- The item that an event is about. -/
def subject : ProgressEvent → Option TaskItem
  | .item_progress item _ | .item_done item | .item_failed item _ => some item
  | _ => none

/-- The last event before the sentinel. -/
def concludes : ProgressEvent → Bool
  | .task_done _ _ _ _ | .task_failed _ => true
  | _ => false

/-- How far a run has got in what it tells. -/
inductive Chapter where
  | silent
  | opened
  | planned (total : Nat)
  | closed
  deriving DecidableEq

/-- What a run of the task tells, in its order. Items may go on after the sentinel. -/
inductive Story (t : Nat) : List (Option ProgressEvent) → Chapter → Prop
  | silent : Story t [] .silent
  | opened (h : Story t es .silent) : Story t (es ++ [some (.task_started t)]) .opened
  | planned (h : Story t es .opened) : Story t (es ++ [some (.task_plan n groups)]) (.planned n)
  | item (h : Story t es (.planned n)) (he : subject e = some i) : Story t (es ++ [some e]) (.planned n)
  | idle (h : Story t es .opened) : Story t (es ++ [some (.task_done none 0 0 n), none]) .closed
  | done (h : Story t es (.planned n)) :
      Story t (es ++ [some (.task_done (some st) uploaded failed n), none]) .closed
  | failed (h : Story t es chapter) (hc : chapter ≠ .closed) :
      Story t (es ++ [some (.task_failed error), none]) .closed
  | late (h : Story t es .closed) (he : subject e = some i) : Story t (es ++ [some e]) .closed

/-- What one step of a run with its bus may do. -/
inductive Progress (s : RunProgress.State) : RunProgress.Action → RunProgress.State → Prop
  | opened (h : opening s.python.run s.told.length = some e) : Progress s .publish (s.tell [some e])
  | progressed (hfind : s.findItem item_id = some c) (hst : c.stage = .marked) :
      Progress s (.on_progress item_id n) (s.tell [some (.item_progress c.item n)])
  | ran (hready : Ready s a) (hs : Backends.step s.python a = some ⟨db', run, putsAfter s.python a⟩)
      (hm : RunMove s.python.db s.python.run a db' (some run)) :
      Progress s (.run a) ⟨⟨db', run, putsAfter s.python a⟩, excAfter s a, resultAfter s a,
        s.told ++ publishes s a⟩

variable {t n rid item_id : Nat} {es : List (Option ProgressEvent)} {chapter : Chapter} {e : ProgressEvent}

/-- Items are told about once they are planned. -/
theorem Story.next (h : Story t es chapter) (hs : subject e = some i) (hp : (∃ n, chapter = .planned n) ∨ chapter = .closed) :
    Story t (es ++ [some e]) chapter := by
  rcases hp with ⟨n, rfl⟩ | rfl
  · exact h.item hs
  · exact h.late hs

/-- Events of a run that has not come to its end. -/
def Unconcluded (events : List ProgressEvent) : Prop := ∀ e ∈ events, concludes e = false

theorem Unconcluded.snoc {events : List ProgressEvent} (h : Unconcluded events) (he : concludes e = false) :
    Unconcluded (events ++ [e]) := by
  intro x hx
  rcases List.mem_append.mp hx with hx | hx
  · exact h x hx
  · rw [List.mem_singleton.mp hx]
    exact he

theorem subject_unconcluded (he : subject e = some i) : concludes e = false := by
  cases e <;> first | rfl | cases he

theorem Story.before_end (h : Story t es chapter) (hc : chapter ≠ .closed) :
    ∃ events : List ProgressEvent, es = events.map some ∧ Unconcluded events := by
  induction h with
  | silent => exact ⟨[], rfl, by simp [Unconcluded]⟩
  | opened _ ih =>
    obtain ⟨events, rfl, hno⟩ := ih (by simp)
    exact ⟨events ++ [.task_started t], by simp, hno.snoc rfl⟩
  | @planned _ n groups _ ih =>
    obtain ⟨events, rfl, hno⟩ := ih (by simp)
    exact ⟨events ++ [.task_plan n groups], by simp, hno.snoc rfl⟩
  | item _ he ih =>
    obtain ⟨events, rfl, hno⟩ := ih (by simp)
    exact ⟨events ++ [_], by simp, hno.snoc (subject_unconcluded he)⟩
  | idle | done | failed | late => exact absurd rfl hc

/-- A story with its end: the events up to the last one, the sentinel, and late events. -/
structure Ended (t : Nat) (es : List (Option ProgressEvent)) (events : List ProgressEvent)
    (last : ProgressEvent) (late : List ProgressEvent) : Prop where
  told : es = (events ++ [last]).map some ++ none :: late.map some
  concluded : concludes last = true
  before : Unconcluded events
  after : Unconcluded late
  story : Story t ((events ++ [last]).map some ++ [none]) .closed

theorem Story.concluded {events : List ProgressEvent}
    (h : Story t (events.map some ++ [some e, none]) .closed) (hno : Unconcluded events)
    (he : concludes e = true) :
    ∃ before last late, Ended t (events.map some ++ [some e, none]) before last late :=
  ⟨events, e, [], by simp, he, hno, by simp [Unconcluded], by simpa using h⟩

theorem Story.after_end (h : Story t es chapter) (hc : chapter = .closed) :
    ∃ events last late, Ended t es events last late := by
  induction h with
  | silent | opened | planned | item => cases hc
  | idle h =>
    obtain ⟨events, rfl, hno⟩ := h.before_end (by simp)
    exact h.idle.concluded hno rfl
  | done h =>
    obtain ⟨events, rfl, hno⟩ := h.before_end (by simp)
    exact h.done.concluded hno rfl
  | failed h hopen =>
    obtain ⟨events, rfl, hno⟩ := h.before_end hopen
    exact (h.failed hopen).concluded hno rfl
  | @late _ e _ _ he ih =>
    obtain ⟨events, last, late, ⟨rfl, hlast, hbefore, hafter, hstory⟩⟩ := ih rfl
    exact ⟨events, last, late ++ [e], by simp, hlast, hbefore, hafter.snoc (subject_unconcluded he), hstory⟩

/-- An item is delivered, or it has failed. -/
def decides (item_id : Nat) : Option ProgressEvent → Bool
  | some (.item_done item) | some (.item_failed item _) => item.id == item_id
  | _ => false

/-- What has been told of an item's outcome, at a stage of its coroutine. -/
def outcomeTold (exc : String) (c : ItemRun) : List (Option ProgressEvent) :=
  match c.stage with
  | .ended true => [some (.item_done c.item)]
  | .ended false => [some (.item_failed c.item (clip 200 exc))]
  | _ => []

/-- The error in an item's row. -/
def itemError (db : Db) (item_id : Nat) : Option String :=
  (Rows.find? db.items item_id).map TaskItem.upload_error

/-- The exception that an item's handler has caught, and its row has once it is committed. -/
def Caught (db : Db) (exc : String) (c : ItemRun) : Prop :=
  match c.stage with
  | .raised error => error = exc
  | .reported | .ended false => itemError db c.item.id = some (clip 1000 exc)
  | _ => True

/-- What is told of an item is what has come of it. -/
structure Reports (s : RunProgress.State) (c : ItemRun) : Prop where
  verdict : s.told.filter (decides c.item.id) = outcomeTold (s.exc c.item.id) c
  stored : ItemStage.hasStored c.stage = true → ∃ data, (c.item.dst_path, data) ∈ s.python.puts ∧
    some (.item_progress c.item data.length) ∈ s.told
  caught : Caught s.python.db (s.exc c.item.id) c

variable {db db' : Db} {s s' : RunProgress.State} {c q : ItemRun} {stage : ItemStage} {action : ItemAction}
  {run : TaskRun}

theorem set_error (db : Db) (item : TaskItem) (st : UploadStatus) (error : String) (at' : Option Time) (k : Nat) :
    itemError (setStatus db item st error at') k =
      (itemError db k).map (fun old => if k = item.id then error else old) := by
  simp only [itemError, set_items]
  rw [Rows.find_update (f := ItemRepo.setUpload st error at') (fun _ => rfl)]
  cases Rows.find? db.items k with
  | none => rfl
  | some row =>
    by_cases hk : k = item.id <;> simp [hk, ItemRepo.setUpload]

/-- The state after a step of an item's coroutine. -/
def moved (s : RunProgress.State) (db' : Db) (run : TaskRun) (item_id : Nat) (action : ItemAction) :
    RunProgress.State :=
  ⟨⟨db', run, putsAfter s.python (.item item_id action)⟩, excAfter s (.item item_id action), s.result,
    s.told ++ publishes s (.item item_id action)⟩

theorem Reports.move (h : Reports s c) (hrow : (itemError s.python.db c.item.id).isSome)
    (hfind : s.findItem c.item.id = some c) (hready : Ready s (.item c.item.id action))
    (hm : _upload_item s.python.db c.item c.stage action = some (db', stage)) :
    Reports (moved s db' run c.item.id action) { c with stage := stage } := by
  obtain ⟨old, hold⟩ := Option.isSome_iff_exists.mp hrow
  obtain ⟨hverdict, hstored, hcaught⟩ := h
  obtain ⟨item, before⟩ := c
  have hnone : before.over = false → s.told.filter (decides item.id) = [] := by
    intro hlive
    rw [hverdict]
    cases before <;> first | rfl | cases hlive
  have hquiet := hnone (item_moves hm).1
  cases action with
  | mark =>
    cases before <;> cases hm
    exact ⟨by simpa [moved, publishes, outcomeTold] using hquiet, (by intro hs; cases hs), trivial⟩
  | store data =>
    cases before <;> cases hm
    refine ⟨by simpa [moved, publishes, outcomeTold] using hquiet, fun _ => ⟨data, ?_, ?_⟩, trivial⟩
    · have hrun : Rows.find? s.python.run.items item.id = some ⟨item, .marked⟩ := hfind
      simp [moved, putsAfter, hrun]
    · exact List.mem_append_left _ (hready ⟨item, .marked⟩ hfind)
  | done =>
    cases before <;> cases hm
    refine ⟨by simpa [moved, publishes, outcomeTold] using hquiet, fun _ => ?_, trivial⟩
    obtain ⟨data, hput, htold⟩ := hstored rfl
    exact ⟨data, hput, List.mem_append_left _ htold⟩
  | publish =>
    cases before <;> cases hm
    refine ⟨?_, fun _ => ?_, trivial⟩
    · simp only [moved, publishes, hfind, Option.map_some, Option.toList_some, List.filter_append, hquiet]
      simp [outcomeTold, decides]
    · obtain ⟨data, hput, htold⟩ := hstored rfl
      exact ⟨data, hput, List.mem_append_left _ htold⟩
  | raise error =>
    cases before <;> cases hm
    all_goals
      refine ⟨by simpa [moved, publishes, outcomeTold] using hquiet, (by intro hs; cases hs), ?_⟩
      simp [moved, excAfter, Caught]
  | fail =>
    cases before <;> cases hm
    refine ⟨by simpa [moved, publishes, outcomeTold] using hquiet, (by intro hs; cases hs), ?_⟩
    have herror := set_error s.python.db item .failed (clip 1000 (s.exc item.id)) none item.id
    simp only [hold, Option.map_some, if_true] at herror
    simp only [Caught] at hcaught
    simpa [moved, excAfter, Caught, hcaught] using herror
  | report =>
    cases before <;> cases hm
    refine ⟨?_, (by intro hs; cases hs), hcaught⟩
    simp only [moved, publishes, hfind, Option.map_some, Option.toList_some, List.filter_append, hquiet]
    simp [outcomeTold, decides, excAfter]
  | escape =>
    cases before <;> cases hm
    all_goals
      exact ⟨by simpa [moved, publishes, outcomeTold] using hquiet, (by intro hs; cases hs), trivial⟩

/-- What has come of an item does not change by what is told and done about others. -/
theorem Reports.kept (h : Reports s q) (htold : s'.told = s.told ++ es)
    (hes : ∀ e ∈ es, decides q.item.id e = false) (hexc : s'.exc q.item.id = s.exc q.item.id)
    (hputs : ∀ put ∈ s.python.puts, put ∈ s'.python.puts)
    (herror : itemError s'.python.db q.item.id = itemError s.python.db q.item.id) : Reports s' q := by
  obtain ⟨hverdict, hstored, hcaught⟩ := h
  refine ⟨?_, fun hs => ?_, ?_⟩
  · have hnone : es.filter (decides q.item.id) = [] :=
      List.filter_eq_nil_iff.mpr (fun e he => by simp [hes e he])
    rw [htold, List.filter_append, hnone, List.append_nil, hexc]
    exact hverdict
  · obtain ⟨data, hput, hprogress⟩ := hstored hs
    exact ⟨data, hputs _ hput, htold ▸ List.mem_append_left _ hprogress⟩
  · simpa only [Caught, herror, hexc] using hcaught

theorem Reports.other (h : Reports s q) (hfind : s.findItem item_id = some c) (hne : q.item.id ≠ item_id)
    (hm : _upload_item s.python.db c.item c.stage action = some (db', stage)) :
    Reports (moved s db' run item_id action) q := by
  have hkey : c.item.id = item_id := Rows.find_key hfind
  refine h.kept rfl ?_ ?_ ?_ ?_
  · intro e he
    cases action <;> simp only [publishes, hfind, Option.map_some, Option.toList_some, List.not_mem_nil,
      List.mem_singleton] at he
    all_goals simpa [he, decides, hkey] using hne.symm
  · cases action <;> simp [moved, excAfter, hne]
  · intro put hput
    cases action <;> simp [moved, putsAfter, hput]
  · rcases (item_moves hm).2 with ⟨st, error, at', rfl, _⟩ | ⟨rfl, _⟩
    · have hrow := set_error s.python.db c.item st error at' q.item.id
      simpa [moved, hkey, hne] using hrow
    · rfl

theorem step_progress {a : RunProgress.Action} (h : RunProgress.step s a = some s') : Progress s a s' := by
  cases a with
  | publish =>
    obtain ⟨e, he, rfl⟩ := Option.map_eq_some_iff.mp h
    exact .opened he
  | on_progress item_id bytes_uploaded =>
    obtain ⟨c, hfind, h⟩ := Option.bind_eq_some_iff.mp h
    split at h
    · rename_i hc
      cases h
      exact .progressed hfind hc.1
    · cases h
  | run action =>
    simp only [RunProgress.step] at h
    split at h
    · rename_i hready
      obtain ⟨python, hs, rfl⟩ := Option.map_eq_some_iff.mp h
      obtain ⟨⟨db', next⟩, hrun, hnext⟩ := Option.bind_eq_some_iff.mp hs
      obtain ⟨run, rfl, rfl⟩ := Option.map_eq_some_iff.mp hnext
      exact .ran hready hs (run_moves hrun)
    · cases h

/-- An exception has left the coroutine of an item. -/
def Escaped (s : RunProgress.State) : Prop := ∃ c ∈ s.python.run.items, c.stage = .escaped

/-- A `task_done` says what the rows say, and counts every item unless an exception has left one. -/
def Concluded (db : Db) (t : Nat) (s : RunProgress.State) : ProgressEvent → Prop
  | .task_done none uploaded failed _ =>
    (∀ task ∈ s.python.db.tasks, task.id = t → task.status = .uploaded) ∧
      uploadable db t = [] ∧ uploaded = 0 ∧ failed = 0
  | .task_done (some st) uploaded failed total =>
    (∀ task ∈ s.python.db.tasks, task.id = t → task.status = st) ∧ st = final_status failed ∧
      total = (uploadable db t).length ∧ s.python.run.items.map (·.item) = uploadable db t ∧
      (Escaped s ∨ (∀ c ∈ s.python.run.items, ∃ ok, c.stage = .ended ok) ∧
        Counted (uploadable db t) s.python.db uploaded failed)
  | _ => True

/-- The chapter that a run has reached, by its stage. -/
def Fits (db : Db) (t : Nat) (s : RunProgress.State) (chapter : Chapter) : Prop :=
  match s.python.run.stage with
  | .starting | .checked => chapter = .silent
  | .started => chapter = .silent ∨ chapter = .opened
  | .idle _ => chapter = .opened
  | .planned items => chapter = .opened ∨ chapter = .planned items.length
  | .working => chapter = .planned s.python.run.items.length
  | .finished => ∃ e, s.result = some e ∧ Concluded db t s e ∧
      ((chapter = .opened ∧ ∃ n, e = .task_done none 0 0 n) ∨
        ∃ st uploaded failed n, chapter = .planned n ∧ e = .task_done (some st) uploaded failed n)
  | .failing _ => chapter ≠ .closed
  | .ended => chapter = .closed

/-- The invariant of a run with its bus, started on the database `db`. -/
structure Telling (db : Db) (t : Nat) (s : RunProgress.State) : Prop where
  tracked : Tracked db t s.python
  reports : ∀ c ∈ s.python.run.items, Reports s c
  subjects : ∀ e i, some e ∈ s.told → subject e = some i → ∃ c ∈ s.python.run.items, c.item = i
  story : ∃ chapter, Story t s.told chapter ∧ Fits db t s chapter ∧
    (s.python.run.items ≠ [] → (∃ n, chapter = .planned n) ∨ chapter = .closed)
  plan : ∀ n groups, some (.task_plan n groups) ∈ s.told →
    n = (uploadable db t).length ∧ groups = targets (uploadable db t)
  concluded : ∀ e, some e ∈ s.told → Concluded db t s e
  last : ∀ st uploaded failed n, some (.task_done (some st) uploaded failed n) ∈ s.told →
    Escaped s ∨ s.told.getLast? = some none
  planned : ∀ c ∈ s.python.run.items, c.item ∈ uploadable db t

/-- A run that has not ended has told no conclusion. -/
theorem Telling.unconcluded (h : Telling db t s) (hstage : s.python.run.stage ≠ .ended)
    (he : some e ∈ s.told) : concludes e = false := by
  obtain ⟨chapter, hstory, hfits, _⟩ := h.story
  have hopen : chapter ≠ .closed := by
    rintro rfl
    revert hstage hfits
    unfold Fits
    cases s.python.run.stage <;> simp
  obtain ⟨events, htold, hno⟩ := hstory.before_end hopen
  rw [htold] at he
  obtain ⟨e', he', heq⟩ := List.mem_map.mp he
  cases heq
  exact hno e he'

theorem unconcluded_holds (he : concludes e = false) : Concluded db t s e := by
  cases e <;> trivial

/-- The run goes on without its items, and tells no more than its conclusion. -/
theorem Telling.quiet (h : Telling db t s) (htracked : Tracked db t s'.python)
    (hitems : s'.python.run.items = s.python.run.items) (hrows : s'.python.db.items = s.python.db.items)
    (hputs : s'.python.puts = s.python.puts) (hexc : s'.exc = s.exc) (htold : s'.told = s.told ++ es)
    (hes : ∀ e, some e ∈ es → concludes e = true)
    (hstory : ∃ chapter, Story t s'.told chapter ∧ Fits db t s' chapter ∧
      (s'.python.run.items ≠ [] → (∃ n, chapter = .planned n) ∨ chapter = .closed))
    (hconcluded : ∀ e, some e ∈ s'.told → Concluded db t s' e)
    (hlast : ∀ st uploaded failed n, some (.task_done (some st) uploaded failed n) ∈ s'.told →
      Escaped s' ∨ s'.told.getLast? = some none) : Telling db t s' := by
  have hold : ∀ e, some e ∈ s'.told → concludes e = false → some e ∈ s.told := by
    intro e he hno
    rw [htold] at he
    rcases List.mem_append.mp he with he | he
    · exact he
    · rw [hes e he] at hno
      cases hno
  refine ⟨htracked, fun c hc => ?_, fun e i he hi => ?_, hstory, fun n groups he => ?_, hconcluded, hlast,
    hitems ▸ h.planned⟩
  · refine (h.reports c (hitems ▸ hc)).kept htold ?_ (by rw [hexc]) (by rw [hputs]; exact fun _ hp => hp) ?_
    · intro e he
      cases e with
      | none => rfl
      | some e =>
        have hconcludes := hes e he
        cases e <;> first | rfl | cases hconcludes
    · simp only [itemError, hrows]
  · rw [hitems]
    exact h.subjects e i (hold e he (subject_unconcluded hi)) hi
  · exact h.plan n groups (hold _ he rfl)

/-- A step that tells nothing, between two stages before the end. -/
theorem Telling.silent (h : Telling db t s) (hstage : s.python.run.stage ≠ .ended)
    (htracked : Tracked db t s'.python) (hitems : s'.python.run.items = s.python.run.items)
    (hrows : s'.python.db.items = s.python.db.items) (hputs : s'.python.puts = s.python.puts)
    (hexc : s'.exc = s.exc) (htold : s'.told = s.told)
    (hfits : ∀ chapter, Story t s.told chapter → Fits db t s chapter → Fits db t s' chapter) :
    Telling db t s' := by
  obtain ⟨chapter, hstory, hold, hbusy⟩ := h.story
  have hnothing : s'.told = s.told ++ [] := by rw [htold, List.append_nil]
  refine h.quiet htracked hitems hrows hputs hexc hnothing
    (by intro _ he; cases he) ⟨chapter, htold ▸ hstory, hfits chapter hstory hold, hitems ▸ hbusy⟩ ?_ ?_
  · intro e he
    exact unconcluded_holds (h.unconcluded hstage (htold ▸ he))
  · intro st uploaded failed n he
    have hno := h.unconcluded hstage (htold ▸ he)
    cases hno

/-- The run after a step of an item's coroutine. -/
def itemMoved (s : RunProgress.State) (db' : Db) (item_id : Nat) (stage : ItemStage) (action : ItemAction) :
    RunProgress.State :=
  moved s db' { s.python.run with items := restaged s.python.run.items item_id stage } item_id action

theorem item_tasks (hm : _upload_item s.python.db c.item c.stage action = some (db', stage)) :
    db'.tasks = s.python.db.tasks := by
  rcases (item_moves hm).2 with ⟨st, error, at', rfl, _⟩ | ⟨rfl, _⟩
  · exact (set_same _ _ _ _ _).1
  · rfl

/-- What an exception has left stays so. -/
theorem Escaped.item (h : Escaped s) (hfind : s.findItem item_id = some c) (hlive : c.stage.over = false)
    (hids : (s.python.run.items.map (·.item.id)).Nodup) : Escaped (itemMoved s db' item_id stage action) := by
  obtain ⟨q, hq, hstage⟩ := h
  have hne : q.item.id ≠ item_id := by
    intro hid
    have hsame := Rows.eq_of_key hids hq (Rows.find_mem hfind) (hid.trans (Rows.find_key hfind).symm)
    rw [← hsame, hstage] at hlive
    cases hlive
  exact ⟨q, Rows.mem_update_of_ne hq hne, hstage⟩

/-- A conclusion that counts the items stands once they have ended; otherwise it waits for none. -/
theorem Concluded.item (h : Concluded db t s e) (hids : (s.python.run.items.map (·.item.id)).Nodup)
    (hfind : s.findItem item_id = some c)
    (hm : _upload_item s.python.db c.item c.stage action = some (db', stage)) :
    Concluded db t (itemMoved s db' item_id stage action) e := by
  have htasks := item_tasks hm
  have hlive := (item_moves hm).1
  match e with
  | .task_done none uploaded failed total => exact ⟨by simpa [itemMoved, moved, htasks] using h.1, h.2⟩
  | .task_done (some st) uploaded failed total =>
    obtain ⟨hstatus, hfinal, htotal, hitems, hends⟩ := h
    refine ⟨by simpa [itemMoved, moved, htasks] using hstatus, hfinal, htotal, ?_, .inl ?_⟩
    · exact (restaged_map id).trans hitems
    rcases hends with hesc | ⟨hended, _⟩
    · exact hesc.item hfind hlive hids
    · obtain ⟨ok, hstage⟩ := hended c (Rows.find_mem hfind)
      rw [hstage] at hlive
      cases hlive
  | .task_started _ | .task_plan _ _ | .item_progress _ _ | .item_done _ | .item_failed _ _
  | .task_failed _ => trivial

theorem Fits.item (h : Fits db t s chapter) (hids : (s.python.run.items.map (·.item.id)).Nodup)
    (hfind : s.findItem item_id = some c)
    (hm : _upload_item s.python.db c.item c.stage action = some (db', stage))
    (hlen : (itemMoved s db' item_id stage action).python.run.items.length = s.python.run.items.length) :
    Fits db t (itemMoved s db' item_id stage action) chapter := by
  have hsame : (itemMoved s db' item_id stage action).python.run.stage = s.python.run.stage := rfl
  unfold Fits at h ⊢
  rw [hsame, hlen]
  cases hstage : s.python.run.stage with
  | finished =>
    simp only [hstage] at h ⊢
    obtain ⟨e, hresult, hconcluded, hkind⟩ := h
    exact ⟨e, hresult, hconcluded.item hids hfind hm, hkind⟩
  | _ => simpa only [hstage] using h

/-- Something that is no conclusion is told, and nothing else happens. -/
theorem Telling.tell (h : Telling db t s) (he : ∀ k, decides k (some e) = false)
    (hno : concludes e = false) (hsubject : ∀ i, subject e = some i → ∃ c ∈ s.python.run.items, c.item = i)
    (hplan : ∀ n groups, e = .task_plan n groups →
      n = (uploadable db t).length ∧ groups = targets (uploadable db t))
    (hstory : ∃ chapter, Story t (s.told ++ [some e]) chapter ∧ Fits db t s chapter ∧
      (s.python.run.items ≠ [] → (∃ n, chapter = .planned n) ∨ chapter = .closed))
    (hlast : ∀ st uploaded failed n, some (.task_done (some st) uploaded failed n) ∈ s.told → Escaped s) :
    Telling db t (s.tell [some e]) := by
  have hcases : ∀ x, some x ∈ (s.tell [some e]).told → some x ∈ s.told ∨ x = e := by
    intro x hx
    rcases List.mem_append.mp hx with hx | hx
    · exact .inl hx
    · exact .inr (Option.some.inj (List.mem_singleton.mp hx))
  refine ⟨h.tracked, fun c hc => ?_, fun x i hx hi => ?_, hstory, fun n groups hx => ?_, fun x hx => ?_, ?_,
    h.planned⟩
  · refine (h.reports c hc).kept rfl ?_ rfl (fun _ hput => hput) rfl
    intro x hx
    rw [List.mem_singleton.mp hx]
    exact he c.item.id
  · rcases hcases x hx with hx | rfl
    · exact h.subjects x i hx hi
    · exact hsubject i hi
  · rcases hcases _ hx with hx | rfl
    · exact h.plan n groups hx
    · exact hplan n groups rfl
  · rcases hcases x hx with hx | rfl
    · exact h.concluded x hx
    · exact unconcluded_holds hno
  · intro st uploaded failed n hx
    rcases hcases _ hx with hx | rfl
    · exact .inl (hlast st uploaded failed n hx)
    · cases hno

theorem Fits.open (h : Fits db t s chapter) (hstage : s.python.run.stage ≠ .ended) :
    chapter ≠ .closed := by
  unfold Fits at h
  rintro rfl
  cases hst : s.python.run.stage with
  | ended => exact hstage hst
  | finished =>
    rw [hst] at h
    obtain ⟨_, _, _, ⟨hbad, _⟩ | ⟨_, _, _, _, hbad, _⟩⟩ := h <;> cases hbad
  | _ => simp [hst] at h

/-- The `upload_file` of an item has not returned. -/
def untried : ItemStage → Bool
  | .waiting | .marked => true
  | _ => false

/-- No other item of the run goes to the item's destination. -/
def Unshared (db : Db) (t : Nat) (item : TaskItem) : Prop :=
  ∀ i ∈ uploadable db t, i.dst_path = item.dst_path → i = item

/-- What the run has stored: each object by an item whose upload has returned, and one where a
destination is not shared. -/
structure Stores (db : Db) (t : Nat) (s : PythonRun) : Prop where
  owned : ∀ put ∈ s.puts, ∃ c ∈ s.run.items, c.item.dst_path = put.1 ∧ untried c.stage = false
  once : ∀ item, Unshared db t item → ∀ put ∈ s.puts, ∀ other ∈ s.puts,
    put.1 = item.dst_path → other.1 = item.dst_path → put = other

theorem item_tried (hm : _upload_item db c.item c.stage action = some (db', stage))
    (hc : untried c.stage = false) : untried stage = false := by
  generalize c.stage = before at hm hc
  cases action <;> cases before <;> cases hm <;> first | rfl | cases hc

theorem item_stores {data : Bytes}
    (hm : _upload_item db c.item c.stage (.store data) = some (db', stage)) :
    untried c.stage = true ∧ stage = .stored := by
  generalize c.stage = before at hm ⊢
  cases before <;> cases hm
  exact ⟨rfl, rfl⟩

/-- An item that stores is the first to do so at its destination, unless it shares that. -/
theorem Stores.item (h : Stores db t s.python) (hp : ∀ c ∈ s.python.run.items, c.item ∈ uploadable db t)
    (hids : (s.python.run.items.map (·.item.id)).Nodup) (hfind : s.findItem item_id = some c)
    (hm : _upload_item s.python.db c.item c.stage action = some (db', stage)) :
    Stores db t (itemMoved s db' item_id stage action).python := by
  have hmem : c ∈ s.python.run.items := Rows.find_mem hfind
  have hkey : c.item.id = item_id := Rows.find_key hfind
  have hrun : Rows.find? s.python.run.items item_id = some c := hfind
  have hnew : { c with stage := stage } ∈ restaged s.python.run.items item_id stage :=
    Rows.mem_update_of_mem (f := fun c : ItemRun => { c with stage := stage }) hmem hkey
  have howned : ∀ put ∈ s.python.puts, ∃ q ∈ restaged s.python.run.items item_id stage,
      q.item.dst_path = put.1 ∧ untried q.stage = false := by
    intro put hput
    obtain ⟨q, hq, hdst, htried⟩ := h.owned put hput
    by_cases hid : q.item.id = item_id
    · obtain rfl := Rows.eq_of_key hids hq hmem (hid.trans hkey.symm)
      exact ⟨_, hnew, hdst, item_tried hm htried⟩
    · exact ⟨q, Rows.mem_update_of_ne hq hid, hdst, htried⟩
  cases action with
  | store data =>
    obtain ⟨huntried, hstage⟩ := item_stores hm
    have hfirst : ∀ item, Unshared db t item → c.item.dst_path = item.dst_path →
        ∀ put ∈ s.python.puts, put.1 ≠ item.dst_path := by
      intro item halone hc put hput hdst
      obtain ⟨q, hq, hqdst, htried⟩ := h.owned put hput
      have hqi := halone q.item (hp q hq) (hqdst.trans hdst)
      have hci := halone c.item (hp c hmem) hc
      obtain rfl := Rows.eq_of_key hids hq hmem (congrArg TaskItem.id (hqi.trans hci.symm))
      rw [huntried] at htried
      cases htried
    have hputs : (itemMoved s db' item_id stage (.store data)).python.puts =
        s.python.puts ++ [(c.item.dst_path, data)] := by
      simp [itemMoved, moved, putsAfter, hrun]
    constructor
    · rw [hputs]
      intro put hput
      rcases List.mem_append.mp hput with hold | hput
      · exact howned put hold
      · rw [List.mem_singleton.mp hput]
        exact ⟨_, hnew, rfl, hstage ▸ rfl⟩
    · rw [hputs]
      intro item halone put hput other hother hdst hodst
      rcases List.mem_append.mp hput with hold | hput <;> rcases List.mem_append.mp hother with hoold | hother
      · exact h.once item halone put hold other hoold hdst hodst
      · rw [List.mem_singleton.mp hother] at hodst
        exact absurd hdst (hfirst item halone hodst put hold)
      · rw [List.mem_singleton.mp hput] at hdst
        exact absurd hodst (hfirst item halone hdst other hoold)
      · rw [List.mem_singleton.mp hput, List.mem_singleton.mp hother]
  | _ => exact ⟨howned, h.once⟩

/-- What an event tells is so. -/
def Truthful (db : Db) (t : Nat) (s : RunProgress.State) : ProgressEvent → Prop
  | .task_started task_id => task_id = t
  | .task_plan total groups => total = (uploadable db t).length ∧ groups = targets (uploadable db t)
  | .item_progress item _ => item ∈ uploadable db t
  | .item_done item => item ∈ uploadable db t ∧ itemStatus s.python.db item.id = some .uploaded ∧
      ∃ data, (item.dst_path, data) ∈ s.python.puts ∧ some (.item_progress item data.length) ∈ s.told ∧
        (Unshared db t item → ∀ put ∈ s.python.puts, put.1 = item.dst_path → put.2 = data)
  | .item_failed item error => item ∈ uploadable db t ∧ itemStatus s.python.db item.id = some .failed ∧
      ∃ recorded, itemError s.python.db item.id = some (clip 1000 recorded) ∧ error = clip 200 recorded
  | .task_done status uploaded failed total => Concluded db t s (.task_done status uploaded failed total)
  | .task_failed _ => True

theorem Story.started (h : Story t es chapter) {k : Nat} (hk : some (.task_started k) ∈ es) : k = t := by
  induction h with
  | silent => cases hk
  | opened h ih =>
    rcases List.mem_append.mp hk with hk | hk
    · exact ih hk
    · rw [List.mem_singleton, Option.some.injEq] at hk
      exact ProgressEvent.task_started.inj hk
  | @item es e i n _ he ih | @late es e i _ he ih =>
    rcases List.mem_append.mp hk with hk | hk
    · exact ih hk
    · rw [List.mem_singleton, Option.some.injEq] at hk
      rw [← hk] at he
      cases he
  | planned h ih | idle h ih | done h ih | failed h _ ih => exact ih (by simpa using hk)

/-- The one item that an event is about, and how it stands. -/
theorem Telling.decided (h : Telling db t s) (he : some e ∈ s.told) {i : TaskItem} (hi : subject e = some i)
    (hd : decides i.id (some e) = true) : ∃ c ∈ s.python.run.items, c.item = i ∧ Reports s c ∧
      some e ∈ outcomeTold (s.exc c.item.id) c := by
  obtain ⟨c, hc, rfl⟩ := h.subjects e i he hi
  refine ⟨c, hc, rfl, h.reports c hc, ?_⟩
  rw [← (h.reports c hc).verdict]
  exact List.mem_filter.mpr ⟨he, hd⟩

theorem Telling.truthful (h : Telling db t s) (hstores : Stores db t s.python) (he : some e ∈ s.told) :
    Truthful db t s e := by
  cases e with
  | task_started task_id =>
    obtain ⟨_, hstory, _⟩ := h.story
    exact hstory.started he
  | task_plan total groups => exact h.plan total groups he
  | item_progress item n =>
    obtain ⟨c, hc, rfl⟩ := h.subjects _ item he rfl
    exact h.planned c hc
  | item_done item =>
    obtain ⟨c, hc, rfl, hreports, htold⟩ := h.decided he rfl (by simp [decides])
    have hstage : c.stage = .ended true := by
      unfold outcomeTold at htold
      split at htold
      · assumption
      · cases List.mem_singleton.mp htold
      · cases htold
    obtain ⟨st, hst, hshow⟩ := h.tracked.shown c hc
    rw [hstage] at hshow
    obtain ⟨data, hput, hprogress⟩ := hreports.stored (by rw [hstage]; rfl)
    refine ⟨h.planned c hc, ?_, data, hput, hprogress, fun halone put hmem hdst => ?_⟩
    · rw [hst, show st = .uploaded from hshow.resolve_right (by simp)]
    · exact congrArg Prod.snd (hstores.once c.item halone put hmem _ hput hdst rfl)
  | item_failed item error =>
    obtain ⟨c, hc, rfl, hreports, htold⟩ := h.decided he rfl (by simp [decides])
    have hstage : c.stage = .ended false ∧ error = clip 200 (s.exc c.item.id) := by
      unfold outcomeTold at htold
      split at htold
      · cases List.mem_singleton.mp htold
      · rename_i hstage
        rw [List.mem_singleton, Option.some.injEq] at htold
        exact ⟨hstage, (ProgressEvent.item_failed.inj htold).2⟩
      · cases htold
    obtain ⟨st, hst, hshow⟩ := h.tracked.shown c hc
    have hcaught := hreports.caught
    rw [hstage.1] at hshow
    simp only [Caught, hstage.1] at hcaught
    refine ⟨h.planned c hc, ?_, _, hcaught, hstage.2⟩
    rw [hst, show st = .failed from hshow.resolve_right (by simp)]
  | task_done status uploaded failed total => exact h.concluded _ he
  | task_failed error => trivial

end FileDelivery.Proofs.RunStory
