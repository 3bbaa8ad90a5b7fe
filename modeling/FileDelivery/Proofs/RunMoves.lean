import FileDelivery.Bridge.Background
import FileDelivery.Library.Fallible
import FileDelivery.Library.Grouping
import FileDelivery.Proofs.Tables

namespace FileDelivery.Proofs.RunMoves
open FileDelivery.Library FileDelivery.Library.Fallible FileDelivery.Control
open FileDelivery.Control.TaskRunner FileDelivery.Bridge
open FileDelivery.Proofs.ApplyResult FileDelivery.Proofs.Effects FileDelivery.Proofs.Tables

/-- What one step of `run_task` may do. -/
inductive RunMove (db : Db) (run : TaskRun) : RunAction → Db → Option TaskRun → Prop
  | checked (h : run.stage = .starting) : RunMove db run .read db (some { run with stage := .checked })
  | refused (e : String) (h : run.stage = .starting) :
      RunMove db run .read db (some { run with stage := .failing e })
  | started (h : run.stage = .checked) :
      RunMove db run .start (start db run.task_id)
        (some { run with stage := .started, phase := .uploading })
  | listed (h : run.stage = .started) :
      RunMove db run .list db (some { run with stage := TaskRunner.listed db run.task_id })
  | completed (n : Nat) (h : run.stage = .idle n) :
      RunMove db run .complete (complete db run.task_id n)
        (some { run with stage := .finished, phase := .final })
  | planned (items : List TaskItem) (h : run.stage = .planned items) :
      RunMove db run .plan db
        (some { run with stage := .working, items := items.map (⟨·, .waiting⟩) })
  | item (i : ItemRun) (db' : Db) (stage : ItemStage) (hi : Rows.find? run.items item_id = some i)
      (h : _upload_item db i.item i.stage action = some (db', stage)) :
      RunMove db run (.item item_id action) db'
        (some { run with
          items := Rows.update run.items item_id (fun i => { i with stage := stage }) })
  | finalized (results : List Bool) (h : run.stage = .working)
      (hr : all_results run.items = some results) :
      RunMove db run .finalize (finalize db run.task_id results run.items.length)
        (some { run with stage := .finished, phase := .final })
  | published (h : run.stage = .finished) :
      RunMove db run .publish db (some { run with stage := .ended })
  | raised (e : String) (h : run.stage ≠ .ended) :
      RunMove db run (.raise e) db (some { run with stage := .failing e })
  | failed (e : String) (h : run.stage = .failing e) :
      RunMove db run .fail (TaskRunner.fail db run.task_id e)
        (some { run with stage := .ended, phase := .final })
  | lost (e : String) (h : run.stage = .failing e) :
      RunMove db run .lose db (some { run with stage := .ended })
  | left (h : run.stage = .ended) (hi : ∀ i ∈ run.items, i.stage.over = true) :
      RunMove db run .leave db none
  | crashed : RunMove db run .crash db none

theorem run_moves (h : run_task db run action = some (db', next)) :
    RunMove db run action db' next := by
  cases action with
  | read =>
    simp only [run_task] at h
    split at h
    · rename_i hst
      split at h
      · cases h
        exact .checked hst
      · cases h
        exact .refused _ hst
    · cases h
  | start =>
    simp only [run_task] at h
    split at h
    · rename_i hst
      cases h
      exact .started hst
    · cases h
  | list =>
    simp only [run_task] at h
    split at h
    · rename_i hst
      cases h
      exact .listed hst
    · cases h
  | complete =>
    simp only [run_task] at h
    split at h
    · rename_i n hst
      cases h
      exact .completed n hst
    · cases h
  | plan =>
    simp only [run_task] at h
    split at h
    · rename_i items hst
      cases h
      exact .planned items hst
    · cases h
  | item item_id action =>
    obtain ⟨i, hi, h⟩ := Option.bind_eq_some_iff.mp h
    obtain ⟨⟨db'', stage⟩, hu, he⟩ := Option.map_eq_some_iff.mp h
    cases he
    exact .item i _ stage hi hu
  | finalize =>
    simp only [run_task] at h
    split at h
    · rename_i hst
      obtain ⟨results, hr, he⟩ := Option.map_eq_some_iff.mp h
      cases he
      exact .finalized results hst hr
    · cases h
  | publish =>
    simp only [run_task] at h
    split at h
    · rename_i hst
      cases h
      exact .published hst
    · cases h
  | raise e =>
    simp only [run_task] at h
    split at h
    · cases h
    · cases h
    · rename_i hst
      obtain ⟨_, _, he⟩ := Option.map_eq_some_iff.mp h
      cases he
      exact .raised e (by simp [hst])
    · rename_i hover _
      cases h
      exact .raised e hover
  | fail =>
    simp only [run_task] at h
    split at h
    · rename_i e hst
      cases h
      exact .failed e hst
    · cases h
  | lose =>
    simp only [run_task] at h
    split at h
    · rename_i e hst
      cases h
      exact .lost e hst
    · cases h
  | leave =>
    simp only [run_task] at h
    split at h
    · rename_i hst
      cases h
      exact .left hst.1 (by simpa using hst.2)
    · cases h
  | crash =>
    cases h
    exact .crashed

/-- How the row of an item stands while its coroutine is at a stage. -/
def Shows : ItemStage → UploadStatus → Prop
  | .waiting, st => st = .pending
  | .marked, st | .stored, st => st = .uploading
  | .delivered, st => st = .uploaded
  | .raised _, st => st = .uploading ∨ st = .uploaded
  | .reported, st => st = .failed
  | .ended ok, st => st = if ok then .uploaded else .failed
  | .escaped, st => st = .failed ∨ st = .uploaded

/-- A step of an item writes the status that its new stage shows, or none. -/
theorem item_moves (h : _upload_item db item stage action = some (db', stage')) :
    stage.over = false ∧ ((∃ st e t, db' = setStatus db item st e t ∧ Shows stage' st) ∨
      db' = db ∧ ∀ st, Shows stage st → (action = .escape → st = .failed ∨ st = .uploaded) →
        Shows stage' st) := by
  cases action with
  | mark =>
    cases stage <;> cases h
    exact ⟨rfl, .inl ⟨_, _, _, rfl, rfl⟩⟩
  | store data =>
    cases stage <;> cases h
    exact ⟨rfl, .inr ⟨rfl, fun _ hs _ => hs⟩⟩
  | done =>
    cases stage <;> cases h
    exact ⟨rfl, .inl ⟨_, _, _, rfl, rfl⟩⟩
  | publish =>
    cases stage <;> cases h
    exact ⟨rfl, .inr ⟨rfl, fun _ hs _ => hs⟩⟩
  | raise error =>
    cases stage <;> cases h
    · exact ⟨rfl, .inr ⟨rfl, fun _ hs _ => .inl hs⟩⟩
    · exact ⟨rfl, .inr ⟨rfl, fun _ hs _ => .inl hs⟩⟩
    · exact ⟨rfl, .inr ⟨rfl, fun _ hs _ => .inr hs⟩⟩
  | fail =>
    cases stage <;> cases h
    exact ⟨rfl, .inl ⟨_, _, _, rfl, rfl⟩⟩
  | report =>
    cases stage <;> cases h
    exact ⟨rfl, .inr ⟨rfl, fun _ hs _ => hs⟩⟩
  | escape =>
    cases stage <;> cases h
    all_goals exact ⟨rfl, .inr ⟨rfl, fun _ _ hrow => hrow rfl⟩⟩

/-- The items after a write of one item's status. -/
theorem set_items (db : Db) (item : TaskItem) (st : UploadStatus) (e : String) (t : Option Time) :
    (setStatus db item st e t).items = Rows.update db.items item.id (ItemRepo.setUpload st e t) := by
  simp only [setStatus, ItemRepo.update_upload_status]
  split
  · rename_i hsel
    rw [Rows.update_absent]
    cases hf : Rows.find? db.items item.id with
    | none => rfl
    | some i => simp [ItemRepo.select, hf, ItemRepo.ownerAllows, Option.filter] at hsel
  · rfl

theorem set_map (db : Db) (item : TaskItem) (st : UploadStatus) (e : String) (t : Option Time)
    (g : TaskItem → β) (hg : ∀ i, g (ItemRepo.setUpload st e t i) = g i) :
    (setStatus db item st e t).items.map g = db.items.map g := by
  rw [set_items]
  exact Rows.update_map (f := ItemRepo.setUpload st e t) g hg

theorem set_same (db : Db) (item : TaskItem) (st : UploadStatus) (e : String) (t : Option Time) :
    (setStatus db item st e t).tasks = db.tasks ∧ SameObjects db (setStatus db item st e t) := by
  simp only [setStatus, ItemRepo.update_upload_status]
  split <;> exact ⟨rfl, rfl, rfl, Nat.le_refl _⟩

/-- A status write with its event touches one task and no item. -/
theorem written_tables (db : Db) (k : Nat) (st : TaskStatus) (c f : Option Time)
    (payload : EventPayload) :
    let db' := EventRepo.append (TaskRepo.update_status db k st none c f) k payload
    (∃ g, StatusWrite k st g db.tasks db'.tasks) ∧ db'.items = db.items ∧
      SameObjects db db' := by
  refine ⟨?_, (update_status_same db k st none c f).1, (update_status_objects db k st none c f).append⟩
  rcases update_status_tasks db k st none c f with ⟨hnone, hsame⟩ | ⟨_, hw⟩
  · rw [get_unfiltered] at hnone
    refine ⟨fun t => { t with status := st }, ?_, fun _ => rfl, fun _ => rfl, fun _ => rfl, fun _ => rfl⟩
    rw [Rows.update_absent hnone]
    exact hsame
  · exact hw

/-- The status that a step of a run writes to its task. -/
theorem move_tasks (hm : RunMove db run action db' next) :
    match action with
    | .start => ∃ g, StatusWrite run.task_id .uploading g db.tasks db'.tasks
    | .complete => ∃ g, StatusWrite run.task_id .uploaded g db.tasks db'.tasks
    | .finalize => ∃ st g, (st = .uploaded ∨ st = .partial_failed) ∧
        StatusWrite run.task_id st g db.tasks db'.tasks
    | .fail => ∃ g, StatusWrite run.task_id .failed g db.tasks db'.tasks
    | _ => db'.tasks = db.tasks := by
  cases hm with
  | started => exact (written_tables db run.task_id _ _ _ _).1
  | completed => exact (written_tables db run.task_id _ _ _ _).1
  | failed => exact (written_tables db run.task_id _ _ _ _).1
  | finalized results =>
    obtain ⟨g, hw⟩ := (written_tables db run.task_id (final_status (results.count false)) none
      (some db.now) (.task_completed (results.count true) (results.count false)
        (some run.items.length) none)).1
    refine ⟨_, g, ?_, hw⟩
    unfold final_status
    split
    · exact .inl rfl
    · exact .inr rfl
  | item c db' stage hc hitem =>
    rcases (item_moves hitem).2 with ⟨st, e, at', rfl, _⟩ | ⟨rfl, _⟩
    · exact (set_same db c.item st e at').1
    · rfl
  | _ => rfl

theorem move_known_task (hm : RunMove db run action db' next) (hk : KnownTask db t owner dir) :
    KnownTask db' t owner dir := by
  have hsame : db'.tasks = db.tasks → KnownTask db' t owner dir := by
    intro ht
    unfold KnownTask
    rwa [ht]
  have hm := move_tasks hm
  cases action with
  | start | complete | fail => exact write_known hm.choose_spec hk
  | finalize =>
    obtain ⟨st, g, _, hw⟩ := hm
    exact write_known hw hk
  | _ => exact hsame hm

/-- The tables after a step of a run. -/
theorem move_tables (hw : Wellformed cfg db) (hm : RunMove db run action db' next) :
    Wellformed cfg db' ∧ db.next_id ≤ db'.next_id ∧
      db'.items.map TaskItem.task_id = db.items.map TaskItem.task_id := by
  have written : ∀ st c f payload,
      let db' := EventRepo.append (TaskRepo.update_status db run.task_id st none c f) run.task_id payload
      Wellformed cfg db' ∧ db.next_id ≤ db'.next_id ∧
        db'.items.map TaskItem.task_id = db.items.map TaskItem.task_id := by
    intro st c f payload
    obtain ⟨⟨g, hw'⟩, hi, ho⟩ := written_tables db run.task_id st c f payload
    exact ⟨hw.of_same_rows hw'.ids (write_rows hw') (by rw [hi]) ho.next
      (physical_same hw.physical_fresh ho), ho.next, by rw [hi]⟩
  cases hm with
  | started => exact written _ _ _ _
  | completed => exact written _ _ _ _
  | finalized => exact written _ _ _ _
  | failed => exact written _ _ _ _
  | item c db' stage hc hitem =>
    rcases (item_moves hitem).2 with ⟨st, e, at', rfl, _⟩ | ⟨rfl, _⟩
    · have hids := set_map db c.item st e at' TaskItem.id (fun _ => rfl)
      have hf := set_same db c.item st e at'
      refine ⟨hw.of_same_rows (by rw [hf.1]) (fun x hx => ⟨x, hf.1 ▸ hx, rfl, rfl⟩) hids hf.2.next
        (physical_same hw.physical_fresh hf.2), hf.2.next, ?_⟩
      exact set_map db c.item st e at' TaskItem.task_id (fun _ => rfl)
    · exact ⟨hw, Nat.le_refl _, rfl⟩
  | _ => exact ⟨hw, Nat.le_refl _, rfl⟩

variable {group items : List ItemRun} {results : List Bool} {c : ItemRun}

/-- A group that no exception has left is over, and its results are those of its items. -/
theorem plain_group (h : groupResults group = some results) (hno : ∀ c ∈ group, c.stage ≠ .escaped) :
    group.map (·.stage) = results.map .ended := by
  have hany : group.any (·.stage == .escaped) = false := by
    simpa using hno
  rw [groupResults, hany] at h
  induction group generalizing results with
  | nil =>
    cases h
    rfl
  | cons c group ih =>
    simp only [Bool.false_eq_true, if_false, List.mapM_cons, Option.bind_eq_bind,
      Option.bind_eq_some_iff] at h ih
    obtain ⟨ok, hok, rest, hrest, he⟩ := h
    cases he
    obtain ⟨hc, hrestno⟩ := List.forall_mem_cons.mp hno
    have hany : group.any (·.stage == .escaped) = false := by simpa using hrestno
    rw [List.map_cons, List.map_cons, ih hrest hrestno hany]
    cases hst : c.stage <;> rw [hst] at hok <;> cases hok
    rfl

theorem escaped_group (h : groupResults group = some results) (hc : c ∈ group)
    (hesc : c.stage = .escaped) : results = [false] := by
  have hany : group.any (·.stage == .escaped) = true :=
    List.any_eq_true.mpr ⟨c, hc, by simp [hesc]⟩
  rw [groupResults, hany] at h
  cases h
  rfl

theorem grouped_groups (items : List ItemRun) :
    grouped items = Grouping.groups (fun c => groupKey c.item) items := rfl

/-- The results of a run are those of its groups. -/
theorem results_groups (h : all_results items = some results) :
    (∀ group ∈ grouped items, ∃ bs, groupResults group = some bs) ∧
      results = ((grouped items).map (fun group => (groupResults group).getD [])).flatten := by
  obtain ⟨groups, hg, rfl⟩ := Option.map_eq_some_iff.mp h
  refine ⟨?_, congrArg List.flatten (Fallible.mapM_eq_map hg [])⟩
  intro group hgroup
  obtain ⟨bs, _, hbs⟩ := Fallible.mapM_mem hg hgroup
  exact ⟨bs, hbs⟩

theorem item_group (items : List ItemRun) (hc : c ∈ items) :
    items.filter (fun q => groupKey q.item == groupKey c.item) ∈ grouped items := by
  rw [grouped_groups]
  exact Grouping.group_mem (fun c => groupKey c.item) hc

/-- An item of a group that no exception has left has returned. -/
theorem plain_ended (h : groupResults group = some results) (hno : ∀ c ∈ group, c.stage ≠ .escaped)
    (hc : c ∈ group) : ∃ ok ∈ results, c.stage = .ended ok := by
  have hended : c.stage ∈ results.map ItemStage.ended := plain_group h hno ▸ List.mem_map_of_mem hc
  obtain ⟨ok, hok, hst⟩ := List.mem_map.mp hended
  exact ⟨ok, hok, hst.symm⟩

/-- The outcome of the whole `gather` where no upload failed. -/
theorem all_uploaded (h : all_results items = some results) (hf : results.count false = 0)
    (hc : c ∈ items) : c.stage = .ended true := by
  obtain ⟨hall, hflat⟩ := results_groups h
  have hg := item_group items hc
  obtain ⟨bs, hbs⟩ := hall _ hg
  have htrue : false ∉ bs := by
    intro hmem
    refine List.count_eq_zero.mp hf ?_
    rw [hflat]
    exact List.mem_flatten.mpr ⟨bs, List.mem_map.mpr ⟨_, hg, by rw [hbs]; rfl⟩, hmem⟩
  have hno : ∀ q ∈ items.filter (fun q => groupKey q.item == groupKey c.item), q.stage ≠ .escaped := by
    intro q hq hst
    obtain rfl := escaped_group hbs hq hst
    exact htrue (by simp)
  obtain ⟨ok, hok, hst⟩ := plain_ended hbs hno (List.mem_filter.mpr ⟨hc, by simp⟩)
  cases ok with
  | false => exact absurd hok htrue
  | true => exact hst

end FileDelivery.Proofs.RunMoves
