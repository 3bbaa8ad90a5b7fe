import FileDelivery.Bridge.Replay
import FileDelivery.Proofs.Effects

namespace FileDelivery.Proofs.WorkspaceMapping
open FileDelivery.Library FileDelivery.Control FileDelivery.Control.WorkspaceRepo
open FileDelivery.Proofs.ApplyResult FileDelivery.Proofs.Effects

/-- The foreign keys of a workspace object lead to rows that belong together. -/
structure Joined (db : Db) (w : WorkspaceObject) (task : Task) (item : TaskItem) (ws : Workspace)
    (p : PhysicalObject) : Prop where
  task_row : Rows.find? db.tasks w.task_id = some task
  item_row : Rows.find? db.items w.task_item_id = some item
  workspace_row : Rows.find? db.workspaces w.workspace_id = some ws
  physical_row : Rows.find? db.physical_objects w.physical_object_id = some p
  item_task : item.task_id = w.task_id
  workspace_owner : ws.owner_tenant_id = task.owner_tenant_id
  physical_owner : p.owner_tenant_id = task.owner_tenant_id
  target : ws.target_key = strip item.target_name_matched

/-- The mapping of items to workspaces; `old` are the physical objects that were there
before it was empty. -/
structure Mapped (old : List PhysicalObject) (db : Db) : Prop where
  joined : ∀ w ∈ db.workspace_objects, ∃ task item ws p, Joined db w task item ws p
  items : (db.workspace_objects.map WorkspaceObject.task_item_id).Nodup
  physical : ∀ p ∈ db.physical_objects, p ∈ old ∨
    ∃! w, w ∈ db.workspace_objects ∧ w.physical_object_id = p.id

/-- What the mapping relies on: keys of workspaces are distinct, new keys unused. -/
structure Keys (db : Db) : Prop where
  workspaces : (db.workspaces.map Workspace.id).Nodup
  physical : PhysicalFresh db

/-- Tables whose rows keep what the mapping says about them. -/
structure Keeps (a b : Db) : Prop where
  tasks : ∀ k task, Rows.find? a.tasks k = some task →
    ∃ task', Rows.find? b.tasks k = some task' ∧ task'.owner_tenant_id = task.owner_tenant_id
  items : ∀ k item, Rows.find? a.items k = some item →
    ∃ item', Rows.find? b.items k = some item' ∧ item'.core = item.core
  workspaces : b.workspaces = a.workspaces

theorem Joined.keep (h : Keeps a b)
    (hp : ∀ p, Rows.find? a.physical_objects w.physical_object_id = some p →
      Rows.find? b.physical_objects w.physical_object_id = some p)
    (hj : ∃ task item ws p, Joined a w task item ws p) :
    ∃ task item ws p, Joined b w task item ws p := by
  obtain ⟨task, item, ws, p, hj⟩ := hj
  obtain ⟨task', ht, howner⟩ := h.tasks _ _ hj.task_row
  obtain ⟨item', hi, hcore⟩ := h.items _ _ hj.item_row
  have htarget : item'.target_name_matched = item.target_name_matched := by
    simpa [TaskItem.core] using congrArg TaskItem.target_name_matched hcore
  refine ⟨task', item', ws, p, ht, hi, h.workspaces ▸ hj.workspace_row,
    hp p hj.physical_row, ?_, ?_, ?_, ?_⟩
  · exact (core_eq_fields hcore).2.1.trans hj.item_task
  · exact hj.workspace_owner.trans howner.symm
  · exact hj.physical_owner.trans howner.symm
  · rw [hj.target, htarget]

/-- Writes to tasks and items that keep the mapping. -/
theorem Mapped.keep (hm : Mapped old a) (h : Keeps a b)
    (hp : b.physical_objects = a.physical_objects) (hw : b.workspace_objects = a.workspace_objects) :
    Mapped old b := by
  refine ⟨fun w hmem => ?_, hw ▸ hm.items, hp ▸ hw ▸ hm.physical⟩
  refine Joined.keep h (fun p hfind => ?_) (hm.joined w (hw ▸ hmem))
  rwa [hp]

theorem written_keeps (db : Db) (d : DeliveryResultItemSpec) (st : UploadStatus) (e : String)
    (fin : Option Time) : Keeps db (written db d st e fin) := by
  refine ⟨fun k task h => ⟨task, h, rfl⟩, fun k item h => ?_, rfl⟩
  have hfind : Rows.find? (written db d st e fin).items k = (Rows.find? db.items k).map
      (fun i => if k = d.item_id then ItemRepo.setUpload st e fin i else i) :=
    Rows.find_update (fun _ => rfl)
  rw [h] at hfind
  refine ⟨_, hfind, ?_⟩
  split <;> rfl

/-- Where the item of a receipt has an object, the query for it finds one. -/
theorem object_found (hw : w ∈ db.workspace_objects)
    (hj : ∃ task item ws p, Joined db w task item ws p) :
    get_object_by_task_item db w.task_item_id ≠ none := by
  obtain ⟨task, item, ws, p, hj⟩ := hj
  intro hnone
  have := List.findSome?_eq_none_iff.mp hnone w (List.mem_filter.mpr ⟨hw, by simp⟩)
  have hws : db.workspaces.find? (·.id == w.workspace_id) = some ws := hj.workspace_row
  simp [hj.physical_row, hws] at this

/-- A new pair of rows for an item of its task that has none. -/
theorem recorded_mapped (hk : Keys db) (hm : Mapped old db)
    (ht : Rows.find? db.tasks task.id = some task) (hi : Rows.find? db.items item.id = some item)
    (hit : item.task_id = task.id) (hnew : get_object_by_task_item db item.id = none)
    (hws : get_workspace_by_target_key db task.owner_tenant_id (strip item.target_name_matched) =
      some ws) : Mapped old (recorded db task item d bucket key ws fin) := by
  have hwmem := List.mem_of_find?_eq_some hws
  have hwfound := List.find?_some hws
  simp only [Bool.and_eq_true, beq_iff_eq] at hwfound
  have hold : ∀ w ∈ db.workspace_objects, w.physical_object_id < db.next_id := by
    intro w hw
    obtain ⟨_, _, _, p, hj⟩ := hm.joined w hw
    have hid : p.id = w.physical_object_id := Rows.find_key hj.physical_row
    rw [← hid]
    exact hk.physical p (Rows.find_mem hj.physical_row)
  have hfresh : ∀ p ∈ db.physical_objects, p.id ≠ db.next_id :=
    fun p hp => Nat.ne_of_lt (hk.physical p hp)
  refine ⟨fun w hmem => ?_, ?_, fun p hp => ?_⟩
  · rcases List.mem_append.mp hmem with hmem | hmem
    · exact Joined.keep (a := db) ⟨fun _ t h => ⟨t, h, rfl⟩, fun _ i h => ⟨i, h, rfl⟩, rfl⟩
        (fun _ => Rows.find_append) (hm.joined w hmem)
    · rw [List.mem_singleton.mp hmem]
      refine ⟨task, item, ws, physicalRow db task item d bucket key, ht, hi, ?_, ?_, hit, hwfound.1,
        rfl, hwfound.2⟩
      · exact Rows.find_of_mem hk.workspaces hwmem
      · exact Rows.find_append_new hfresh
  · rw [recorded, List.map_append, List.nodup_append]
    refine ⟨hm.items, by simp, ?_⟩
    intro k hmem j hj he
    obtain ⟨w, hw, rfl⟩ := List.mem_map.mp hmem
    simp only [List.map_cons, List.map_nil, List.mem_singleton] at hj
    have hitem : w.task_item_id = item.id := he.trans hj
    exact object_found hw (hm.joined w hw) (hitem ▸ hnew)
  · rcases List.mem_append.mp hp with hp | hp
    · refine (hm.physical p hp).imp_right ?_
      rintro ⟨w, ⟨hw, hwp⟩, hunique⟩
      refine ⟨w, ⟨List.mem_append_left _ hw, hwp⟩, ?_⟩
      rintro v ⟨hv, hvp⟩
      rcases List.mem_append.mp hv with hv | hv
      · exact hunique v ⟨hv, hvp⟩
      · rw [List.mem_singleton.mp hv] at hvp
        exact absurd hvp.symm (hfresh p hp)
    · rw [List.mem_singleton.mp hp]
      refine .inr ⟨objectRow db task item ws key fin, ⟨by simp [recorded], rfl⟩, ?_⟩
      rintro v ⟨hv, hvp⟩
      rcases List.mem_append.mp hv with hv | hv
      · exact absurd hvp (Nat.ne_of_lt (hold v hv))
      · exact List.mem_singleton.mp hv

theorem written_mapped (hm : Mapped old db) : Mapped old (written db d st e fin) :=
  hm.keep (written_keeps db d st e fin) rfl rfl

theorem written_keys (hk : Keys db) : Keys (written db d st e fin) := ⟨hk.workspaces, hk.physical⟩

theorem recorded_keys (hk : Keys db) : Keys (recorded db task item d bucket key ws fin) := by
  refine ⟨hk.workspaces, Rows.append_all (fun p hp => ?_) ?_⟩
  · exact Nat.lt_of_lt_of_le (hk.physical p hp) (Nat.le_add_right _ _)
  · exact Nat.lt_add_of_pos_right Nat.two_pos

/-- One turn of the loop, for the task that the result names. -/
theorem turn_mapped (h : ItemTurn bucket task m acc d acc') (hk : Keys acc.db)
    (hm : Mapped old acc.db) (hid : task.id = m.task_id)
    (ht : Rows.find? acc.db.tasks task.id = some task) :
    Keys acc'.db ∧ Mapped old acc'.db := by
  cases h with
  | missing => exact ⟨hk, hm⟩
  | failed => exact ⟨written_keys hk, written_mapped hm⟩
  | uploaded i db' result hst hsel hrec acc' hdb _ =>
    obtain ⟨hfind, hitem, htask⟩ := select_some hsel
    rw [hdb]
    cases hrec with
    | created key ws hkey hne hnew hws =>
      refine ⟨recorded_keys (written_keys hk), recorded_mapped (written_keys hk) (written_mapped hm)
        ht ?_ (htask.trans hid.symm) hnew hws⟩
      -- The scoped query has found the row that the receipt is recorded for.
      have hrow : Rows.find? (written acc.db d .uploaded "" (some m.ended_at)).items i.id =
          (Rows.find? acc.db.items i.id).map (fun j =>
            if i.id = d.item_id then ItemRepo.setUpload .uploaded "" (some m.ended_at) j else j) :=
        Rows.find_update (fun _ => rfl)
      rw [hitem, hfind, Option.map_some, if_pos rfl] at hrow
      exact hitem ▸ hrow
    | _ => exact ⟨written_keys hk, written_mapped hm⟩

theorem loop_mapped (ds : List DeliveryResultItemSpec) (hk : Keys acc.db) (hm : Mapped old acc.db)
    (hid : task.id = m.task_id) (ht : Rows.find? acc.db.tasks task.id = some task) :
    Keys (ds.foldl (apply_item bucket task m) acc).db ∧
      Mapped old (ds.foldl (apply_item bucket task m) acc).db := by
  induction ds generalizing acc with
  | nil => exact ⟨hk, hm⟩
  | cons d ds ih =>
    obtain ⟨hk', hm'⟩ := turn_mapped (apply_item_turn bucket task m acc d) hk hm hid ht
    have ht' : Rows.find? (apply_item bucket task m acc d).db.tasks task.id = some task := by
      rw [(apply_item_frame bucket task m acc d).tasks]
      exact ht
    exact ih hk' hm' ht'

theorem status_owner (st : TaskStatus) (ten : Option String) (c f : Option Time)
    (h : Rows.find? db.tasks k = some t) :
    ∃ t', Rows.find? (TaskRepo.update_status db j st ten c f).tasks k = some t' ∧
      t'.owner_tenant_id = t.owner_tenant_id := by
  rcases update_status_tasks db j st ten c f with ⟨_, hsame⟩ | ⟨_, g, hw⟩
  · exact ⟨t, hsame ▸ h, rfl⟩
  · rw [hw.rows, Rows.find_update hw.id, h, Option.map_some]
    refine ⟨_, rfl, ?_⟩
    split
    · exact hw.owner t
    · rfl

/-- The writes after the loop keep every task's owner. -/
theorem finish_mapped (hk : Keys acc.db) (hm : Mapped old acc.db) :
    Keys (finish_apply task m acc) ∧ Mapped old (finish_apply task m acc) := by
  obtain ⟨hi, hp, hw, hws, _, hn⟩ := finish_same task m acc
  refine ⟨⟨hws ▸ hk.workspaces, fun p hmem => ?_⟩, hm.keep ⟨?_, ?_, hws⟩ hp hw⟩
  · exact Nat.lt_of_lt_of_le (hk.physical p (hp ▸ hmem)) hn
  · intro k t hfind
    have htasks : (finish_apply task m acc).tasks = (TaskRepo.update_status acc.db m.task_id
        (.ofString m.status) (some task.owner_tenant_id) none (some m.ended_at)).tasks := by
      unfold finish_apply
      split <;> rfl
    rw [htasks]
    exact status_owner _ _ _ _ hfind
  · intro k i hfind
    exact ⟨i, hi ▸ hfind, rfl⟩

theorem applied_mapped (bucket : Text) (m : DeliveryResultMessage) (hk : Keys db)
    (hm : Mapped old db) :
    Keys (apply_delivery_result bucket db m).1 ∧ Mapped old (apply_delivery_result bucket db m).1 := by
  cases h : TaskRepo.get db m.task_id none with
  | none =>
    rw [apply_missing h]
    exact ⟨hk, hm⟩
  | some task =>
    have hfind := get_find h
    have hid : task.id = m.task_id := Rows.find_key hfind
    obtain ⟨hk', hm'⟩ := @loop_mapped old task bucket m ⟨db, 0, [], 0, []⟩ m.items hk hm hid
      (hid ▸ hfind)
    simp only [apply_delivery_result, h]
    exact finish_mapped hk' hm'

/-- A sequence of applications, each with the sink's bucket and the clock of its time. -/
def applyAll (db : Db) (results : List (Text × Time × DeliveryResultMessage)) : Db :=
  results.foldl (fun db r => (apply_delivery_result r.1 { db with now := r.2.1 } r.2.2).1) db

theorem tick_mapped (time : Time) (hk : Keys db) (hm : Mapped old db) :
    Keys { db with now := time } ∧ Mapped old { db with now := time } :=
  ⟨⟨hk.workspaces, hk.physical⟩,
    hm.keep ⟨fun _ t h => ⟨t, h, rfl⟩, fun _ i h => ⟨i, h, rfl⟩, rfl⟩ rfl rfl⟩

theorem applyAll_mapped (results : List (Text × Time × DeliveryResultMessage)) (hk : Keys db)
    (hm : Mapped old db) : Mapped old (applyAll db results) := by
  induction results generalizing db with
  | nil => exact hm
  | cons r results ih =>
    obtain ⟨hk', hm'⟩ := tick_mapped r.2.1 hk hm
    obtain ⟨hk', hm'⟩ := applied_mapped r.1 r.2.2 hk' hm'
    exact ih hk' hm'

/-- Whatever results are applied to a database without workspace objects, the mapping holds. -/
theorem workspace_mapping_holds (hk : Keys db) (hempty : db.workspace_objects = [])
    (results : List (Text × Time × DeliveryResultMessage)) :
    Mapped db.physical_objects (applyAll db results) := by
  apply applyAll_mapped results hk
  refine ⟨?_, ?_, fun p hp => .inl hp⟩
  · intro w hw
    rw [hempty] at hw
    cases hw
  · rw [hempty]
    exact .nil

instance (db : Db) : Decidable (PhysicalFresh db) := inferInstanceAs (Decidable (∀ _ ∈ _, _))

instance (db : Db) : Decidable (Keys db) :=
  decidable_of_iff ((db.workspaces.map Workspace.id).Nodup ∧ PhysicalFresh db)
    ⟨fun ⟨hw, hp⟩ => ⟨hw, hp⟩, fun h => ⟨h.workspaces, h.physical⟩⟩

/-- Two entries for one item, and one for an item that is not there. -/
def doubled : DeliveryResultMessage where
  topic := "delivery.results.v1"
  task_id := 0
  status := "uploaded"
  uploaded := 3
  failed := 0
  processed := 3
  items := [⟨2, "uploaded", some "a".toList, none, none, none⟩,
    ⟨2, "uploaded", some "b".toList, none, none, none⟩, ⟨9, "uploaded", some "c".toList, none, none, none⟩]
  started_at := 0
  ended_at := 0
  error := none

/-- The message is applied twice. -/
theorem doubled_mapped : ∃ db : Db, Mapped [] (applyAll db [("sink".toList, 1, doubled),
    ("sink".toList, 2, doubled)]) ∧ (applyAll db [("sink".toList, 1, doubled),
    ("sink".toList, 2, doubled)]).workspace_objects.length = 1 := by
  obtain ⟨s, _, hk, hempty, hphysical, hlen⟩ := Bridge.run_of_replay Library.Runs.Free
    (p := fun s => Keys s.db ∧ s.db.workspace_objects = [] ∧ s.db.physical_objects = [] ∧
      (applyAll s.db [("sink".toList, 1, doubled), ("sink".toList, 2, doubled)]).workspace_objects.length = 1)
    Bridge.Sample.cfg Bridge.initial
    (Bridge.Sample.confirmed 0 0 [("acme/a.txt", [1])] ++ Bridge.Sample.workspaces) (by decide +kernel)
  exact ⟨s.db, hphysical ▸ workspace_mapping_holds hk hempty _, hlen⟩

end FileDelivery.Proofs.WorkspaceMapping
