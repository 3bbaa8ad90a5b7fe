import FileDelivery.Bridge.Replay
import FileDelivery.Proofs.ApplyLoop

namespace FileDelivery.Proofs.ResultFrame
open FileDelivery.Library FileDelivery.Control FileDelivery.Control.WorkspaceRepo
open FileDelivery.Proofs.ApplyResult FileDelivery.Proofs.ApplyLoop

/-- The constraints on the item table: its primary key, and the task that each row is of. -/
structure ItemKeys (db : Db) : Prop where
  distinct : (db.items.map TaskItem.id).Nodup
  tasks : ∀ i ∈ db.items, ∃ t ∈ db.tasks, t.id = i.task_id

/-- The entry has a known status and names an item of the message's task. -/
def Applicable (db : Db) (m : DeliveryResultMessage) (d : DeliveryResultItemSpec) : Prop :=
  (d.status = "uploaded" ∨ d.status = "failed") ∧
    ∃ i ∈ db.items, i.id = d.item_id ∧ i.task_id = m.task_id

instance (db : Db) (m : DeliveryResultMessage) (d : DeliveryResultItemSpec) :
    Decidable (Applicable db m d) := inferInstanceAs (Decidable (_ ∧ _))

/-- Some entry with a known status names the item. -/
def Touched (m : DeliveryResultMessage) (i : TaskItem) : Prop :=
  i.task_id = m.task_id ∧
    ∃ d ∈ m.items, d.item_id = i.id ∧ (d.status = "uploaded" ∨ d.status = "failed")

/-- Rows of workspace tables and events that a task has got. -/
structure Added (t : Nat) (a b : Db) : Prop where
  workspaces : b.workspaces = a.workspaces
  objects : ∃ objects physical, b.workspace_objects = a.workspace_objects ++ objects ∧
    b.physical_objects = a.physical_objects ++ physical ∧ (∀ w ∈ objects, w.task_id = t) ∧
    ∀ p ∈ physical, ∃ w ∈ objects, w.physical_object_id = p.id
  events : ∃ events, b.events = a.events ++ events ∧ ∀ e ∈ events, e.task_id = t

/-- What a result may have changed. -/
structure Framed (m : DeliveryResultMessage) (a b : Db) : Prop where
  tasks : Rows.Changed (fun t : Task => t.id = m.task_id) a.tasks b.tasks
  items : Rows.Changed (Touched m) a.items b.items
  added : Added m.task_id a b

theorem Added.refl (t : Nat) (a : Db) : Added t a a :=
  ⟨rfl, ⟨[], [], by simp, by simp, by simp, by simp⟩, [], by simp, by simp⟩

theorem Framed.refl (m : DeliveryResultMessage) (a : Db) : Framed m a a := by
  refine ⟨?_, ?_, .refl m.task_id a⟩
  · exact List.forall₂_same.mpr (fun _ _ => ⟨rfl, fun _ => rfl⟩)
  · exact List.forall₂_same.mpr (fun _ _ => ⟨rfl, fun _ => rfl⟩)

theorem Added.trans (h : Added t a b) (h' : Added t b c) : Added t a c := by
  obtain ⟨hws, ⟨os, ps, ho, hp, htask, hrefer⟩, es, he, hevent⟩ := h
  obtain ⟨hws', ⟨os', ps', ho', hp', htask', hrefer'⟩, es', he', hevent'⟩ := h'
  refine ⟨hws'.trans hws, ⟨os ++ os', ps ++ ps', ?_, ?_, ?_, ?_⟩, es ++ es', ?_, ?_⟩
  · rw [ho', ho, List.append_assoc]
  · rw [hp', hp, List.append_assoc]
  · intro w hw
    exact (List.mem_append.mp hw).elim (htask w) (htask' w)
  · intro p hpm
    rcases List.mem_append.mp hpm with hpm | hpm
    · obtain ⟨w, hw, hid⟩ := hrefer p hpm
      exact ⟨w, List.mem_append_left _ hw, hid⟩
    · obtain ⟨w, hw, hid⟩ := hrefer' p hpm
      exact ⟨w, List.mem_append_right _ hw, hid⟩
  · rw [he', he, List.append_assoc]
  · intro e hem
    exact (List.mem_append.mp hem).elim (hevent e) (hevent' e)

/-- A step that adds events of the task at most. -/
theorem Added.of_events (hws : b.workspaces = a.workspaces)
    (ho : b.workspace_objects = a.workspace_objects) (hp : b.physical_objects = a.physical_objects)
    (he : b.events = a.events ++ es) (hes : ∀ e ∈ es, e.task_id = t) : Added t a b :=
  ⟨hws, ⟨[], [], by simp [ho], by simp [hp], by simp, by simp⟩, es, he, hes⟩

theorem recorded_added (h : Recorded db task item d bucket fin db' result) : Added task.id db db' := by
  cases h with
  | created key ws =>
    refine ⟨rfl, ⟨[objectRow db task item ws key fin], [physicalRow db task item d bucket key], rfl,
      rfl, by simp [objectRow], ?_⟩, [], by simp [recorded], by simp⟩
    intro p hp
    refine ⟨_, List.mem_singleton_self _, ?_⟩
    rw [List.mem_singleton.mp hp]
    rfl
  | _ => exact .refl task.id db

theorem turn_added (bucket : Text) (task : Task) (m : DeliveryResultMessage) (acc : ApplyState)
    (d : DeliveryResultItemSpec) : Added task.id acc.db (apply_item bucket task m acc d).db := by
  have hturn := apply_item_turn bucket task m acc d
  have hwritten : ∀ st e fin, Added task.id acc.db (written acc.db d st e fin) :=
    fun st e fin => .of_events rfl rfl rfl (List.append_nil _).symm (by simp)
  generalize apply_item bucket task m acc d = next at hturn ⊢
  cases hturn with
  | missing => exact .refl _ _
  | uploaded i db' result hst hsel hrec acc' hdb _ =>
    exact hdb ▸ (hwritten _ _ _).trans (recorded_added hrec)
  | failed => exact hwritten _ _ _

theorem loop_added (bucket : Text) (task : Task) (m : DeliveryResultMessage) (acc : ApplyState)
    (ds : List DeliveryResultItemSpec) :
    Added task.id acc.db (ds.foldl (apply_item bucket task m) acc).db := by
  induction ds generalizing acc with
  | nil => exact .refl _ _
  | cons d ds ih => exact (turn_added bucket task m acc d).trans (ih _)

theorem finish_added (task : Task) (m : DeliveryResultMessage) (acc : ApplyState) :
    Added m.task_id acc.db (finish_apply task m acc) := by
  obtain ⟨_, hp, ho, hws, _, _⟩ := finish_same task m acc
  have hevents := update_status_events acc.db m.task_id (.ofString m.status)
    (some task.owner_tenant_id) none (some m.ended_at)
  unfold finish_apply at hp ho hws ⊢
  generalize TaskRepo.update_status acc.db m.task_id (.ofString m.status)
    (some task.owner_tenant_id) none (some m.ended_at) = db at hp ho hws hevents ⊢
  split
  · rename_i hnone
    simp only [if_pos hnone] at hp ho hws
    refine .of_events hws ho hp (congrArg (· ++ _) hevents) ?_
    simp
  · rename_i hsome
    simp only [if_neg hsome] at hp ho hws
    refine .of_events hws ho hp ((List.append_assoc ..).trans (congrArg (· ++ _) hevents)) ?_
    simp

theorem applicable_iff (hk : (db.items.map TaskItem.id).Nodup)
    (hget : TaskRepo.get db m.task_id none = some task) :
    accepts db task m d = true ↔ Applicable db m d := by
  have hstatus : (setting m d).isSome = true ↔ d.status = "uploaded" ∨ d.status = "failed" := by
    unfold setting
    split
    · simp [*]
    · split <;> simp [*]
  have hnamed : (named db task m d).isSome = true ↔
      ∃ i ∈ db.items, i.id = d.item_id ∧ i.task_id = m.task_id := by
    constructor
    · intro h
      obtain ⟨i, hi⟩ := Option.isSome_iff_exists.mp h
      obtain ⟨hf, hid, ht⟩ := select_some hi
      exact ⟨i, Rows.find_mem hf, hid, ht⟩
    · rintro ⟨i, hi, hid⟩
      by_contra hnone
      exact select_none (Option.not_isSome_iff_eq_none.mp hnone) hk (get_owner hget) hi hid
  rw [accepts, Bool.and_eq_true, hstatus, hnamed]
  rfl

theorem settle_key (m : DeliveryResultMessage) (i : TaskItem) : (settle m i).id = i.id :=
  (core_eq_fields settle_core).1

/-- Entries of unknown status, or for other rows, leave a row alone. -/
theorem effects_untouched (ds : List DeliveryResultItemSpec) (h : ¬(i.task_id = m.task_id ∧
    ∃ d ∈ ds, d.item_id = i.id ∧ (d.status = "uploaded" ∨ d.status = "failed"))) :
    ds.foldl (itemEffect m) i = i := by
  induction ds with
  | nil => rfl
  | cons d ds ih =>
    have hd : itemEffect m i d = i := by
      unfold itemEffect
      split
      · rename_i hi
        split
        · rename_i hst
          exact absurd ⟨hi.2, d, by simp, hi.1.symm, .inl hst⟩ h
        · split
          · rename_i hst
            exact absurd ⟨hi.2, d, by simp, hi.1.symm, .inr hst⟩ h
          · rfl
      · rfl
    rw [List.foldl_cons, hd]
    apply ih
    rintro ⟨ht, e, he, hrest⟩
    exact h ⟨ht, e, List.mem_cons_of_mem _ he, hrest⟩

theorem applied_framed (hk : ItemKeys db) (bucket : Text)
    (hget : TaskRepo.get db m.task_id none = some task) :
    Framed m db (apply_delivery_result bucket db m).1 := by
  refine ⟨?_, ?_, ?_⟩
  · rw [apply_tasks]
    refine Rows.changed_map (fun t _ => ?_) (fun t _ ht => ?_)
    · split <;> rfl
    · simp [show t.id ≠ m.task_id from ht]
  · rw [apply_items bucket hk.distinct hget]
    exact Rows.changed_map (fun i _ => settle_key m i) (fun i _ hi => effects_untouched m.items hi)
  · have htask : task.id = m.task_id := Rows.find_key (get_find hget)
    simp only [apply_delivery_result, hget]
    exact (htask ▸ loop_added bucket task m ⟨db, 0, [], 0, []⟩ m.items).trans (finish_added task m _)

/-- Without its task a result has no entry that could be applied. -/
theorem missing_applies_none (hk : ItemKeys db) (hget : TaskRepo.get db m.task_id none = none)
    (d : DeliveryResultItemSpec) : ¬Applicable db m d := by
  rintro ⟨_, i, hi, _, ht⟩
  obtain ⟨t, htm, hid⟩ := hk.tasks i hi
  have hfind : Rows.find? db.tasks m.task_id = none := get_unfiltered db m.task_id ▸ hget
  have := List.find?_eq_none.mp hfind t htm
  simp [hid, ht] at this

/-- The entries that are not applied are reported, in their order. -/
theorem summary_counts (hk : ItemKeys db) (bucket : Text) (m : DeliveryResultMessage) :
    (apply_delivery_result bucket db m).2.applied_items = m.items.countP (Applicable db m ·) ∧
      (apply_delivery_result bucket db m).2.missing_items =
        (m.items.filter (¬Applicable db m ·)).map (·.item_id) := by
  cases hget : TaskRepo.get db m.task_id none with
  | none =>
    have hnone := missing_applies_none (m := m) hk hget
    simp [apply_delivery_result, hget, hnone]
  | some task =>
    obtain ⟨happlied, hmissing⟩ := loop_counts bucket task m ⟨db, 0, [], 0, []⟩ m.items
    have haccepts : ∀ d, accepts db task m d = decide (Applicable db m d) := by
      intro d
      rw [Bool.eq_iff_iff, applicable_iff hk.distinct hget, decide_eq_true_iff]
    simp only [apply_delivery_result, hget, happlied, hmissing, haccepts, funext haccepts]
    simp

/-- A result changes rows of its task only, and accounts for each of its entries. -/
theorem result_framed (hk : ItemKeys db) (bucket : Text) (m : DeliveryResultMessage) :
    Framed m db (apply_delivery_result bucket db m).1 ∧
      ((∀ t ∈ db.tasks, t.id ≠ m.task_id) → (apply_delivery_result bucket db m).1 = db) ∧
      (apply_delivery_result bucket db m).2.applied_items +
        (apply_delivery_result bucket db m).2.missing_items.length = m.items.length ∧
      (apply_delivery_result bucket db m).2.missing_items =
        (m.items.filter (¬Applicable db m ·)).map (·.item_id) := by
  obtain ⟨happlied, hmissing⟩ := summary_counts hk bucket m
  refine ⟨?_, ?_, ?_, hmissing⟩
  · cases hget : TaskRepo.get db m.task_id none with
    | none =>
      rw [apply_missing hget]
      exact .refl m db
    | some task => exact applied_framed hk bucket hget
  · intro hnone
    refine apply_missing ?_
    rw [get_unfiltered]
    exact List.find?_eq_none.mpr (fun t ht => by simpa using hnone t ht)
  · rw [happlied, hmissing, List.length_map, ← List.countP_eq_length_filter]
    have := List.length_eq_countP_add_countP (fun d => decide (Applicable db m d)) (l := m.items)
    simpa using this.symm

instance (db : Db) : Decidable (ItemKeys db) :=
  decidable_of_iff ((db.items.map TaskItem.id).Nodup ∧
      ∀ i ∈ db.items, ∃ t ∈ db.tasks, t.id = i.task_id)
    ⟨fun ⟨hn, ht⟩ => ⟨hn, ht⟩, fun h => ⟨h.distinct, h.tasks⟩⟩

/-- Entries for an item of the task, for one of another task, and of no known status. -/
def mixed : DeliveryResultMessage where
  topic := "delivery.results.v1"
  task_id := 0
  status := "uploaded"
  uploaded := 1
  failed := 0
  processed := 3
  items := [⟨2, "uploaded", some "a".toList, some (-1), none, none⟩, ⟨7, "failed", none, none, none, none⟩,
    ⟨2, "skipped", none, none, none, none⟩]
  started_at := 0
  ended_at := 0
  error := none

theorem mixed_framed : ∃ db : Db, Framed mixed db (apply_delivery_result "sink" db mixed).1 ∧
    (apply_delivery_result "sink" db mixed).2.missing_items = [7, 2] := by
  obtain ⟨s, _, hk, hmissing⟩ := Bridge.run_of_replay Library.Runs.Free
    (p := fun s => ItemKeys s.db ∧
      (mixed.items.filter (¬Applicable s.db mixed ·)).map (·.item_id) = [7, 2])
    Bridge.Sample.cfg Bridge.initial
    (Bridge.Sample.confirmed 0 0 [("acme/a.txt", [1])] ++
      Bridge.Sample.confirmed 5 1 [("beta/b.txt", [2])]) (by decide +kernel)
  obtain ⟨hframed, _, _, hlist⟩ := result_framed hk "sink" mixed
  exact ⟨s.db, hframed, hlist.trans hmissing⟩

end FileDelivery.Proofs.ResultFrame
