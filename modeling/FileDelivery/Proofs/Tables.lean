import FileDelivery.Library.Runs
import FileDelivery.Proofs.Effects

namespace FileDelivery.Proofs.Tables
open FileDelivery.Library FileDelivery.Library.Runs FileDelivery.Control
open FileDelivery.Bridge FileDelivery.Proofs.ApplyResult FileDelivery.Proofs.Effects

/-- Keys are distinct and used up in order; a task's directory is named by its key. -/
structure Wellformed (cfg : Config) (db : Db) : Prop where
  task_ids : (db.tasks.map Task.id).Nodup
  task_fresh : ∀ t ∈ db.tasks, t.id < db.next_id
  item_ids : (db.items.map TaskItem.id).Nodup
  item_fresh : ∀ i ∈ db.items, i.id < db.next_id
  physical_fresh : PhysicalFresh db
  dirs : ∀ t ∈ db.tasks, t.temp_dir = cfg.settings.task_dir_base ++ ['/'] ++ idText t.id

/-- A table whose rows keep key and directory under a growing counter. -/
theorem Wellformed.of_same_rows (h : Wellformed cfg a) (hids : b.tasks.map Task.id = a.tasks.map Task.id)
    (hrows : ∀ x ∈ b.tasks, ∃ y ∈ a.tasks, y.id = x.id ∧ y.temp_dir = x.temp_dir)
    (hitems : b.items.map TaskItem.id = a.items.map TaskItem.id) (hnext : a.next_id ≤ b.next_id)
    (hphys : PhysicalFresh b) : Wellformed cfg b := by
  refine ⟨hids ▸ h.task_ids, ?_, hitems ▸ h.item_ids, ?_, hphys, ?_⟩
  · intro x hx
    obtain ⟨y, hy, hid, _⟩ := hrows x hx
    have := h.task_fresh y hy
    omega
  · intro i hi
    obtain ⟨j, hj, he⟩ := List.mem_map.mp (hitems ▸ List.mem_map_of_mem hi)
    have := h.item_fresh j hj
    omega
  · intro x hx
    obtain ⟨y, hy, hid, hdir⟩ := hrows x hx
    rw [← hdir, h.dirs y hy, hid]

theorem physical_same (h : PhysicalFresh a) (ho : SameObjects a b) : PhysicalFresh b := by
  intro p hp
  rw [ho.physical] at hp
  exact Nat.lt_of_lt_of_le (h p hp) ho.next

theorem resetRow_core (db : Db) (r : WriteRequest) (i : TaskItem) :
    (resetRow db r i).core = i.core := by
  unfold resetRow
  split <;> rfl

theorem reset_uploaded (db : Db) (r : WriteRequest) (i : TaskItem) :
    (resetRow db r i).upload_status = .uploaded ↔ i.upload_status = .uploaded := by
  unfold resetRow
  split
  · rename_i h
    simp only [ItemRepo.resettable, Bool.and_eq_true, beq_iff_eq] at h
    simp [h.1.2]
  · rfl

theorem map_ids {f : TaskItem → TaskItem} (items : List TaskItem) (hf : ∀ i, (f i).core = i.core) :
    (items.map f).map TaskItem.id = items.map TaskItem.id := by
  rw [List.map_map]
  exact List.map_congr_left (fun i _ => (core_eq_fields (hf i)).1)

/-- Items after a result, whether or not its task exists. -/
theorem apply_items_cases (bucket : Text) (hn : (db.items.map TaskItem.id).Nodup)
    (m : DeliveryResultMessage) :
    (TaskRepo.get db m.task_id none = none ∧ (apply_delivery_result bucket db m).1 = db) ∨
      (apply_delivery_result bucket db m).1.items = db.items.map (settle m) := by
  cases h : TaskRepo.get db m.task_id none with
  | none => exact .inl ⟨rfl, apply_missing h⟩
  | some task => exact .inr (apply_items bucket hn h)

theorem settle_write (m : DeliveryResultMessage) (tasks : List Task) :
    StatusWrite m.task_id (.ofString m.status) (settleTask m) tasks
      (Rows.update tasks m.task_id (settleTask m)) :=
  ⟨rfl, fun _ => rfl, fun _ => rfl, fun _ => rfl, fun _ => rfl⟩

theorem write_rows (h : StatusWrite t st f a b) :
    ∀ x ∈ b, ∃ y ∈ a, y.id = x.id ∧ y.temp_dir = x.temp_dir := by
  intro x hx
  obtain ⟨y, hy, hid, _, hdir, _⟩ := h.mem hx
  exact ⟨y, hy, hid, hdir⟩

theorem classified_wellformed (h : Wellformed cfg a)
    (hids : rows.map TaskItem.id = List.range' a.next_id rows.length)
    (hw : StatusWrite t st f a.tasks b.tasks) (hi : b.items = a.items ++ rows)
    (hn : a.next_id + rows.length ≤ b.next_id) (ho : SameObjects a b) : Wellformed cfg b := by
  have hrow : ∀ i ∈ rows, a.next_id ≤ i.id ∧ i.id < a.next_id + rows.length := by
    intro i hi
    have := List.mem_map_of_mem (f := TaskItem.id) hi
    rw [hids] at this
    simpa using this
  refine ⟨hw.ids ▸ h.task_ids, ?_, ?_, ?_, physical_same h.physical_fresh ho, ?_⟩
  · intro x hx
    obtain ⟨y, hy, hid, _⟩ := hw.mem hx
    have := h.task_fresh y hy
    omega
  · rw [hi, List.map_append, List.nodup_append]
    refine ⟨h.item_ids, hids ▸ List.nodup_range', ?_⟩
    intro x hx y hy he
    obtain ⟨i, hi, rfl⟩ := List.mem_map.mp hx
    obtain ⟨j, hj, rfl⟩ := List.mem_map.mp hy
    have := h.item_fresh i hi
    have := (hrow j hj).1
    omega
  · intro i hmem
    rw [hi] at hmem
    rcases List.mem_append.mp hmem with hmem | hmem
    · have := h.item_fresh i hmem
      have := ho.next
      omega
    · have := (hrow i hmem).2
      omega
  · intro x hx
    obtain ⟨y, hy, hid, _, hdir, _⟩ := hw.mem hx
    rw [← hdir, h.dirs y hy, hid]

/-- A result of any content keeps the tables wellformed. -/
theorem result_wellformed (bucket : Text) (h : Wellformed cfg db) (m : DeliveryResultMessage) :
    Wellformed cfg (apply_delivery_result bucket db m).1 := by
  have hrec := apply_records bucket h.item_ids m
  have hw : StatusWrite m.task_id (.ofString m.status) (settleTask m) db.tasks
      (apply_delivery_result bucket db m).1.tasks := by
    rw [apply_tasks]
    exact settle_write m db.tasks
  rcases apply_items_cases bucket h.item_ids m with ⟨_, hsame⟩ | hitems
  · rw [hsame]
    exact h
  · refine h.of_same_rows hw.ids (write_rows hw) ?_ hrec.next (hrec.fresh h.physical_fresh)
    rw [hitems]
    exact map_ids db.items (fun _ => settle_core)

theorem effect_wellformed (h : Wellformed cfg s.db) (he : Effect cfg s s' a) :
    Wellformed cfg s'.db := by
  cases he with
  | quiet ht hi ho =>
    exact h.of_same_rows (by rw [ht]) (fun x hx => ⟨x, ht ▸ hx, rfl, rfl⟩) (by rw [hi]) ho.next
      (physical_same h.physical_fresh ho)
  | created task hid hst hdir ht hi hn ho =>
    refine ⟨?_, ?_, hi ▸ h.item_ids, ?_, physical_same h.physical_fresh ho, ?_⟩
    · rw [ht]
      exact Rows.append_nodup h.task_ids (fun t htm => hid ▸ h.task_fresh t htm)
    · rw [ht]
      exact Rows.append_all (fun t htm => Nat.lt_trans (h.task_fresh t htm) hn) (hid ▸ hn)
    · intro i him
      rw [hi] at him
      have := h.item_fresh i him
      omega
    · rw [ht]
      exact Rows.append_all h.dirs hdir
  | classified rows hids htask hpending ht hi hn ho =>
    obtain ⟨f, hw⟩ := ht
    exact classified_wellformed h hids hw hi hn ho
  | confirmed r hr hkind ht hi ho =>
    obtain ⟨f, hw⟩ := ht
    exact h.of_same_rows hw.ids (write_rows hw) (by rw [hi]) ho.next
      (physical_same h.physical_fresh ho)
  | retried r hr hkind hquiet hwrite hi ho =>
    have hitems : s'.db.items.map TaskItem.id = s.db.items.map TaskItem.id := by
      rw [hi]
      exact map_ids s.db.items (resetRow_core s.db r)
    by_cases hre : Reopens s.db r
    · obtain ⟨f, hw⟩ := hwrite hre
      exact h.of_same_rows hw.ids (write_rows hw) hitems ho.next (physical_same h.physical_fresh ho)
    · have ht := hquiet hre
      exact h.of_same_rows (by rw [ht]) (fun x hx => ⟨x, ht ▸ hx, rfl, rfl⟩) hitems ho.next
        (physical_same h.physical_fresh ho)
  | queued r message hr hstage ht hi ho =>
    obtain ⟨f, hw⟩ := ht
    exact h.of_same_rows hw.ids (write_rows hw) (by rw [hi]) ho.next
      (physical_same h.physical_fresh ho)
  | applied p hp hdb =>
    rw [hdb]
    exact result_wellformed cfg.settings.s3_bucket_name h p.message

theorem initial_wellformed (cfg : Config) : Wellformed cfg initial.db :=
  ⟨.nil, by simp [initial], .nil, by simp [initial], by simp [PhysicalFresh, initial],
    by simp [initial]⟩

theorem reachable_wellformed (h : Run (step cfg) ok initial s) : Wellformed cfg s.db :=
  h.invariant (fun s => Wellformed cfg s.db) (initial_wellformed cfg)
    (fun _ _ _ hi _ hs => effect_wellformed hi (step_effect hs))

/-- An item with this classification is in the table. -/
def Known (db : Db) (core : TaskItem) : Prop := ∃ row ∈ db.items, row.core = core

/-- No step takes a classified item away or changes its classification. -/
theorem effect_known (h : Wellformed cfg s.db) (he : Effect cfg s s' a) (hk : Known s.db core) :
    Known s'.db core := by
  obtain ⟨row, hrow, hcore⟩ := hk
  cases he with
  | quiet ht hi ho => exact ⟨row, hi ▸ hrow, hcore⟩
  | created task hid hst hdir ht hi hn ho => exact ⟨row, hi ▸ hrow, hcore⟩
  | classified rows hids htask hpending ht hi hn ho =>
    exact ⟨row, hi ▸ List.mem_append_left _ hrow, hcore⟩
  | confirmed r hr hkind ht hi ho => exact ⟨row, hi ▸ hrow, hcore⟩
  | retried r hr hkind hquiet hwrite hi ho =>
    exact ⟨_, hi ▸ List.mem_map_of_mem hrow, (resetRow_core s.db r row).trans hcore⟩
  | queued r message hr hstage ht hi ho => exact ⟨row, hi ▸ hrow, hcore⟩
  | applied p hp hdb =>
    rcases apply_items_cases cfg.settings.s3_bucket_name h.item_ids p.message with
      ⟨_, hsame⟩ | hitems
    · exact ⟨row, by rw [hdb, hsame]; exact hrow, hcore⟩
    · refine ⟨settle p.message row, ?_, settle_core.trans hcore⟩
      rw [hdb, hitems]
      exact List.mem_map_of_mem hrow

/-- A task of this key and owner, with its directory there, is in the table. -/
def KnownTask (db : Db) (task_id : Nat) (owner : String) (dir : Text) : Prop :=
  ∃ row ∈ db.tasks, row.id = task_id ∧ row.owner_tenant_id = owner ∧ row.temp_dir = dir

/-- A key determines owner and directory. -/
theorem known_unique (h : Wellformed cfg db) (hk : KnownTask db t owner dir)
    (hk' : KnownTask db t owner' dir') : owner = owner' ∧ dir = dir' := by
  obtain ⟨row, hrow, hid, rfl, rfl⟩ := hk
  obtain ⟨row', hrow', hid', rfl, rfl⟩ := hk'
  have : row = row' := Rows.eq_of_key h.task_ids hrow hrow' (hid.trans hid'.symm)
  exact ⟨this ▸ rfl, this ▸ rfl⟩

theorem known_get (h : Wellformed cfg db) (hk : KnownTask db t owner dir) :
    (TaskRepo.get db t (some owner)).isSome := by
  obtain ⟨row, hrow, rfl, rfl, _⟩ := hk
  have hfind : Rows.find? db.tasks row.id = some row := Rows.find_of_mem h.task_ids hrow
  simp [TaskRepo.get, hfind, tenantAllows]

theorem write_known (hw : StatusWrite t st f a.tasks b.tasks) (hk : KnownTask a task_id owner dir) :
    KnownTask b task_id owner dir := by
  obtain ⟨row, hrow, hid, howner, hdir⟩ := hk
  obtain ⟨row', hrow', hid', howner', hdir'⟩ := hw.image hrow
  exact ⟨row', hrow', hid'.trans hid, howner'.trans howner, hdir'.trans hdir⟩

theorem result_known_task (bucket : Text) (m : DeliveryResultMessage)
    (hk : KnownTask db task_id owner dir) :
    KnownTask (apply_delivery_result bucket db m).1 task_id owner dir := by
  have hw : StatusWrite m.task_id (.ofString m.status) (settleTask m) db.tasks
      (apply_delivery_result bucket db m).1.tasks := by
    rw [apply_tasks]
    exact settle_write m db.tasks
  exact write_known hw hk

theorem effect_known_task (he : Effect cfg s s' a) (hk : KnownTask s.db task_id owner dir) :
    KnownTask s'.db task_id owner dir := by
  have hsame : s'.db.tasks = s.db.tasks → KnownTask s'.db task_id owner dir := by
    intro ht
    unfold KnownTask
    rwa [ht]
  cases he with
  | quiet ht hi ho => exact hsame ht
  | created task hid hst hdir ht hi hn ho =>
    obtain ⟨row, hrow, hall⟩ := hk
    exact ⟨row, ht ▸ List.mem_append_left _ hrow, hall⟩
  | classified rows hids htask hpending ht hi hn ho =>
    obtain ⟨f, hw⟩ := ht
    exact write_known hw hk
  | confirmed r hr hkind ht hi ho =>
    obtain ⟨f, hw⟩ := ht
    exact write_known hw hk
  | retried r hr hkind hquiet hwrite hi ho =>
    by_cases hre : Reopens s.db r
    · obtain ⟨f, hw⟩ := hwrite hre
      exact write_known hw hk
    · exact hsame (hquiet hre)
  | queued r message hr hstage ht hi ho =>
    obtain ⟨f, hw⟩ := ht
    exact write_known hw hk
  | applied p hp hdb =>
    rw [hdb]
    exact result_known_task cfg.settings.s3_bucket_name p.message hk

end FileDelivery.Proofs.Tables
