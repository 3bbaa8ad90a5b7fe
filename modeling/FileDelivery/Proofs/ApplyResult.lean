import FileDelivery.Control.Delivery

namespace FileDelivery.Proofs.ApplyResult
open FileDelivery.Library FileDelivery.Control

/-- What one entry of a result does to one row. -/
def itemEffect (m : DeliveryResultMessage) (i : TaskItem) (d : DeliveryResultItemSpec) : TaskItem :=
  if i.id = d.item_id ∧ i.task_id = m.task_id then
    if d.status = "uploaded" then ItemRepo.setUpload .uploaded "" (some m.ended_at) i
    else if d.status = "failed" then ItemRepo.setUpload .failed (uploadError m d) none i
    else i
  else i

/-- What a whole result does to one row: its entries in order. -/
def settle (m : DeliveryResultMessage) (i : TaskItem) : TaskItem :=
  m.items.foldl (itemEffect m) i

@[simp] theorem itemEffect_core : (itemEffect m i d).core = i.core := by
  unfold itemEffect
  split
  · split
    · rfl
    · split <;> rfl
  · rfl

theorem effects_core (ds : List DeliveryResultItemSpec) :
    (ds.foldl (itemEffect m) i).core = i.core := by
  induction ds generalizing i with
  | nil => rfl
  | cons d ds ih => rw [List.foldl_cons, ih, itemEffect_core]

@[simp] theorem settle_core : (settle m i).core = i.core := effects_core m.items

theorem itemEffect_other (h : i.id ≠ d.item_id ∨ i.task_id ≠ m.task_id) :
    itemEffect m i d = i := by
  have : ¬(i.id = d.item_id ∧ i.task_id = m.task_id) := by tauto
  simp [itemEffect, this]

/-- Entries naming other rows leave a row alone. -/
theorem effects_other (ds : List DeliveryResultItemSpec)
    (h : i.id ∉ ds.map (·.item_id) ∨ i.task_id ≠ m.task_id) :
    ds.foldl (itemEffect m) i = i := by
  induction ds with
  | nil => rfl
  | cons d ds ih =>
    rw [List.foldl_cons, itemEffect_other, ih]
    · rcases h with h | h
      · exact .inl (fun hm => h (List.mem_cons_of_mem _ hm))
      · exact .inr h
    · rcases h with h | h
      · exact .inl (fun he => h (by simp [he]))
      · exact .inr h

theorem settle_other (h : i.id ∉ m.items.map (·.item_id) ∨ i.task_id ≠ m.task_id) :
    settle m i = i := effects_other m.items h

/-- Where no item is named twice, its own entry decides. -/
theorem settle_entry (hn : (m.items.map (·.item_id)).Nodup) (hd : d ∈ m.items)
    (hi : i.id = d.item_id) : settle m i = itemEffect m i d := by
  obtain ⟨pre, post, he⟩ := List.append_of_mem hd
  rw [he] at hn
  simp only [List.map_append, List.map_cons] at hn
  have hpre : i.id ∉ pre.map (·.item_id) := by
    intro hm
    have := (List.nodup_append.mp hn).2.2 i.id hm d.item_id (by simp)
    exact this hi
  have hpost : i.id ∉ post.map (·.item_id) := by
    rw [hi]
    exact (List.nodup_cons.mp (List.nodup_append.mp hn).2.1).1
  have hid : (itemEffect m i d).id = i.id := (core_eq_fields itemEffect_core).1
  rw [settle, he, List.foldl_append, effects_other pre (.inl hpre), List.foldl_cons]
  exact effects_other post (.inl (hid ▸ hpost))

theorem settle_uploaded (hn : (m.items.map (·.item_id)).Nodup) (hd : d ∈ m.items)
    (hi : i.id = d.item_id) (ht : i.task_id = m.task_id) (hs : d.status = "uploaded") :
    settle m i = ItemRepo.setUpload .uploaded "" (some m.ended_at) i := by
  rw [settle_entry hn hd hi]
  simp [itemEffect, hi, ht, hs]

theorem settle_failed (hn : (m.items.map (·.item_id)).Nodup) (hd : d ∈ m.items)
    (hi : i.id = d.item_id) (ht : i.task_id = m.task_id) (hs : d.status = "failed") :
    settle m i = ItemRepo.setUpload .failed (uploadError m d) none i := by
  rw [settle_entry hn hd hi]
  simp [itemEffect, hi, ht, hs]

/-- What the loop of an application leaves alone; keys are only ever used up. -/
structure SameFrame (a b : Db) : Prop where
  tasks : b.tasks = a.tasks
  events : b.events = a.events
  workspaces : b.workspaces = a.workspaces
  now : b.now = a.now
  next : a.next_id ≤ b.next_id

theorem SameFrame.refl (a : Db) : SameFrame a a := ⟨rfl, rfl, rfl, rfl, Nat.le_refl _⟩

theorem SameFrame.trans (h : SameFrame a b) (h' : SameFrame b c) : SameFrame a c :=
  ⟨h'.tasks.trans h.tasks, h'.events.trans h.events, h'.workspaces.trans h.workspaces,
    h'.now.trans h.now, Nat.le_trans h.next h'.next⟩

theorem update_upload_frame (db : Db) (k : Nat) (st : UploadStatus) (t : Option Nat)
    (ten : Option String) (e : String) (fin : Option Time) :
    SameFrame db (ItemRepo.update_upload_status db k st t ten e fin).1 := by
  unfold ItemRepo.update_upload_status
  split
  · exact .refl db
  · exact ⟨rfl, rfl, rfl, rfl, Nat.le_refl _⟩

/-- The session with a new physical object and the workspace object that refers to it. -/
def recorded (db : Db) (task : Task) (item : TaskItem) (d : DeliveryResultItemSpec)
    (bucket key : Text) (ws : Workspace) (fin : Option Time) : Db :=
  { db with
    physical_objects := db.physical_objects ++
      [WorkspaceRepo.physicalRow db task item d bucket key]
    workspace_objects := db.workspace_objects ++ [WorkspaceRepo.objectRow db task item ws key fin]
    next_id := db.next_id + 2 }

/-- What recording a receipt may come to. -/
inductive Recorded (db : Db) (task : Task) (item : TaskItem) (d : DeliveryResultItemSpec)
    (bucket : Text) (fin : Option Time) : Db → Option WorkspaceObjectWriteResult → Prop
  | keyless (hk : d.key.filter (· ≠ []) = none) : Recorded db task item d bucket fin db none
  | existing (w p ws) (hk : (d.key.filter (· ≠ [])).isSome)
      (h : WorkspaceRepo.get_object_by_task_item db item.id = some (w, p, ws)) :
      Recorded db task item d bucket fin db (some ⟨w, p, ws, false⟩)
  | unmapped (hk : (d.key.filter (· ≠ [])).isSome) : Recorded db task item d bucket fin db none
  | created (key ws) (hk : d.key = some key) (hne : key ≠ [])
      (hnew : WorkspaceRepo.get_object_by_task_item db item.id = none)
      (hws : WorkspaceRepo.get_workspace_by_target_key db task.owner_tenant_id
        (strip item.target_name_matched) = some ws) :
      Recorded db task item d bucket fin (recorded db task item d bucket key ws fin)
        (some ⟨WorkspaceRepo.objectRow db task item ws key fin,
          WorkspaceRepo.physicalRow db task item d bucket key, ws, true⟩)

theorem record_recorded
    (h : WorkspaceRepo.record_uploaded_item db task item d bucket fin = (db', result)) :
    Recorded db task item d bucket fin db' result := by
  unfold WorkspaceRepo.record_uploaded_item at h
  split at h
  · rename_i hk
    cases h
    exact .keyless hk
  · rename_i key hkey
    obtain ⟨hk, hne⟩ := Option.filter_eq_some_iff.mp hkey
    split at h
    · rename_i w p ws hold
      cases h
      exact .existing w p ws (by rw [hkey]; rfl) hold
    · rename_i hnew
      split at h
      · cases h
        exact .unmapped (by rw [hkey]; rfl)
      · split at h
        · cases h
          exact .unmapped (by rw [hkey]; rfl)
        · rename_i ws hws
          cases h
          exact .created key ws hk (by simpa using hne) hnew hws

theorem recorded_frame (h : Recorded db task item d bucket fin db' result) :
    SameFrame db db' ∧ db'.items = db.items := by
  cases h with
  | created => exact ⟨⟨rfl, rfl, rfl, rfl, Nat.le_add_right _ _⟩, rfl⟩
  | _ => exact ⟨.refl db, rfl⟩

/-- The session after the write of one item's status. -/
def written (db : Db) (d : DeliveryResultItemSpec) (st : UploadStatus) (e : String)
    (fin : Option Time) : Db :=
  { db with items := Rows.update db.items d.item_id (ItemRepo.setUpload st e fin) }

theorem written_frame : SameFrame db (written db d st e fin) := ⟨rfl, rfl, rfl, rfl, Nat.le_refl _⟩

/-- What one turn of the loop may do. -/
inductive ItemTurn (bucket : Text) (task : Task) (m : DeliveryResultMessage) (acc : ApplyState)
    (d : DeliveryResultItemSpec) : ApplyState → Prop
  | missing (h : d.status = "uploaded" ∨ d.status = "failed" →
        ItemRepo.select acc.db d.item_id (some m.task_id) (some task.owner_tenant_id) = none) :
      ItemTurn bucket task m acc d { acc with missing_items := acc.missing_items ++ [d.item_id] }
  | uploaded (i : TaskItem) (db' result) (hst : d.status = "uploaded")
      (hsel : ItemRepo.select acc.db d.item_id (some m.task_id) (some task.owner_tenant_id) = some i)
      (hrec : Recorded (written acc.db d .uploaded "" (some m.ended_at)) task
        (ItemRepo.setUpload .uploaded "" (some m.ended_at) i) d bucket (some m.ended_at) db' result)
      (acc') (hdb : acc'.db = db')
      (hmissing : acc'.workspace_mapping_missing = if result = none ∧ (d.key.filter (· ≠ [])).isSome
        then acc.workspace_mapping_missing ++ [d.item_id] else acc.workspace_mapping_missing) :
      ItemTurn bucket task m acc d acc'
  | failed (i : TaskItem) (hst : d.status = "failed")
      (hsel : ItemRepo.select acc.db d.item_id (some m.task_id) (some task.owner_tenant_id) = some i) :
      ItemTurn bucket task m acc d
        { acc with
          db := written acc.db d .failed (uploadError m d) none
          applied_items := acc.applied_items + 1 }

theorem apply_item_turn (bucket : Text) (task : Task) (m : DeliveryResultMessage)
    (acc : ApplyState) (d : DeliveryResultItemSpec) :
    ItemTurn bucket task m acc d (apply_item bucket task m acc d) := by
  by_cases hup : d.status = "uploaded"
  · simp only [apply_item, if_pos hup, ItemRepo.update_upload_status]
    cases hsel : ItemRepo.select acc.db d.item_id (some m.task_id) (some task.owner_tenant_id) with
    | none => exact .missing (fun _ => hsel)
    | some i =>
      simp only
      split
      all_goals
        rename_i hrec
        refine .uploaded i _ _ hup hsel (record_recorded hrec) _ rfl ?_
        simp
  · by_cases hfail : d.status = "failed"
    · simp only [apply_item, if_neg hup, if_pos hfail, ItemRepo.update_upload_status]
      cases hsel : ItemRepo.select acc.db d.item_id (some m.task_id) (some task.owner_tenant_id) with
      | none => exact .missing (fun _ => hsel)
      | some i => exact .failed i hfail hsel
    · simp only [apply_item, if_neg hup, if_neg hfail]
      exact .missing (fun h => (h.elim hup hfail).elim)

/-- One turn of the loop writes items and workspace rows only. -/
theorem apply_item_frame (bucket : Text) (task : Task) (m : DeliveryResultMessage)
    (acc : ApplyState) (d : DeliveryResultItemSpec) :
    SameFrame acc.db (apply_item bucket task m acc d).db := by
  have hturn := apply_item_turn bucket task m acc d
  generalize apply_item bucket task m acc d = next at hturn ⊢
  cases hturn with
  | missing => exact .refl _
  | uploaded i _ _ hst hsel hrec acc' hdb _ => exact hdb ▸ written_frame.trans (recorded_frame hrec).1
  | failed => exact written_frame

theorem apply_loop_frame (bucket : Text) (task : Task) (m : DeliveryResultMessage)
    (acc : ApplyState) (ds : List DeliveryResultItemSpec) :
    SameFrame acc.db (ds.foldl (apply_item bucket task m) acc).db := by
  induction ds generalizing acc with
  | nil => exact .refl _
  | cons d ds ih => exact (apply_item_frame bucket task m acc d).trans (ih _)

def PhysicalFresh (db : Db) : Prop := ∀ p ∈ db.physical_objects, p.id < db.next_id

/-- How far the workspace tables may have grown on account of the entries `ds`:
every new workspace object repeats the receipt of an uploaded entry. -/
structure Records (bucket : Text) (ds : List DeliveryResultItemSpec) (a b : Db) : Prop where
  next : a.next_id ≤ b.next_id
  fresh : PhysicalFresh a → PhysicalFresh b
  physical : a.physicalOf w = some p → b.physicalOf w = some p
  objects : PhysicalFresh a → ∀ w ∈ b.workspace_objects, w ∈ a.workspace_objects ∨
    ∃ d ∈ ds, ∃ key p, d.status = "uploaded" ∧ d.key = some key ∧ key ≠ [] ∧
      w.task_item_id = d.item_id ∧ b.physicalOf w = some p ∧ p.bucket = bucket ∧
      p.object_key = key

theorem Records.refl (bucket : Text) (ds : List DeliveryResultItemSpec) (a : Db) :
    Records bucket ds a a :=
  ⟨Nat.le_refl _, fun h => h, fun h => h, fun _ _ hw => .inl hw⟩

theorem Records.trans (h : Records bucket ds a b) (h' : Records bucket ds' b c)
    (hs : ∀ d ∈ ds, d ∈ es) (hs' : ∀ d ∈ ds', d ∈ es) : Records bucket es a c := by
  refine ⟨Nat.le_trans h.next h'.next, fun hf => h'.fresh (h.fresh hf),
    fun hp => h'.physical (h.physical hp), ?_⟩
  intro hf w hw
  rcases h'.objects (h.fresh hf) w hw with hw | ⟨d, hd, he⟩
  · rcases h.objects hf w hw with hw | ⟨d, hd, key, p, hu, hk, hne, hi, hp, hb, ho⟩
    · exact .inl hw
    · exact .inr ⟨d, hs d hd, key, p, hu, hk, hne, hi, h'.physical hp, hb, ho⟩
  · exact .inr ⟨d, hs' d hd, he⟩

/-- Writes to other tables. -/
theorem Records.of_same (hp : b.physical_objects = a.physical_objects)
    (hw : b.workspace_objects = a.workspace_objects) (hn : a.next_id ≤ b.next_id) :
    Records bucket ds a b := by
  refine ⟨hn, ?_, ?_, ?_⟩
  · intro hf p hm
    rw [hp] at hm
    exact Nat.lt_of_lt_of_le (hf p hm) hn
  · intro w p h
    simpa [Db.physicalOf, hp] using h
  · intro _ w hm
    exact .inl (hw ▸ hm)

theorem recorded_records (h : Recorded db task item d bucket fin db' result)
    (hd : d.status = "uploaded") (hi : item.id = d.item_id) : Records bucket [d] db db' := by
  cases h with
  | created key ws hk hne hnew hws =>
    refine ⟨Nat.le_add_right _ _, ?_, fun h => Rows.find_append h, ?_⟩
    · intro hf q hq
      change q.id < db.next_id + 2
      rcases List.mem_append.mp hq with hq | hq
      · exact Nat.lt_of_lt_of_le (hf q hq) (Nat.le_add_right _ _)
      · rw [List.mem_singleton.mp hq]
        exact Nat.lt_add_of_pos_right (by decide)
    · intro hf v hv
      rcases List.mem_append.mp hv with hv | hv
      · exact .inl hv
      · rw [List.mem_singleton.mp hv]
        refine .inr ⟨d, by simp, key, WorkspaceRepo.physicalRow db task item d bucket key, hd, hk, hne,
          hi, ?_, rfl, rfl⟩
        apply Rows.find_append_new
        intro q hq
        exact Nat.ne_of_lt (hf q hq)
  | _ => exact .refl bucket [d] db

/-- The row that a query scoped to a task selects. -/
theorem select_some (h : ItemRepo.select db k (some t) ten = some i) :
    Rows.find? db.items k = some i ∧ i.id = k ∧ i.task_id = t := by
  obtain ⟨hf, hp⟩ := Option.filter_eq_some_iff.mp h
  simp only [Option.isNone_some, Bool.false_or, Bool.and_eq_true, beq_iff_eq,
    Option.some.injEq] at hp
  exact ⟨hf, Rows.find_key hf, hp.1.symm⟩

/-- No row that the owner's query misses is one of the task. -/
theorem select_none (h : ItemRepo.select db k (some t) ten = none)
    (hn : (db.items.map TaskItem.id).Nodup) (ho : ItemRepo.ownerAllows db ten t = true)
    (hi : i ∈ db.items) : ¬(i.id = k ∧ i.task_id = t) := by
  rintro ⟨rfl, rfl⟩
  have hf := Rows.find_of_mem hn hi
  simp only [item_key] at hf
  simp [ItemRepo.select, hf, ho] at h

/-- With distinct keys the write reaches the row of the task only. -/
theorem written_items (h : ItemRepo.select db d.item_id (some t) ten = some i)
    (hn : (db.items.map TaskItem.id).Nodup) :
    (written db d st e fin).items = db.items.map (fun i =>
      if i.id = d.item_id ∧ i.task_id = t then ItemRepo.setUpload st e fin i else i) := by
  obtain ⟨hf, hid, ht⟩ := select_some h
  apply List.map_congr_left
  intro j hj
  by_cases hjk : j.id = d.item_id
  · have hji : j = i := Rows.eq_of_key hn hj (Rows.find_mem hf) (hjk.trans hid.symm)
    simp [hji, hid, ht]
  · simp [hjk]

/-- What one turn of the loop does to items and workspace rows. -/
theorem apply_item_spec (bucket : Text) (task : Task) (d : DeliveryResultItemSpec)
    (hn : (acc.db.items.map TaskItem.id).Nodup)
    (ho : ItemRepo.ownerAllows acc.db (some task.owner_tenant_id) m.task_id = true) :
    Records bucket [d] acc.db (apply_item bucket task m acc d).db ∧
      (apply_item bucket task m acc d).db.items =
        acc.db.items.map (fun i => itemEffect m i d) := by
  have hturn := apply_item_turn bucket task m acc d
  generalize apply_item bucket task m acc d = next at hturn ⊢
  cases hturn with
  | missing h =>
    refine ⟨.refl _ _ _, ((List.map_congr_left (g := id) ?_).trans (List.map_id _)).symm⟩
    intro i hi
    by_cases hst : d.status = "uploaded" ∨ d.status = "failed"
    · have := select_none (h hst) hn ho hi
      simp [itemEffect, this]
    · rw [not_or] at hst
      simp [itemEffect, hst]
  | uploaded i _ _ hst hsel hrec acc' hdb _ =>
    have hid : (ItemRepo.setUpload .uploaded "" (some m.ended_at) i).id = d.item_id :=
      (select_some hsel).2.1
    have hwritten : Records bucket [d] acc.db (written acc.db d .uploaded "" (some m.ended_at)) :=
      .of_same rfl rfl (Nat.le_refl _)
    rw [hdb]
    refine ⟨hwritten.trans (recorded_records hrec hst hid) (fun _ h => h) (fun _ h => h), ?_⟩
    rw [(recorded_frame hrec).2, written_items hsel hn]
    simp [itemEffect, hst]
  | failed i hst hsel =>
    refine ⟨.of_same rfl rfl (Nat.le_refl _), ?_⟩
    rw [written_items hsel hn]
    simp [itemEffect, hst]

/-- What the whole loop does to them: one row effect per entry. -/
theorem apply_loop_spec (acc : ApplyState) (bucket : Text) (task : Task) (ds : List DeliveryResultItemSpec)
    (hn : (acc.db.items.map TaskItem.id).Nodup)
    (ho : ItemRepo.ownerAllows acc.db (some task.owner_tenant_id) m.task_id = true) :
    Records bucket ds acc.db (ds.foldl (apply_item bucket task m) acc).db ∧
      (ds.foldl (apply_item bucket task m) acc).db.items =
        acc.db.items.map (fun i => ds.foldl (itemEffect m) i) := by
  induction ds generalizing acc with
  | nil => exact ⟨.refl _ _ _, by simp⟩
  | cons d ds ih =>
    obtain ⟨hr, hi⟩ := apply_item_spec bucket task d hn ho
    have hn' : ((apply_item bucket task m acc d).db.items.map TaskItem.id).Nodup := by
      rw [hi, List.map_map]
      convert hn using 2
      funext i
      exact (core_eq_fields itemEffect_core).1
    have ho' : ItemRepo.ownerAllows (apply_item bucket task m acc d).db
        (some task.owner_tenant_id) m.task_id = true := by
      simpa only [ItemRepo.ownerAllows, (apply_item_frame bucket task m acc d).tasks] using ho
    obtain ⟨hr', hi'⟩ := ih _ hn' ho'
    refine ⟨hr.trans hr' (by simp) (fun e he => List.mem_cons_of_mem _ he), ?_⟩
    rw [List.foldl_cons, hi', hi, List.map_map]
    rfl

theorem update_status_same (db : Db) (t : Nat) (st : TaskStatus) (ten : Option String)
    (c f : Option Time) :
    (TaskRepo.update_status db t st ten c f).items = db.items ∧
      (TaskRepo.update_status db t st ten c f).physical_objects = db.physical_objects ∧
      (TaskRepo.update_status db t st ten c f).workspace_objects = db.workspace_objects ∧
      (TaskRepo.update_status db t st ten c f).workspaces = db.workspaces ∧
      (TaskRepo.update_status db t st ten c f).events = db.events ∧
      (TaskRepo.update_status db t st ten c f).next_id = db.next_id ∧
      (TaskRepo.update_status db t st ten c f).now = db.now := by
  unfold TaskRepo.update_status
  split <;> exact ⟨rfl, rfl, rfl, rfl, rfl, rfl, rfl⟩

theorem update_status_events (db : Db) (t : Nat) (st : TaskStatus) (ten : Option String)
    (c f : Option Time) : (TaskRepo.update_status db t st ten c f).events = db.events :=
  (update_status_same db t st ten c f).2.2.2.2.1

theorem finish_same (task : Task) (m : DeliveryResultMessage) (acc : ApplyState) :
    (finish_apply task m acc).items = acc.db.items ∧
      (finish_apply task m acc).physical_objects = acc.db.physical_objects ∧
      (finish_apply task m acc).workspace_objects = acc.db.workspace_objects ∧
      (finish_apply task m acc).workspaces = acc.db.workspaces ∧
      (finish_apply task m acc).now = acc.db.now ∧
      acc.db.next_id ≤ (finish_apply task m acc).next_id := by
  obtain ⟨hi, hp, hw, hs, _, hn, ht⟩ := update_status_same acc.db m.task_id
    (.ofString m.status) (some task.owner_tenant_id) none (some m.ended_at)
  unfold finish_apply
  split
  all_goals
    refine ⟨hi, hp, hw, hs, ht, ?_⟩
    simp only [EventRepo.append, hn]
    omega

theorem get_unfiltered (db : Db) (t : Nat) : TaskRepo.get db t none = Rows.find? db.tasks t := by
  cases h : Rows.find? db.tasks t <;> simp [TaskRepo.get, tenantAllows, h]

theorem get_find (h : TaskRepo.get db t none = some task) : Rows.find? db.tasks t = some task :=
  get_unfiltered db t ▸ h

theorem get_owner (h : TaskRepo.get db t none = some task) :
    ItemRepo.ownerAllows db (some task.owner_tenant_id) t = true := by
  have hf := get_find h
  refine List.any_eq_true.mpr ⟨task, Rows.find_mem hf, ?_⟩
  have hk : task.id = t := Rows.find_key hf
  simp [hk]

/-- A task that is read without a filter is read with its own owner as filter. -/
theorem get_own (h : TaskRepo.get db t none = some task) :
    TaskRepo.get db t (some task.owner_tenant_id) = some task :=
  Option.filter_eq_some_iff.mpr ⟨get_find h, by simp [tenantAllows]⟩

/-- The task row after a result: its status text, and the end time of the run. -/
def settleTask (m : DeliveryResultMessage) (t : Task) : Task :=
  { t with status := .ofString m.status, finished_at := some m.ended_at }

theorem apply_missing (h : TaskRepo.get db m.task_id none = none) :
    (apply_delivery_result bucket db m).1 = db := by
  simp [apply_delivery_result, h]

/-- Items after a result of an existing task. -/
theorem apply_items (bucket : Text) (hn : (db.items.map TaskItem.id).Nodup)
    (h : TaskRepo.get db m.task_id none = some task) :
    (apply_delivery_result bucket db m).1.items = db.items.map (settle m) := by
  have hl := apply_loop_spec ⟨db, 0, [], 0, []⟩ bucket task m.items hn (get_owner h)
  simp only [apply_delivery_result, h]
  rw [(finish_same task m _).1, hl.2]
  rfl

/-- The workspace tables after a result. -/
theorem apply_records (bucket : Text) (hn : (db.items.map TaskItem.id).Nodup)
    (m : DeliveryResultMessage) :
    Records bucket m.items db (apply_delivery_result bucket db m).1 := by
  cases h : TaskRepo.get db m.task_id none with
  | none => rw [apply_missing h]; exact .refl _ _ _
  | some task =>
    have hl := apply_loop_spec ⟨db, 0, [], 0, []⟩ bucket task m.items hn (get_owner h)
    simp only [apply_delivery_result, h]
    obtain ⟨_, hp, hw, _, _, hnext⟩ := finish_same task m
      (m.items.foldl (apply_item bucket task m) ⟨db, 0, [], 0, []⟩)
    have hend : Records bucket [] (m.items.foldl (apply_item bucket task m) ⟨db, 0, [], 0, []⟩).db
        (finish_apply task m (m.items.foldl (apply_item bucket task m) ⟨db, 0, [], 0, []⟩)) :=
      .of_same hp hw hnext
    exact hl.1.trans hend (fun _ h => h) (by simp)

theorem apply_tasks (bucket : Text) (db : Db) (m : DeliveryResultMessage) :
    (apply_delivery_result bucket db m).1.tasks =
      Rows.update db.tasks m.task_id (settleTask m) := by
  cases h : TaskRepo.get db m.task_id none with
  | none =>
    rw [apply_missing h]
    exact (Rows.update_absent (get_unfiltered db m.task_id ▸ h)).symm
  | some task =>
    have hl := apply_loop_frame bucket task m ⟨db, 0, [], 0, []⟩ m.items
    have hg : TaskRepo.get (m.items.foldl (apply_item bucket task m) ⟨db, 0, [], 0, []⟩).db
        m.task_id (some task.owner_tenant_id) = some task := by
      simpa only [TaskRepo.get, hl.tasks] using get_own h
    simp only [apply_delivery_result, h, finish_apply, TaskRepo.update_status, hg,
      EventRepo.append, hl.tasks, Option.none_or, Option.some_or]
    split <;> rfl

theorem apply_next (h : TaskRepo.get db m.task_id none = some task) :
    db.next_id < (apply_delivery_result bucket db m).1.next_id := by
  have hl : db.next_id ≤ (m.items.foldl (apply_item bucket task m) ⟨db, 0, [], 0, []⟩).db.next_id :=
    (apply_loop_frame bucket task m ⟨db, 0, [], 0, []⟩ m.items).next
  obtain ⟨_, _, _, _, _, hu, _⟩ := update_status_same
    (m.items.foldl (apply_item bucket task m) ⟨db, 0, [], 0, []⟩).db m.task_id
    (.ofString m.status) (some task.owner_tenant_id) none (some m.ended_at)
  simp only [apply_delivery_result, h, finish_apply]
  split
  all_goals
    simp only [EventRepo.append, hu]
    omega

/-- Results create and delete no task. -/
theorem apply_get (bucket : Text) (db : Db) (m : DeliveryResultMessage) (t : Nat) :
    (TaskRepo.get (apply_delivery_result bucket db m).1 t none).isNone =
      (TaskRepo.get db t none).isNone := by
  have hkeys : (apply_delivery_result bucket db m).1.tasks.map Task.id = db.tasks.map Task.id := by
    rw [apply_tasks]
    exact Rows.update_map Task.id (fun _ => rfl)
  have hfind : ∀ rows : List Task, (Rows.find? rows t).isNone = ((rows.map Task.id).all (· != t)) := by
    intro rows
    rw [Bool.eq_iff_iff]
    simp [Rows.find?]
  rw [get_unfiltered, get_unfiltered, hfind, hfind, hkeys]

end FileDelivery.Proofs.ApplyResult
