import FileDelivery.Proofs.TenantSlice

namespace FileDelivery.Proofs.TenantResults
open FileDelivery.Library FileDelivery.Control FileDelivery.Control.WorkspaceRepo
open FileDelivery.Proofs.ApplyResult FileDelivery.Proofs.TenantSlice

/-- The columns by which rows refer to each other, and the owners. -/
structure Keys where
  tasks : List (Nat × String)
  items : List (Nat × Nat)
  events : List Nat
  workspaces : List (Nat × String)
  physical : List (Nat × String)
  objects : List WorkspaceObject
  next_id : Nat

def keys (db : Db) : Keys where
  tasks := db.tasks.map (fun x => (x.id, x.owner_tenant_id))
  items := db.items.map (fun i => (i.id, i.task_id))
  events := db.events.map (·.task_id)
  workspaces := db.workspaces.map (fun w => (w.id, w.owner_tenant_id))
  physical := db.physical_objects.map (fun p => (p.id, p.owner_tenant_id))
  objects := db.workspace_objects
  next_id := db.next_id

/-- What an object refers to belongs to the tenant of its task. -/
structure Fits (k : Keys) (o : WorkspaceObject) : Prop where
  fresh : o.task_item_id < k.next_id ∧ o.physical_object_id < k.next_id ∧ o.workspace_id < k.next_id
  owned : ∃ owner, (o.task_id, owner) ∈ k.tasks ∧
    (∀ t, (o.task_item_id, t) ∈ k.items → t = o.task_id) ∧
    (∀ w, (o.physical_object_id, w) ∈ k.physical → w = owner) ∧
    ∀ w, (o.workspace_id, w) ∈ k.workspaces → w = owner

/-- Keys are distinct and below the next one to draw. -/
structure Linked (k : Keys) : Prop where
  task_ids : (k.tasks.map (·.1)).Nodup
  item_ids : (k.items.map (·.1)).Nodup
  workspace_ids : (k.workspaces.map (·.1)).Nodup
  tasks : ∀ x ∈ k.tasks, x.1 < k.next_id
  items : ∀ i ∈ k.items, i.1 < k.next_id ∧ i.2 < k.next_id
  events : ∀ e ∈ k.events, e < k.next_id
  workspaces : ∀ w ∈ k.workspaces, w.1 < k.next_id
  physical : ∀ p ∈ k.physical, p.1 < k.next_id
  objects : ∀ o ∈ k.objects, Fits k o

theorem Fits.later (h : Fits k o) (hn : k.next_id ≤ n) : Fits { k with next_id := n } o :=
  ⟨⟨h.fresh.1.trans_le hn, h.fresh.2.1.trans_le hn, h.fresh.2.2.trans_le hn⟩, h.owned⟩

/-- A key drawn from further on. -/
theorem Linked.later (h : Linked k) (hn : k.next_id ≤ n) : Linked { k with next_id := n } where
  task_ids := h.task_ids
  item_ids := h.item_ids
  workspace_ids := h.workspace_ids
  tasks := fun x hx => (h.tasks x hx).trans_le hn
  items := fun i hi => ⟨(h.items i hi).1.trans_le hn, (h.items i hi).2.trans_le hn⟩
  events := fun e he => (h.events e he).trans_le hn
  workspaces := fun w hw => (h.workspaces w hw).trans_le hn
  physical := fun p hp => (h.physical p hp).trans_le hn
  objects := fun o ho => (h.objects o ho).later hn

/-- An event about a task that exists. -/
theorem Linked.append (h : Linked (keys db)) (hk : k < db.next_id) (payload : EventPayload) :
    Linked (keys (EventRepo.append db k payload)) := by
  have hl := h.later (Nat.le_succ _)
  refine { hl with events := ?_, objects := fun o ho => ⟨(hl.objects o ho).fresh, (hl.objects o ho).owned⟩ }
  simp only [keys, EventRepo.append, List.map_append, List.map_cons, List.map_nil]
  exact Rows.append_all hl.events (hk.trans (Nat.lt_succ_self _))

theorem Linked.create (h : Linked (keys db)) (hid : task.id = db.next_id) :
    Linked (keys { db with tasks := db.tasks ++ [task], next_id := db.next_id + 1 }) := by
  have hl := h.later (Nat.le_succ _)
  have htasks : (db.tasks ++ [task]).map (fun x => (x.id, x.owner_tenant_id)) =
      (keys db).tasks ++ [(task.id, task.owner_tenant_id)] := by
    simp [keys]
  refine { hl with task_ids := ?_, tasks := ?_, objects := fun o ho => ⟨(hl.objects o ho).fresh, ?_⟩ }
  · simp only [keys, htasks]
    exact Rows.append_nodup h.task_ids (fun x hx => hid ▸ h.tasks x hx)
  · simp only [keys, htasks]
    exact Rows.append_all hl.tasks (hid ▸ Nat.lt_succ_self _)
  · obtain ⟨owner, hmem, hrest⟩ := (hl.objects o ho).owned
    refine ⟨owner, ?_, hrest⟩
    simp only [keys, htasks]
    exact List.mem_append_left _ hmem

theorem Linked.insert (h : Linked (keys db)) (hk : k < db.next_id) (rows : List TaskItem)
    (hids : rows.map TaskItem.id = List.range' db.next_id rows.length)
    (htask : ∀ i ∈ rows, i.task_id = k) :
    Linked (keys { db with items := db.items ++ rows, next_id := db.next_id + rows.length }) := by
  have hl := h.later (Nat.le_add_right _ rows.length)
  have hrow : ∀ i ∈ rows, db.next_id ≤ i.id ∧ i.id < db.next_id + rows.length := by
    intro i hi
    have := List.mem_map_of_mem (f := TaskItem.id) hi
    rw [hids] at this
    simpa using this
  have hitems : (db.items ++ rows).map (fun i => (i.id, i.task_id)) =
      (keys db).items ++ rows.map (fun i => (i.id, i.task_id)) := by
    simp [keys]
  refine { hl with item_ids := ?_, items := ?_, objects := fun o ho => ⟨(hl.objects o ho).fresh, ?_⟩ }
  · simp only [keys, hitems, List.map_append, List.map_map, Function.comp_def]
    rw [List.nodup_append]
    refine ⟨by simpa [keys, Function.comp_def] using h.item_ids, hids ▸ List.nodup_range', ?_⟩
    intro x hx y hy he
    obtain ⟨i, hi, rfl⟩ := List.mem_map.mp hy
    obtain ⟨j, hj, rfl⟩ := List.mem_map.mp hx
    have := (hrow i hi).1
    have hj : j.id < db.next_id := (h.items _ (List.mem_map_of_mem hj)).1
    omega
  · intro i hi
    change i ∈ (db.items ++ rows).map (fun i => (i.id, i.task_id)) at hi
    rw [hitems] at hi
    rcases List.mem_append.mp hi with hi | hi
    · exact hl.items i hi
    · obtain ⟨j, hj, rfl⟩ := List.mem_map.mp hi
      exact ⟨(hrow j hj).2, htask j hj ▸ hk.trans_le (Nat.le_add_right _ _)⟩
  · obtain ⟨owner, hmem, hitem, hrest⟩ := (hl.objects o ho).owned
    refine ⟨owner, hmem, ?_, hrest⟩
    intro t ht
    change (o.task_item_id, t) ∈ (db.items ++ rows).map (fun i => (i.id, i.task_id)) at ht
    rw [hitems] at ht
    rcases List.mem_append.mp ht with ht | ht
    · exact hitem t ht
    · obtain ⟨j, hj, he⟩ := List.mem_map.mp ht
      have hid : j.id = o.task_item_id := congrArg Prod.fst he
      have hnew := (hrow j hj).1
      have hold : o.task_item_id < db.next_id := (h.objects o ho).fresh.1
      omega

theorem Linked.workspace (h : Linked (keys db)) (hid : w.id = db.next_id) :
    Linked (keys { db with workspaces := db.workspaces ++ [w], next_id := db.next_id + 1 }) := by
  have hl := h.later (Nat.le_succ _)
  have hrows : (db.workspaces ++ [w]).map (fun w => (w.id, w.owner_tenant_id)) =
      (keys db).workspaces ++ [(w.id, w.owner_tenant_id)] := by
    simp [keys]
  refine { hl with
    workspace_ids := ?_, workspaces := ?_, objects := fun o ho => ⟨(hl.objects o ho).fresh, ?_⟩ }
  · simp only [keys, hrows]
    exact Rows.append_nodup h.workspace_ids (fun x hx => hid ▸ h.workspaces x hx)
  · simp only [keys, hrows]
    exact Rows.append_all hl.workspaces (hid ▸ Nat.lt_succ_self _)
  · obtain ⟨owner, hmem, hitem, hphysical, hworkspace⟩ := (hl.objects o ho).owned
    refine ⟨owner, hmem, hitem, hphysical, ?_⟩
    intro v hv
    simp only [keys, hrows, List.mem_append, List.mem_singleton, Prod.mk.injEq] at hv
    rcases hv with hv | hv
    · exact hworkspace v hv
    · have hold : o.workspace_id < db.next_id := (h.objects o ho).fresh.2.2
      omega

/-- A receipt recorded for an item of the task. -/
theorem Linked.record (h : Linked (keys db)) (htask : task ∈ db.tasks) (hitem : i ∈ db.items)
    (hi : i.task_id = task.id) (hws : ws ∈ db.workspaces)
    (howner : ws.owner_tenant_id = task.owner_tenant_id) (hcore : item.id = i.id)
    (d : DeliveryResultItemSpec) (bucket key : Text) (fin : Option Time) :
    Linked (keys (recorded db task item d bucket key ws fin)) := by
  have hl := h.later (Nat.le_add_right _ 2)
  let p := physicalRow db task item d bucket key
  have hrows : (db.physical_objects ++ [p]).map (fun p => (p.id, p.owner_tenant_id)) =
      (keys db).physical ++ [(db.next_id, task.owner_tenant_id)] := by
    simp [keys, p, physicalRow]
  refine { hl with physical := ?_, objects := ?_ }
  · change ∀ q ∈ (db.physical_objects ++ [p]).map (fun p => (p.id, p.owner_tenant_id)),
      q.1 < db.next_id + 2
    rw [hrows]
    exact Rows.append_all hl.physical (Nat.lt_add_of_pos_right (by decide))
  · have hfits : ∀ o ∈ db.workspace_objects, Fits (keys (recorded db task item d bucket key ws fin)) o := by
      intro o ho
      obtain ⟨owner, hmem, hitems, hphysical, hworkspace⟩ := (hl.objects o ho).owned
      refine ⟨(hl.objects o ho).fresh, owner, hmem, hitems, ?_, hworkspace⟩
      intro w hw
      change (o.physical_object_id, w) ∈
        (db.physical_objects ++ [p]).map (fun p => (p.id, p.owner_tenant_id)) at hw
      rw [hrows] at hw
      rcases List.mem_append.mp hw with hw | hw
      · exact hphysical w hw
      · have hid : o.physical_object_id = db.next_id := congrArg Prod.fst (List.mem_singleton.mp hw)
        have hold : o.physical_object_id < db.next_id := (h.objects o ho).fresh.2.1
        omega
    refine Rows.append_all hfits ⟨⟨?_, ?_, ?_⟩, task.owner_tenant_id, ?_, ?_, ?_, ?_⟩
    · have hold : i.id < db.next_id := (h.items _ (List.mem_map_of_mem hitem)).1
      change item.id < db.next_id + 2
      omega
    · exact Nat.lt_add_of_pos_right (by decide)
    · have hold : ws.id < db.next_id := h.workspaces _ (List.mem_map_of_mem hws)
      exact hold.trans_le (Nat.le_add_right _ _)
    · exact List.mem_map_of_mem htask
    · intro t ht
      have he := List.inj_on_of_nodup_map h.item_ids ht (List.mem_map_of_mem hitem) hcore
      exact (congrArg Prod.snd he).trans hi
    · intro w hw
      change (db.next_id, w) ∈ (db.physical_objects ++ [p]).map (fun p => (p.id, p.owner_tenant_id)) at hw
      rw [hrows] at hw
      rcases List.mem_append.mp hw with hw | hw
      · exact absurd (h.physical _ hw) (Nat.lt_irrefl _)
      · exact congrArg Prod.snd (List.mem_singleton.mp hw)
    · intro w hw
      have he := List.inj_on_of_nodup_map h.workspace_ids hw (List.mem_map_of_mem hws) rfl
      exact (congrArg Prod.snd he).trans howner

variable {own : Nat → Bool} {tenant : String}

theorem Linked.item_nodup (h : Linked (keys db)) : (db.items.map TaskItem.id).Nodup := by
  simpa [keys, Function.comp_def] using h.item_ids

theorem select_slice (ho : Owns own tenant db) (hl : Linked (keys db)) (hk : own k = true) (id : Nat) :
    ItemRepo.select (slice own tenant db) id (some k) (some tenant) =
      ItemRepo.select db id (some k) (some tenant) := by
  simp only [ItemRepo.select, owner_slice ho]
  refine find_filter_unique hl.item_nodup (fun i hi => ?_)
  simp only [Bool.and_eq_true, Bool.or_eq_true, Option.isNone_some, beq_iff_eq, Option.some.injEq,
    Bool.false_eq_true, false_or] at hi
  exact hi.1 ▸ hk

theorem written_slice (d : DeliveryResultItemSpec) (st : UploadStatus) (e : String) (fin : Option Time) :
    written (slice own tenant db) d st e fin = slice own tenant (written db d st e fin) := by
  simp only [written, slice]
  congr 1
  refine (update_filter (p := fun i : TaskItem => own i.task_id) ?_).symm
  exact fun _ => rfl

/-- An owner finds its own workspaces. -/
theorem target_slice (key : Text) :
    get_workspace_by_target_key (slice own tenant db) tenant key =
      get_workspace_by_target_key db tenant key := by
  refine find_passing (fun w _ hfound => ?_)
  exact (Bool.and_eq_true_iff.mp hfound).1

/-- The join of an object of the tenant's item stays within its rows. -/
theorem object_slice (ho : Owns own tenant db) (hl : Linked (keys db)) (hi : i ∈ db.items)
    (hk : own i.task_id = true) :
    get_object_by_task_item (slice own tenant db) i.id = get_object_by_task_item db i.id := by
  have hmine : ∀ o ∈ db.workspace_objects, o.task_item_id = i.id → own o.task_id = true ∧
      (∀ p ∈ db.physical_objects, p.id = o.physical_object_id → p.owner_tenant_id = tenant) ∧
      ∀ w ∈ db.workspaces, w.id = o.workspace_id → w.owner_tenant_id = tenant := by
    intro o hmem hitem
    obtain ⟨owner, htask, hitems, hphysical, hworkspace⟩ := (hl.objects o hmem).owned
    have htid : i.task_id = o.task_id := hitems i.task_id (hitem ▸ List.mem_map_of_mem hi)
    obtain ⟨x, hx, he⟩ := List.mem_map.mp htask
    obtain ⟨hxid, hxowner⟩ := Prod.mk.inj he
    have howner : owner = tenant :=
      hxowner.symm.trans ((ho x hx).mp (hxid ▸ htid ▸ hk))
    refine ⟨htid ▸ hk, fun p hp hid => ?_, fun w hw hid => ?_⟩
    · exact (hphysical _ (hid ▸ List.mem_map_of_mem hp)).trans howner
    · exact (hworkspace _ (hid ▸ List.mem_map_of_mem hw)).trans howner
  have hobjects : (db.workspace_objects.filter (fun o => own o.task_id)).filter
      (fun o => o.task_item_id == i.id) = db.workspace_objects.filter (fun o => o.task_item_id == i.id) := by
    rw [List.filter_filter]
    refine List.filter_congr (fun o hmem => ?_)
    have := hmine o hmem
    grind
  simp only [get_object_by_task_item, slice, hobjects]
  refine findSome_congr (fun o hmem => ?_)
  have hid : o.task_item_id = i.id := by simpa using List.of_mem_filter hmem
  obtain ⟨_, hphysical, hworkspace⟩ := hmine o (List.mem_of_mem_filter hmem) hid
  have hp : Rows.find? (db.physical_objects.filter (fun p => p.owner_tenant_id == tenant))
      o.physical_object_id = Rows.find? db.physical_objects o.physical_object_id :=
    find_passing (fun p hp hid => beq_iff_eq.mpr (hphysical p hp (beq_iff_eq.mp hid)))
  have hw : (db.workspaces.filter (fun w => w.owner_tenant_id == tenant)).find? (·.id == o.workspace_id) =
      db.workspaces.find? (·.id == o.workspace_id) :=
    find_passing (fun w hw hid => beq_iff_eq.mpr (hworkspace w hw (beq_iff_eq.mp hid)))
  rw [hp, hw]

theorem recorded_slice (htask : own task.id = true) (howner : task.owner_tenant_id = tenant)
    (item : TaskItem) (d : DeliveryResultItemSpec) (bucket key : Text) (ws : Workspace)
    (fin : Option Time) : recorded (slice own tenant db) task item d bucket key ws fin =
      slice own tenant (recorded db task item d bucket key ws fin) := by
  simp [recorded, slice, objectRow, physicalRow, htask, howner]

theorem record_slice (ho : Owns own tenant db) (hl : Linked (keys db)) (htask : own task.id = true)
    (howner : task.owner_tenant_id = tenant) (hi : i ∈ db.items) (hk : own i.task_id = true)
    (hid : item.id = i.id) (d : DeliveryResultItemSpec) (bucket : Text) (fin : Option Time) :
    record_uploaded_item (slice own tenant db) task item d bucket fin =
      (slice own tenant (record_uploaded_item db task item d bucket fin).1,
        (record_uploaded_item db task item d bucket fin).2) := by
  simp only [record_uploaded_item, hid, object_slice ho hl hi hk, howner, target_slice]
  split
  · rfl
  · rename_i key _
    split
    · rfl
    · split
      · rfl
      · split
        · rfl
        · rename_i ws _
          refine Prod.ext ?_ rfl
          exact recorded_slice htask howner item d bucket key ws fin

/-- The loop's variables as the tenant's slice has them. -/
def sliceLoop (own : Nat → Bool) (tenant : String) (acc : ApplyState) : ApplyState :=
  { acc with db := slice own tenant acc.db }

theorem written_keys (d : DeliveryResultItemSpec) (st : UploadStatus) (e : String) (fin : Option Time) :
    keys (written db d st e fin) = keys db := by
  simp only [keys, written]
  congr 1
  exact Rows.update_map (fun i : TaskItem => (i.id, i.task_id)) (fun _ => rfl)

/-- What the loop relies on: it applies a result of one of the tenant's tasks. -/
structure Applies (own : Nat → Bool) (tenant : String) (task : Task) (db : Db) : Prop where
  owns : Owns own tenant db
  linked : Linked (keys db)
  mem : task ∈ db.tasks
  own : own task.id = true
  owner : task.owner_tenant_id = tenant

theorem Applies.written (h : Applies own tenant task db) (d : DeliveryResultItemSpec) (st : UploadStatus)
    (e : String) (fin : Option Time) : Applies own tenant task (written db d st e fin) :=
  ⟨h.owns.of_same rfl, (written_keys d st e fin).symm ▸ h.linked, h.mem, h.own, h.owner⟩

/-- A selected item, with its new status, is one of the rows after the write. -/
theorem selected_written {k : Nat} {ten : Option String}
    (hs : ItemRepo.select db d.item_id (some k) ten = some i) (st : UploadStatus) (e : String)
    (fin : Option Time) :
    ItemRepo.setUpload st e fin i ∈ (written db d st e fin).items ∧ i.task_id = k := by
  obtain ⟨hfind, hpass⟩ := Option.filter_eq_some_iff.mp hs
  refine ⟨Rows.mem_update_of_mem (Rows.find_mem hfind) (Rows.find_key hfind), ?_⟩
  simp only [Bool.and_eq_true, Bool.or_eq_true, Option.isNone_some, beq_iff_eq, Option.some.injEq,
    Bool.false_eq_true, false_or] at hpass
  exact hpass.1.symm

theorem item_applies (h : Applies own tenant task acc.db) (hm : task.id = m.task_id) (bucket : Text)
    (d : DeliveryResultItemSpec) : Applies own tenant task (apply_item bucket task m acc d).db := by
  have hturn := apply_item_turn bucket task m acc d
  generalize apply_item bucket task m acc d = next at hturn ⊢
  cases hturn with
  | missing => exact h
  | failed => exact h.written _ _ _ _
  | uploaded i db' result hst hsel hrec acc' hdb _ =>
    rw [hdb]
    have hw := h.written d .uploaded "" (some m.ended_at)
    cases hrec with
    | created key ws hk hne hnew hws =>
      obtain ⟨hitem, htask⟩ := selected_written hsel .uploaded "" (some m.ended_at)
      unfold get_workspace_by_target_key at hws
      have hmem := List.mem_of_find?_eq_some hws
      have hfound := List.find?_some hws
      simp only [Bool.and_eq_true, beq_iff_eq] at hfound
      exact ⟨hw.owns.of_same rfl, hw.linked.record hw.mem hitem (htask.trans hm.symm) hmem
        hfound.1 rfl d bucket key _, hw.mem, hw.own, hw.owner⟩
    | _ => exact hw

section Turns
variable {task : Task} {m : DeliveryResultMessage} {acc : ApplyState} {d : DeliveryResultItemSpec}
  {bucket : Text}

theorem turn_missing (h : d.status = "uploaded" ∨ d.status = "failed" →
      ItemRepo.select acc.db d.item_id (some m.task_id) (some task.owner_tenant_id) = none) :
    apply_item bucket task m acc d = { acc with missing_items := acc.missing_items ++ [d.item_id] } := by
  unfold apply_item
  split
  · rename_i hst
    simp only [ItemRepo.update_upload_status, h (.inl hst)]
  · split
    · rename_i hst
      simp only [ItemRepo.update_upload_status, h (.inr hst)]
    · rfl

theorem turn_failed (hst : d.status = "failed")
    (h : ItemRepo.select acc.db d.item_id (some m.task_id) (some task.owner_tenant_id) = some i) :
    apply_item bucket task m acc d =
      { acc with
        db := written acc.db d .failed (uploadError m d) none
        applied_items := acc.applied_items + 1 } := by
  simp [apply_item, hst, ItemRepo.update_upload_status, h, written]

/-- The loop's variables after an uploaded item whose receipt has been recorded, or not. -/
def afterRecord (acc : ApplyState) (d : DeliveryResultItemSpec)
    (r : Db × Option WorkspaceObjectWriteResult) : ApplyState where
  db := r.1
  applied_items := acc.applied_items + 1
  missing_items := acc.missing_items
  workspace_objects_created := acc.workspace_objects_created +
    (if r.2.any (·.created) then 1 else 0)
  workspace_mapping_missing := if r.2.isNone ∧ (d.key.filter (· ≠ [])).isSome
    then acc.workspace_mapping_missing ++ [d.item_id] else acc.workspace_mapping_missing

theorem turn_uploaded (hst : d.status = "uploaded")
    (h : ItemRepo.select acc.db d.item_id (some m.task_id) (some task.owner_tenant_id) = some i) :
    apply_item bucket task m acc d =
      afterRecord acc d (record_uploaded_item (written acc.db d .uploaded "" (some m.ended_at)) task
        (ItemRepo.setUpload .uploaded "" (some m.ended_at) i) d bucket (some m.ended_at)) := by
  simp only [apply_item, if_pos hst, ItemRepo.update_upload_status, h, afterRecord, written]
  split
  · rename_i hrec
    simp [hrec]
  · rename_i hrec
    simp [hrec]

end Turns

theorem apply_item_slice (h : Applies own tenant task acc.db) (hm : task.id = m.task_id) (bucket : Text)
    (d : DeliveryResultItemSpec) :
    apply_item bucket task m (sliceLoop own tenant acc) d =
      sliceLoop own tenant (apply_item bucket task m acc d) := by
  have hk : own m.task_id = true := hm ▸ h.own
  have hsel : ItemRepo.select (sliceLoop own tenant acc).db d.item_id (some m.task_id)
      (some task.owner_tenant_id) =
        ItemRepo.select acc.db d.item_id (some m.task_id) (some task.owner_tenant_id) := by
    rw [h.owner]
    exact select_slice h.owns h.linked hk d.item_id
  cases hi : ItemRepo.select acc.db d.item_id (some m.task_id) (some task.owner_tenant_id) with
  | none =>
    rw [turn_missing (fun _ => hsel.trans hi), turn_missing (fun _ => hi)]
    rfl
  | some i =>
    by_cases hup : d.status = "uploaded"
    · obtain ⟨hitem, htask⟩ := selected_written hi .uploaded "" (some m.ended_at)
      have hw := h.written d .uploaded "" (some m.ended_at)
      rw [turn_uploaded hup (hsel.trans hi), turn_uploaded hup hi]
      simp only [sliceLoop]
      rw [written_slice, record_slice hw.owns hw.linked h.own h.owner hitem (htask ▸ hk) rfl]
      rfl
    · by_cases hfail : d.status = "failed"
      · rw [turn_failed hfail (hsel.trans hi), turn_failed hfail hi]
        simp only [sliceLoop, written_slice]
      · have hno : ∀ s : Option TaskItem, d.status = "uploaded" ∨ d.status = "failed" → s = none :=
          fun _ hor => (hor.elim hup hfail).elim
        rw [turn_missing (hno _), turn_missing (hno _)]
        rfl

theorem loop_slice (acc : ApplyState) (h : Applies own tenant task acc.db) (hm : task.id = m.task_id)
    (bucket : Text) (ds : List DeliveryResultItemSpec) :
    ds.foldl (apply_item bucket task m) (sliceLoop own tenant acc) =
        sliceLoop own tenant (ds.foldl (apply_item bucket task m) acc) ∧
      Applies own tenant task (ds.foldl (apply_item bucket task m) acc).db := by
  induction ds generalizing acc with
  | nil => exact ⟨rfl, h⟩
  | cons d ds ih =>
    rw [List.foldl_cons, List.foldl_cons, apply_item_slice h hm]
    exact ih _ (item_applies h hm bucket d)

theorem finish_slice (h : Applies own tenant task acc.db) (hm : task.id = m.task_id) :
    finish_apply task m (sliceLoop own tenant acc) = slice own tenant (finish_apply task m acc) := by
  have hk : own m.task_id = true := hm ▸ h.own
  simp only [finish_apply, sliceLoop, h.owner, update_status_slice h.owns, append_slice hk]
  split <;> rfl

theorem update_status_keys (db : Db) (k : Nat) (st : TaskStatus) (ten : Option String)
    (c f : Option Time) : keys (TaskRepo.update_status db k st ten c f) = keys db := by
  unfold TaskRepo.update_status
  split
  · rfl
  · simp only [keys]
    congr 1
    exact Rows.update_map (fun x : Task => (x.id, x.owner_tenant_id)) (fun _ => rfl)

theorem update_status_owns (h : Owns own tenant db) (k : Nat) (st : TaskStatus) (ten : Option String)
    (c f : Option Time) : Owns own tenant (TaskRepo.update_status db k st ten c f) := by
  unfold TaskRepo.update_status
  split
  · exact h
  · exact h.of_update rfl (fun _ => rfl) (fun _ => rfl)

/-- A result of one of the tenant's tasks reads and writes the tenant's rows. -/
theorem apply_slice (ho : Owns own tenant db) (hl : Linked (keys db)) (hk : own m.task_id = true)
    (bucket : Text) : (apply_delivery_result bucket (slice own tenant db) m).1 =
      slice own tenant (apply_delivery_result bucket db m).1 := by
  have hget : TaskRepo.get (slice own tenant db) m.task_id none = TaskRepo.get db m.task_id none := by
    rw [get_any, if_pos hk]
  cases hg : TaskRepo.get db m.task_id none with
  | none => rw [apply_missing hg, apply_missing (hget.trans hg)]
  | some task =>
    have hfind := get_find hg
    have hm : task.id = m.task_id := Rows.find_key hfind
    have hown : own task.id = true := hm ▸ hk
    have happ : Applies own tenant task db :=
      ⟨ho, hl, Rows.find_mem hfind, hown, (ho task (Rows.find_mem hfind)).mp hown⟩
    simp only [apply_delivery_result, hget, hg]
    obtain ⟨hloop, hend⟩ := loop_slice ⟨db, 0, [], 0, []⟩ happ hm bucket m.items
    rw [← finish_slice hend hm]
    exact congrArg (finish_apply task m) hloop

/-- The tasks of a tenant. -/
def mine (tenant : String) (db : Db) (k : Nat) : Bool := ItemRepo.ownerAllows db (some tenant) k

theorem mine_iff : mine tenant db k = true ↔ ∃ x ∈ db.tasks, x.id = k ∧ x.owner_tenant_id = tenant := by
  simp only [mine, ItemRepo.ownerAllows, List.any_eq_true, Bool.and_eq_true, beq_iff_eq,
    eq_comm (a := tenant)]

/-- Owners decide which tasks are a tenant's. -/
theorem mine_keys (h : (keys a).tasks = (keys b).tasks) (tenant : String) : mine tenant a = mine tenant b := by
  have hmine : ∀ db : Db, mine tenant db = fun k => (keys db).tasks.any (fun x => x.1 == k && tenant == x.2) := by
    intro db
    funext k
    simp only [mine, ItemRepo.ownerAllows, keys, List.any_map, Function.comp_def]
  rw [hmine, hmine, h]

theorem Linked.owns (h : Linked (keys db)) (tenant : String) : Owns (mine tenant db) tenant db := by
  have hids : (db.tasks.map Task.id).Nodup := by
    simpa [keys, Function.comp_def] using h.task_ids
  intro x hx
  rw [mine_iff]
  constructor
  · rintro ⟨y, hy, hid, rfl⟩
    rw [List.inj_on_of_nodup_map hids hy hx hid]
  · intro howner
    exact ⟨x, hx, rfl, howner⟩

theorem finish_linked (h : Applies own tenant task acc.db) (hm : task.id = m.task_id) :
    Linked (keys (finish_apply task m acc)) := by
  have hk : m.task_id < acc.db.next_id := hm ▸ h.linked.tasks _ (List.mem_map_of_mem h.mem)
  have hst : Linked (keys (TaskRepo.update_status acc.db m.task_id (.ofString m.status)
      (some task.owner_tenant_id) none (some m.ended_at))) := by
    rw [update_status_keys]
    exact h.linked
  have hnext : acc.db.next_id = (TaskRepo.update_status acc.db m.task_id (.ofString m.status)
      (some task.owner_tenant_id) none (some m.ended_at)).next_id :=
    congrArg Keys.next_id (update_status_keys acc.db _ _ _ _ _).symm
  have hdone := hst.append (hnext ▸ hk) (.delivery_result_applied m.topic m.status m.uploaded m.failed
    m.processed acc.applied_items acc.missing_items acc.workspace_objects_created
    acc.workspace_mapping_missing)
  unfold finish_apply
  split
  · exact hdone
  · exact hdone.append (Nat.lt_succ_of_lt (hnext ▸ hk)) _

theorem apply_linked (hl : Linked (keys db)) (bucket : Text) (m : DeliveryResultMessage) :
    Linked (keys (apply_delivery_result bucket db m).1) := by
  cases hg : TaskRepo.get db m.task_id none with
  | none => rwa [apply_missing hg]
  | some task =>
    have hmem := Rows.find_mem (get_find hg)
    have hm : task.id = m.task_id := Rows.find_key (get_find hg)
    have ho := hl.owns task.owner_tenant_id
    have happ : Applies (mine task.owner_tenant_id db) task.owner_tenant_id task db :=
      ⟨ho, hl, hmem, (ho task hmem).mpr rfl, rfl⟩
    simp only [apply_delivery_result, hg]
    exact finish_linked (loop_slice ⟨db, 0, [], 0, []⟩ happ hm bucket m.items).2 hm

/-- What the tenant may see, whatever the next key and the time. -/
def see (own : Nat → Bool) (tenant : String) (db : Db) : Db :=
  { slice own tenant db with next_id := 0, now := 0 }

/-- Rows of a task that is none of the tenant's. -/
theorem append_hidden (hk : own k = false) (payload : EventPayload) :
    see own tenant (EventRepo.append db k payload) = see own tenant db := by
  simp [see, slice, EventRepo.append, hk]

theorem update_status_hidden (hk : own k = false) (st : TaskStatus) (ten : Option String)
    (c f : Option Time) : see own tenant (TaskRepo.update_status db k st ten c f) = see own tenant db := by
  unfold TaskRepo.update_status
  split
  · rfl
  · simp only [see, slice]
    congr 1
    refine update_hidden (p := fun x : Task => own x.id) (fun _ => rfl) (fun x _ hid => ?_)
    have hid : x.id = k := hid
    rw [hid]
    exact hk

theorem written_hidden (hl : Linked (keys db)) (hk : own k = false)
    (hs : ItemRepo.select db d.item_id (some k) ten = some i) (st : UploadStatus) (e : String)
    (fin : Option Time) : see own tenant (written db d st e fin) = see own tenant db := by
  obtain ⟨hfind, _⟩ := Option.filter_eq_some_iff.mp hs
  have htask := (selected_written hs st e fin).2
  simp only [see, slice, written]
  congr 1
  refine update_hidden (p := fun i : TaskItem => own i.task_id) ?_ (fun j hj hid => ?_)
  · exact fun _ => rfl
  · have : j = i := Rows.eq_of_key hl.item_nodup hj (Rows.find_mem hfind)
      (hid.trans (Rows.find_key hfind).symm)
    rw [this, htask]
    exact hk

theorem recorded_hidden (hown : own task.id = false) (howner : task.owner_tenant_id ≠ tenant)
    (item : TaskItem) (d : DeliveryResultItemSpec) (bucket key : Text) (ws : Workspace)
    (fin : Option Time) :
    see own tenant (recorded db task item d bucket key ws fin) = see own tenant db := by
  simp [see, slice, recorded, objectRow, physicalRow, hown, howner]

theorem item_hidden (h : Applies other owner task acc.db) (hm : task.id = m.task_id)
    (hown : own task.id = false) (howner : task.owner_tenant_id ≠ tenant) (bucket : Text)
    (d : DeliveryResultItemSpec) :
    see own tenant (apply_item bucket task m acc d).db = see own tenant acc.db := by
  have hk : own m.task_id = false := hm ▸ hown
  have hturn := apply_item_turn bucket task m acc d
  generalize apply_item bucket task m acc d = next at hturn ⊢
  cases hturn with
  | missing => rfl
  | failed i hst hsel => exact written_hidden h.linked hk hsel _ _ _
  | uploaded i db' result hst hsel hrec acc' hdb _ =>
    rw [hdb]
    have hw : see own tenant (written acc.db d .uploaded "" (some m.ended_at)) = see own tenant acc.db :=
      written_hidden h.linked hk hsel _ _ _
    cases hrec with
    | created key ws _ _ _ _ => exact (recorded_hidden hown howner _ _ _ _ _ _).trans hw
    | _ => exact hw

theorem loop_hidden (acc : ApplyState) (h : Applies other owner task acc.db) (hm : task.id = m.task_id)
    (hown : own task.id = false) (howner : task.owner_tenant_id ≠ tenant) (bucket : Text)
    (ds : List DeliveryResultItemSpec) :
    see own tenant (ds.foldl (apply_item bucket task m) acc).db = see own tenant acc.db := by
  induction ds generalizing acc with
  | nil => rfl
  | cons d ds ih =>
    rw [List.foldl_cons, ih _ (item_applies h hm bucket d)]
    exact item_hidden h hm hown howner bucket d

/-- A result of another tenant's task, or of none. -/
theorem apply_hidden (ho : Owns own tenant db) (hl : Linked (keys db))
    (hk : ∀ task, TaskRepo.get db m.task_id none = some task → task.owner_tenant_id ≠ tenant)
    (bucket : Text) : see own tenant (apply_delivery_result bucket db m).1 = see own tenant db := by
  cases hg : TaskRepo.get db m.task_id none with
  | none => rw [apply_missing hg]
  | some task =>
    have hmem := Rows.find_mem (get_find hg)
    have hm : task.id = m.task_id := Rows.find_key (get_find hg)
    have howner := hk task hg
    have hown : own task.id = false := by
      simpa using fun h => howner ((ho task hmem).mp h)
    have happ : Applies (mine task.owner_tenant_id db) task.owner_tenant_id task db :=
      ⟨hl.owns _, hl, hmem, (hl.owns _ task hmem).mpr rfl, rfl⟩
    simp only [apply_delivery_result, hg]
    rw [← loop_hidden ⟨db, 0, [], 0, []⟩ happ hm hown howner bucket m.items]
    generalize m.items.foldl (apply_item bucket task m) ⟨db, 0, [], 0, []⟩ = acc
    have hk' : own m.task_id = false := hm ▸ hown
    unfold finish_apply
    split <;> simp only [append_hidden hk', update_status_hidden hk']

end FileDelivery.Proofs.TenantResults
