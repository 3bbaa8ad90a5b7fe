import FileDelivery.Proofs.ApplyResult

namespace FileDelivery.Proofs.ApplyLoop
open FileDelivery.Library FileDelivery.Control FileDelivery.Control.WorkspaceRepo
open FileDelivery.Proofs.ApplyResult

/-- What an entry writes to a row, unless its status is unknown. -/
def setting (m : DeliveryResultMessage) (d : DeliveryResultItemSpec) : Option (TaskItem → TaskItem) :=
  if d.status = "uploaded" then some (ItemRepo.setUpload .uploaded "" (some m.ended_at))
  else if d.status = "failed" then some (ItemRepo.setUpload .failed (uploadError m d) none)
  else none

/-- The row that an entry names, as the task's owner sees it. -/
def named (db : Db) (task : Task) (m : DeliveryResultMessage) (d : DeliveryResultItemSpec) :
    Option TaskItem :=
  ItemRepo.select db d.item_id (some m.task_id) (some task.owner_tenant_id)

/-- The loop counts the entry as applied. -/
def accepts (db : Db) (task : Task) (m : DeliveryResultMessage) (d : DeliveryResultItemSpec) : Bool :=
  (setting m d).isSome && (named db task m d).isSome

variable {bucket : Text} {task : Task} {m : DeliveryResultMessage} {acc acc' : ApplyState}

theorem setting_form (h : setting m d = some f) : ∃ st e fin, f = ItemRepo.setUpload st e fin := by
  unfold setting at h
  split at h
  · exact ⟨_, _, _, (Option.some.inj h).symm⟩
  · split at h
    · exact ⟨_, _, _, (Option.some.inj h).symm⟩
    · cases h

theorem setting_core (h : setting m d = some f) (i : TaskItem) : (f i).core = i.core := by
  obtain ⟨st, e, fin, rfl⟩ := setting_form h
  rfl

theorem record_items (db : Db) (task : Task) (item : TaskItem) (d : DeliveryResultItemSpec)
    (bucket : Text) (fin : Option Time) :
    (record_uploaded_item db task item d bucket fin).1.items = db.items :=
  (recorded_frame (record_recorded (Prod.mk.eta (p := record_uploaded_item db task item d bucket fin)).symm)).2

/-- One turn of the loop, as far as items and counters go. -/
theorem turn_counts (bucket : Text) (task : Task) (m : DeliveryResultMessage) (acc : ApplyState)
    (d : DeliveryResultItemSpec) :
    (accepts acc.db task m d = false ∧ apply_item bucket task m acc d =
        { acc with missing_items := acc.missing_items ++ [d.item_id] }) ∨
      (accepts acc.db task m d = true ∧ ∃ f, setting m d = some f ∧
        (apply_item bucket task m acc d).applied_items = acc.applied_items + 1 ∧
        (apply_item bucket task m acc d).missing_items = acc.missing_items ∧
        (apply_item bucket task m acc d).db.items = Rows.update acc.db.items d.item_id f) := by
  by_cases hup : d.status = "uploaded"
  · simp only [accepts, named, setting, apply_item, if_pos hup, ItemRepo.update_upload_status]
    cases hsel : ItemRepo.select acc.db d.item_id (some m.task_id) (some task.owner_tenant_id) with
    | none => exact .inl ⟨rfl, rfl⟩
    | some i =>
      refine .inr ⟨rfl, _, rfl, ?_⟩
      have hitems := record_items (written acc.db d .uploaded "" (some m.ended_at)) task
        (ItemRepo.setUpload .uploaded "" (some m.ended_at) i) d bucket (some m.ended_at)
      simp only
      split
      all_goals
        rename_i hrec
        refine ⟨rfl, rfl, ?_⟩
        simpa only [written, hrec] using hitems
  · by_cases hfail : d.status = "failed"
    · simp only [accepts, named, setting, apply_item, if_neg hup, if_pos hfail,
        ItemRepo.update_upload_status]
      cases hsel : ItemRepo.select acc.db d.item_id (some m.task_id) (some task.owner_tenant_id) with
      | none => exact .inl ⟨rfl, rfl⟩
      | some i => exact .inr ⟨rfl, _, rfl, rfl, rfl, rfl⟩
    · left
      simp [accepts, setting, apply_item, hup, hfail]

/-- What the tables keep while results are applied: a task's owner, the columns of an
item that the classifier fixed, and the objects that were there. -/
structure Grown (a b : Db) : Prop where
  owners : ∀ ten t, ItemRepo.ownerAllows b ten t = ItemRepo.ownerAllows a ten t
  workspaces : b.workspaces = a.workspaces
  cores : b.items.map TaskItem.core = a.items.map TaskItem.core
  objects : ∀ k, get_object_by_task_item a k ≠ none → get_object_by_task_item b k ≠ none

theorem Grown.refl (a : Db) : Grown a a := ⟨fun _ _ => rfl, rfl, rfl, fun _ h => h⟩

theorem Grown.trans (h : Grown a b) (h' : Grown b c) : Grown a c :=
  ⟨fun ten t => (h'.owners ten t).trans (h.owners ten t), h'.workspaces.trans h.workspaces,
    h'.cores.trans h.cores, fun k hk => h'.objects k (h.objects k hk)⟩

theorem object_iff : get_object_by_task_item db k ≠ none ↔ ∃ w ∈ db.workspace_objects,
    w.task_item_id = k ∧ (Rows.find? db.physical_objects w.physical_object_id).isSome ∧
      (db.workspaces.find? (·.id == w.workspace_id)).isSome := by
  unfold get_object_by_task_item
  rw [Option.ne_none_iff_isSome, List.findSome?_isSome_iff]
  constructor
  · rintro ⟨w, hw, hfound⟩
    obtain ⟨hmem, hk⟩ := List.mem_filter.mp hw
    refine ⟨w, hmem, by simpa using hk, ?_⟩
    cases hp : Rows.find? db.physical_objects w.physical_object_id with
    | none => simp [hp] at hfound
    | some p => simpa [hp] using hfound
  · rintro ⟨w, hmem, hk, hp, hws⟩
    obtain ⟨p, hp⟩ := Option.isSome_iff_exists.mp hp
    refine ⟨w, List.mem_filter.mpr ⟨hmem, by simpa using hk⟩, ?_⟩
    simpa [hp] using hws

/-- Writes to items keep what a row is. -/
theorem written_grown (db : Db) (d : DeliveryResultItemSpec) (st : UploadStatus) (e : String)
    (fin : Option Time) : Grown db (written db d st e fin) :=
  ⟨fun _ _ => rfl, rfl, Rows.update_map TaskItem.core (fun _ => rfl), fun _ h => h⟩

theorem physical_found (db : Db) (p : PhysicalObject) :
    (Rows.find? (db.physical_objects ++ [p]) p.id).isSome := by
  rw [Rows.find?, List.find?_isSome]
  exact ⟨p, by simp, beq_self_eq_true _⟩

/-- A new pair of rows is found by its item, and hides no other. -/
theorem recorded_object (hws : get_workspace_by_target_key db owner target = some ws) :
    get_object_by_task_item (recorded db task item d bucket key ws fin) item.id ≠ none := by
  refine object_iff.mpr ⟨objectRow db task item ws key fin, List.mem_append_right _ (by simp), rfl,
    physical_found db (physicalRow db task item d bucket key), ?_⟩
  rw [List.find?_isSome]
  exact ⟨ws, List.mem_of_find?_eq_some hws, beq_self_eq_true _⟩

theorem recorded_grown (h : Recorded db task item d bucket fin db' result) : Grown db db' := by
  cases h with
  | created key ws hk hne hnew hws =>
    refine ⟨fun _ _ => rfl, rfl, rfl, fun k hobj => ?_⟩
    obtain ⟨w, hw, hk, hp, hs⟩ := object_iff.mp hobj
    obtain ⟨p, hp⟩ := Option.isSome_iff_exists.mp hp
    refine object_iff.mpr ⟨w, List.mem_append_left _ hw, hk, ?_, hs⟩
    exact Option.isSome_iff_exists.mpr ⟨p, Rows.find_append hp⟩
  | _ => exact .refl db

theorem turn_grown (bucket : Text) (task : Task) (m : DeliveryResultMessage) (acc : ApplyState)
    (d : DeliveryResultItemSpec) : Grown acc.db (apply_item bucket task m acc d).db := by
  have hturn := apply_item_turn bucket task m acc d
  generalize apply_item bucket task m acc d = next at hturn ⊢
  cases hturn with
  | missing => exact .refl _
  | uploaded i db' result hst hsel hrec acc' hdb _ =>
    exact hdb ▸ (written_grown acc.db d _ _ _).trans (recorded_grown hrec)
  | failed => exact written_grown acc.db d _ _ _

theorem loop_grown (bucket : Text) (task : Task) (m : DeliveryResultMessage) (acc : ApplyState)
    (ds : List DeliveryResultItemSpec) : Grown acc.db (ds.foldl (apply_item bucket task m) acc).db := by
  induction ds generalizing acc with
  | nil => exact .refl _
  | cons d ds ih => exact (turn_grown bucket task m acc d).trans (ih _)

theorem find_core (rows : List TaskItem) (k : Nat) :
    (Rows.find? rows k).map TaskItem.core = Rows.find? (rows.map TaskItem.core) k :=
  (Rows.find_map (f := TaskItem.core) (fun _ => rfl)).symm

/-- A query for an item finds the same row later, up to its upload columns. -/
theorem Grown.named (h : Grown a b) :
    (named b task m d).map TaskItem.core = (named a task m d).map TaskItem.core := by
  have hfind : (Rows.find? b.items d.item_id).map TaskItem.core =
      (Rows.find? a.items d.item_id).map TaskItem.core := by
    rw [find_core, find_core, h.cores]
  have hselect : ∀ db : Db, (ApplyLoop.named db task m d).map TaskItem.core =
      ((Rows.find? db.items d.item_id).map TaskItem.core).filter (fun i =>
        m.task_id == i.task_id && ItemRepo.ownerAllows db (some task.owner_tenant_id) i.task_id) := by
    intro db
    simp only [ApplyLoop.named, ItemRepo.select]
    cases Rows.find? db.items d.item_id with
    | none => rfl
    | some i => simp [Option.filter, apply_ite (Option.map TaskItem.core)]
  rw [hselect, hselect, hfind]
  simp only [h.owners]

theorem Grown.accepts (h : Grown a b) : accepts b task m d = accepts a task m d := by
  have hcore : (ApplyLoop.named b task m d).map TaskItem.core =
      (ApplyLoop.named a task m d).map TaskItem.core := h.named
  have := congrArg Option.isSome hcore
  simp only [Option.isSome_map] at this
  simp only [ApplyLoop.accepts, this]

/-- The counters of the loop: what is accepted at the start is accepted in its turn. -/
theorem loop_counts (bucket : Text) (task : Task) (m : DeliveryResultMessage) (acc : ApplyState)
    (ds : List DeliveryResultItemSpec) :
    (ds.foldl (apply_item bucket task m) acc).applied_items =
        acc.applied_items + ds.countP (accepts acc.db task m) ∧
      (ds.foldl (apply_item bucket task m) acc).missing_items =
        acc.missing_items ++ (ds.filter (fun d => !accepts acc.db task m d)).map (·.item_id) := by
  induction ds generalizing acc with
  | nil => simp
  | cons d ds ih =>
    obtain ⟨happlied, hmissing⟩ := ih (apply_item bucket task m acc d)
    have hsame : ∀ e, ApplyLoop.accepts (apply_item bucket task m acc d).db task m e =
        ApplyLoop.accepts acc.db task m e := fun e => (turn_grown bucket task m acc d).accepts
    simp only [hsame, funext hsame] at happlied hmissing
    rw [List.foldl_cons, happlied, hmissing]
    rcases turn_counts bucket task m acc d with ⟨hno, he⟩ | ⟨hyes, f, _, ha, hm, _⟩
    · simp [he, hno]
    · rw [ha, hm]
      simp [hyes]
      omega

end FileDelivery.Proofs.ApplyLoop
