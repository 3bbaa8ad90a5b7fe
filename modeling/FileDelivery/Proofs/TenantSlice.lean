import FileDelivery.Control.TaskViews
import FileDelivery.Proofs.Tables

namespace FileDelivery.Proofs.TenantSlice
open FileDelivery.Library FileDelivery.Control

/-- A search that finds filtered rows only. -/
theorem find_passing {α : Type} {xs : List α} {p q : α → Bool} (h : ∀ a ∈ xs, q a = true → p a = true) :
    (xs.filter p).find? q = xs.find? q := by
  rw [← List.head?_filter, ← List.head?_filter, List.filter_filter]
  refine congrArg List.head? (List.filter_congr (fun a ha => ?_))
  cases hq : q a with
  | false => rfl
  | true => rw [h a ha hq, Bool.and_self]

theorem findSome_congr {α β : Type} {xs : List α} {f g : α → Option β} (h : ∀ a ∈ xs, f a = g a) :
    xs.findSome? f = xs.findSome? g := by
  induction xs with
  | nil => rfl
  | cons a xs ih =>
    obtain ⟨ha, hrest⟩ := List.forall_mem_cons.mp h
    rw [List.findSome?_cons, List.findSome?_cons, ha, ih hrest]

section Rows
variable {ρ : Type} [Rows.Row ρ] {rows : List ρ} {own : Nat → Bool} {p : ρ → Bool} {f : ρ → ρ}

theorem find_filter (k : Nat) : Rows.find? (rows.filter (fun r => own (Rows.Row.key r))) k =
    if own k then Rows.find? rows k else none := by
  rw [Rows.find?, List.find?_filter]
  split
  · rename_i hk
    refine congrArg (rows.find? ·) (funext fun r => ?_)
    by_cases hr : Rows.Row.key r = k
    · simp [hr, hk]
    · simp [hr]
  · rename_i hk
    rw [List.find?_eq_none]
    intro r _ hr
    simp only [beq_iff_eq, decide_eq_true_eq] at hr
    exact hk (hr.2 ▸ hr.1)

/-- A lookup that passes filtered rows only. -/
theorem find_filter_unique {q : ρ → Bool} (hn : (rows.map Rows.Row.key).Nodup)
    (hq : ∀ r, q r = true → p r = true) :
    (Rows.find? (rows.filter p) k).filter q = (Rows.find? rows k).filter q := by
  have hsub : ((rows.filter p).map Rows.Row.key).Nodup := hn.sublist (List.filter_sublist.map _)
  refine Option.ext (fun r => ?_)
  simp only [Option.filter_eq_some_iff, Rows.find_iff hsub, Rows.find_iff hn, List.mem_filter]
  constructor
  · rintro ⟨⟨⟨hr, _⟩, hk⟩, hpass⟩
    exact ⟨⟨hr, hk⟩, hpass⟩
  · rintro ⟨⟨hr, hk⟩, hpass⟩
    exact ⟨⟨⟨hr, hq r hpass⟩, hk⟩, hpass⟩

/-- A write that keeps the filtered column. -/
theorem update_filter (hp : ∀ r, p (f r) = p r) :
    (Rows.update rows k f).filter p = Rows.update (rows.filter p) k f := by
  rw [Rows.update, Rows.update, List.filter_map]
  refine congrArg (List.map _ ·) (List.filter_congr (fun r _ => ?_))
  simp only [Function.comp_apply]
  split
  · exact hp r
  · rfl

/-- A write to rows that the filter drops. -/
theorem update_hidden (hp : ∀ r, p (f r) = p r) (hk : ∀ r ∈ rows, Rows.Row.key r = k → p r = false) :
    (Rows.update rows k f).filter p = rows.filter p := by
  rw [update_filter hp, Rows.update_eq_iff]
  intro r hr hkey
  have hdrop := hk r (List.mem_of_mem_filter hr) hkey
  rw [List.of_mem_filter hr] at hdrop
  cases hdrop

end Rows

/-- The rows of the tasks in `own`, and what else the tenant owns. -/
def slice (own : Nat → Bool) (tenant : String) (db : Db) : Db where
  tasks := db.tasks.filter (fun x => own x.id)
  items := db.items.filter (fun i => own i.task_id)
  events := db.events.filter (fun e => own e.task_id)
  workspaces := db.workspaces.filter (fun w => w.owner_tenant_id == tenant)
  physical_objects := db.physical_objects.filter (fun p => p.owner_tenant_id == tenant)
  workspace_objects := db.workspace_objects.filter (fun o => own o.task_id)
  next_id := db.next_id
  now := db.now

/-- `own` picks out the tenant's tasks. -/
def Owns (own : Nat → Bool) (tenant : String) (db : Db) : Prop :=
  ∀ x ∈ db.tasks, own x.id = true ↔ x.owner_tenant_id = tenant

variable {own : Nat → Bool} {tenant : String} {db : Db}

theorem Owns.of_update {f : Task → Task} (h : Owns own tenant a)
    (ht : b.tasks = Rows.update a.tasks k f) (hid : ∀ x, (f x).id = x.id)
    (howner : ∀ x, (f x).owner_tenant_id = x.owner_tenant_id) : Owns own tenant b := by
  intro x hx
  rw [ht] at hx
  obtain ⟨y, hy, he⟩ := Rows.mem_update.mp hx
  split at he
  · rw [← he, hid, howner]
    exact h y hy
  · exact he ▸ h y hy

theorem Owns.of_same (h : Owns own tenant a) (ht : b.tasks = a.tasks) : Owns own tenant b := by
  unfold Owns
  rwa [ht]

theorem Owns.slice (h : Owns own tenant db) : Owns own tenant (slice own tenant db) :=
  fun x hx => h x (List.mem_of_mem_filter hx)

theorem find_own (k : Nat) : Rows.find? (slice own tenant db).tasks k =
    if own k then Rows.find? db.tasks k else none := find_filter k

theorem get_any (k : Nat) : TaskRepo.get (slice own tenant db) k none =
    if own k then TaskRepo.get db k none else none := by
  rw [TaskRepo.get, find_own]
  split <;> rfl

/-- A task of another tenant is not found, in the slice or beside it. -/
theorem get_slice (h : Owns own tenant db) (k : Nat) :
    TaskRepo.get (slice own tenant db) k (some tenant) = TaskRepo.get db k (some tenant) := by
  rw [TaskRepo.get, TaskRepo.get, find_own]
  split
  · rfl
  · rename_i hk
    cases hf : Rows.find? db.tasks k with
    | none => rfl
    | some x =>
      have howner : x.owner_tenant_id ≠ tenant := by
        intro ho
        have hid : x.id = k := Rows.find_key hf
        exact hk (hid ▸ (h x (Rows.find_mem hf)).mpr ho)
      have hno : tenantAllows (some tenant) x.owner_tenant_id = false := by
        simpa [tenantAllows] using Ne.symm howner
      rw [Option.filter_some, hno]
      rfl

theorem key_slice (h : Owns own tenant db) (key : String) :
    TaskRepo.get_by_idempotency_key (slice own tenant db) key (some tenant) =
      TaskRepo.get_by_idempotency_key db key (some tenant) := by
  refine find_passing (fun x hx hfound => (h x hx).mpr ?_)
  simp only [tenantAllows, Bool.and_eq_true, beq_iff_eq] at hfound
  exact hfound.2.symm

theorem update_status_slice (h : Owns own tenant db) (k : Nat) (st : TaskStatus) (c f : Option Time) :
    TaskRepo.update_status (slice own tenant db) k st (some tenant) c f =
      slice own tenant (TaskRepo.update_status db k st (some tenant) c f) := by
  simp only [TaskRepo.update_status, get_slice h]
  split
  · rfl
  · simp only [slice]
    congr 1
    refine (update_filter (p := fun x : Task => own x.id) ?_).symm
    exact fun _ => rfl

theorem append_slice (hk : own k = true) (payload : EventPayload) :
    EventRepo.append (slice own tenant db) k payload = slice own tenant (EventRepo.append db k payload) := by
  simp [EventRepo.append, slice, hk]

theorem owner_slice (h : Owns own tenant db) (k : Nat) :
    ItemRepo.ownerAllows (slice own tenant db) (some tenant) k =
      ItemRepo.ownerAllows db (some tenant) k := by
  simp only [ItemRepo.ownerAllows, slice, List.any_filter]
  refine Bool.eq_iff_iff.mpr ?_
  simp only [List.any_eq_true, Bool.and_eq_true, beq_iff_eq]
  refine exists_congr (fun x => and_congr_right (fun hx => ?_))
  have := h x hx
  grind

/-- The owner's filter passes its own tasks only. -/
theorem owner_own (h : Owns own tenant db) (hk : ItemRepo.ownerAllows db (some tenant) k = true) :
    own k = true := by
  simp only [ItemRepo.ownerAllows, List.any_eq_true, Bool.and_eq_true, beq_iff_eq] at hk
  obtain ⟨x, hx, rfl, ho⟩ := hk
  exact (h x hx).mpr ho.symm

theorem list_slice (h : Owns own tenant db) (k : Nat) :
    ItemRepo.list_by_task (slice own tenant db) k (some tenant) =
      ItemRepo.list_by_task db k (some tenant) := by
  simp only [ItemRepo.list_by_task, owner_slice h]
  refine congrArg (List.insertionSort ItemRepo.rowOrder) ?_
  simp only [slice, List.filter_filter]
  refine List.filter_congr (fun i _ => ?_)
  have := owner_own (k := k) h
  grind

theorem insert_slice (hk : own k = true) (items : List TaskItem) :
    ItemRepo.bulk_insert (slice own tenant db) k items =
      (ItemRepo.bulk_insert db k items).map (slice own tenant) := by
  have hpaths : (db.items.filter (fun i => own i.task_id)).filter (fun i => i.task_id == k) =
      db.items.filter (fun i => i.task_id == k) := by
    rw [List.filter_filter]
    refine List.filter_congr (fun i _ => ?_)
    grind
  have hrows : ((ItemRepo.assignIds db.next_id items).map (fun i => { i with task_id := k })).filter
      (fun i => own i.task_id) =
        (ItemRepo.assignIds db.next_id items).map (fun i => { i with task_id := k }) := by
    rw [List.filter_eq_self]
    intro i hi
    obtain ⟨_, _, rfl⟩ := List.mem_map.mp hi
    exact hk
  simp only [ItemRepo.bulk_insert, slice, hpaths]
  split
  · simp only [Option.map_some, slice, List.filter_append, hrows]
  · rfl

theorem reset_slice (h : Owns own tenant db) (k : Nat) :
    ItemRepo.batch_reset_failed (slice own tenant db) k (some tenant) =
      (slice own tenant (ItemRepo.batch_reset_failed db k (some tenant)).1,
        (ItemRepo.batch_reset_failed db k (some tenant)).2) := by
  have hsame : ItemRepo.resettable (slice own tenant db) k (some tenant) =
      ItemRepo.resettable db k (some tenant) := by
    funext i
    simp only [ItemRepo.resettable, owner_slice h]
  have hown : ∀ i, ItemRepo.resettable db k (some tenant) i = true → own i.task_id = true := by
    intro i hi
    simp only [ItemRepo.resettable, Bool.and_eq_true, beq_iff_eq] at hi
    exact hi.1.1 ▸ owner_own h hi.2
  simp only [ItemRepo.batch_reset_failed, hsame]
  simp only [slice, Prod.mk.injEq, Db.mk.injEq, true_and, and_true]
  refine ⟨?_, ?_⟩
  · rw [List.filter_map]
    refine congrArg (List.map _) (List.filter_congr (fun i _ => ?_))
    simp only [Function.comp_apply]
    split <;> rfl
  · rw [List.filter_filter]
    refine congrArg List.length (List.filter_congr (fun i _ => ?_))
    have := hown i
    grind

theorem read_slice (h : Owns own actor.tenant_id db) (k : Nat) :
    Tasks.readTask (slice own actor.tenant_id db) actor k = Tasks.readTask db actor k := by
  simp only [Tasks.readTask, get_slice h]

theorem find_slice (h : Owns own actor.tenant_id db) (k : Nat) :
    Tasks.findTask (slice own actor.tenant_id db) actor k = Tasks.findTask db actor k := by
  simp only [Tasks.findTask, get_slice h]

end FileDelivery.Proofs.TenantSlice
