import FileDelivery.Proofs.TenantUpload

namespace FileDelivery.Proofs.TenantHandlers
open FileDelivery.Library FileDelivery.Library.Fallible FileDelivery.Control FileDelivery.Bridge
open FileDelivery.Proofs.TenantSlice FileDelivery.Proofs.TenantResults FileDelivery.Proofs.TenantWorld
open FileDelivery.Proofs.TenantUpload

/-- Tables after writes to the rows of task `k`, its own one among them. -/
structure Touches (k : Nat) (a b : Db) : Prop where
  tasks : (keys b).tasks = (keys a).tasks
  linked : Linked (keys a) → k < a.next_id → Linked (keys b)
  dirs : ∀ x ∈ b.tasks, ∃ y ∈ a.tasks, y.id = x.id ∧ y.temp_dir = x.temp_dir
  later : a.next_id ≤ b.next_id
  now : b.now = a.now
  hidden : ∀ (own : Nat → Bool) (tenant : String), own k = false → see own tenant b = see own tenant a

variable {own : Nat → Bool} {tenant : String} {k : Nat} {a b c db : Db}

theorem Touches.refl (k : Nat) (a : Db) : Touches k a a :=
  ⟨rfl, fun h _ => h, fun x hx => ⟨x, hx, rfl, rfl⟩, Nat.le_refl _, rfl, fun _ _ _ => rfl⟩

theorem Touches.trans (hab : Touches k a b) (hbc : Touches k b c) : Touches k a c where
  tasks := hbc.tasks.trans hab.tasks
  linked := fun h hk => hbc.linked (hab.linked h hk) (hk.trans_le hab.later)
  dirs := by
    intro x hx
    obtain ⟨y, hy, hid, hdir⟩ := hbc.dirs x hx
    obtain ⟨z, hz, hzid, hzdir⟩ := hab.dirs y hy
    exact ⟨z, hz, hzid.trans hid, hzdir.trans hdir⟩
  later := hab.later.trans hbc.later
  now := hbc.now.trans hab.now
  hidden := fun own tenant hk => (hbc.hidden own tenant hk).trans (hab.hidden own tenant hk)

theorem Touches.append (h : Touches k a b) (payload : EventPayload) :
    Touches k a (EventRepo.append b k payload) :=
  h.trans ⟨rfl, fun hl hk => hl.append hk payload, fun x hx => ⟨x, hx, rfl, rfl⟩, Nat.le_succ _, rfl,
    fun _ _ hown => append_hidden hown payload⟩

/-- A write to columns of the task that say neither whose it is nor where its files are. -/
structure Steady (f : Task → Task) : Prop where
  id : ∀ x, (f x).id = x.id
  owner : ∀ x, (f x).owner_tenant_id = x.owner_tenant_id
  dir : ∀ x, (f x).temp_dir = x.temp_dir

theorem Touches.update (h : Touches k a b) {f : Task → Task} (hf : Steady f) :
    Touches k a { b with tasks := Rows.update b.tasks k f } := by
  refine h.trans ⟨?_, fun hl _ => ?_, fun x hx => ?_, Nat.le_refl _, rfl, fun own tenant hown => ?_⟩
  · exact Rows.update_map (fun x : Task => (x.id, x.owner_tenant_id)) (fun x => by rw [hf.id, hf.owner])
  · have hsame : keys { b with tasks := Rows.update b.tasks k f } = keys b := by
      simp only [keys]
      congr 1
      exact Rows.update_map (fun x : Task => (x.id, x.owner_tenant_id)) (fun x => by rw [hf.id, hf.owner])
    exact hsame.symm ▸ hl
  · obtain ⟨y, hy, he⟩ := Rows.mem_update.mp hx
    refine ⟨y, hy, ?_⟩
    split at he
    · exact he ▸ ⟨(hf.id y).symm, (hf.dir y).symm⟩
    · exact he ▸ ⟨rfl, rfl⟩
  · simp only [see, slice]
    congr 1
    refine update_hidden (p := fun x : Task => own x.id) (fun x => by rw [hf.id]) (fun x _ hid => ?_)
    exact (congrArg own hid).trans hown

theorem Touches.update_status (h : Touches k a b) (st : TaskStatus) (ten : Option String)
    (c f : Option Time) : Touches k a (TaskRepo.update_status b k st ten c f) := by
  unfold TaskRepo.update_status
  split
  · exact h
  · exact h.update ⟨fun _ => rfl, fun _ => rfl, fun _ => rfl⟩

theorem Touches.insert (h : Touches k a b) {rows : List TaskItem}
    (hids : rows.map TaskItem.id = List.range' b.next_id rows.length) (htask : ∀ i ∈ rows, i.task_id = k) :
    Touches k a { b with items := b.items ++ rows, next_id := b.next_id + rows.length } := by
  refine h.trans ⟨rfl, fun hl hk => hl.insert hk rows hids htask, fun x hx => ⟨x, hx, rfl, rfl⟩,
    Nat.le_add_right _ _, rfl, fun own tenant hown => ?_⟩
  have hnone : rows.filter (fun i => own i.task_id) = [] := by
    rw [List.filter_eq_nil_iff]
    intro i hi
    rw [htask i hi, hown]
    decide
  simp only [see, slice, List.filter_append, hnone, List.append_nil]

theorem Touches.reset (h : Touches k a b) (ten : Option String) :
    Touches k a (ItemRepo.batch_reset_failed b k ten).1 := by
  refine h.trans ⟨rfl, fun hl _ => ?_, fun x hx => ⟨x, hx, rfl, rfl⟩, Nat.le_refl _, rfl,
    fun own tenant hown => ?_⟩
  · have hsame : keys (ItemRepo.batch_reset_failed b k ten).1 = keys b := by
      simp only [keys, ItemRepo.batch_reset_failed, List.map_map]
      congr 1
      refine List.map_congr_left (fun i _ => ?_)
      simp only [Function.comp_apply]
      split <;> rfl
    exact hsame.symm ▸ hl
  · simp only [see, slice, ItemRepo.batch_reset_failed]
    congr 1
    rw [List.filter_map]
    -- The rows that stay in sight are of other tasks.
    have hsame : ∀ i ∈ b.items.filter (fun i => own i.task_id), ItemRepo.resettable b k ten i = false := by
      intro i hi
      have hin : own i.task_id = true := by simpa using List.of_mem_filter hi
      have hne : i.task_id ≠ k := by
        rintro rfl
        rw [hown] at hin
        cases hin
      simp [ItemRepo.resettable, hne]
    have hcolumn : ((fun i : TaskItem => own i.task_id) ∘ fun i =>
        if ItemRepo.resettable b k ten i = true then ItemRepo.setUpload .pending "" none i else i) =
          fun i => own i.task_id := by
      funext i
      simp only [Function.comp_apply]
      split <;> rfl
    rw [hcolumn]
    refine (List.map_congr_left (fun i hi => ?_)).trans (List.map_id _)
    simp [hsame i hi]

theorem confirm_touches (actor : CurrentActor) : Touches k db (Tasks.confirm_write db actor k) :=
  ((Touches.refl k db).update_status _ _ _ _).append _

theorem retry_touches (actor : CurrentActor) (read : Task) :
    Touches read.id db (Tasks.retry_write db actor read) := by
  have hreset := (Touches.refl read.id db).reset (some actor.tenant_id)
  simp only [Tasks.retry_write]
  split
  · have hsteady : Steady (Tasks.reopen read) := ⟨fun _ => rfl, fun _ => rfl, fun _ => rfl⟩
    exact (hreset.update hsteady).append _
  · exact hreset.append _

theorem classify_touches (h : Tasks.classify_task py profile dir db actor k = .ok db') :
    Touches k db db' := by
  obtain ⟨_, items, summary, inserted, _, _, _, hinsert, rfl⟩ := Effects.classify_spec h
  obtain ⟨rows, hids, htask, _, rfl⟩ := Effects.insert_spec hinsert (by simp [Tasks.itemRow])
  refine Touches.append (Touches.update_status (Touches.update ?_ ?_) _ _ _ _) _
  · exact (Touches.refl k db).insert hids htask
  · exact ⟨fun _ => rfl, fun _ => rfl, fun _ => rfl⟩

/-- Tables that are the world's again after such writes. -/
theorem Touches.sound (h : Touches k a b) (hs : Sound cfg n a) (hk : k < a.next_id) : Sound cfg n b := by
  refine ⟨h.linked hs.linked hk, fun x hx => ?_, hs.bound.trans h.later, h.now ▸ hs.clock⟩
  obtain ⟨y, hy, hid, hdir⟩ := h.dirs x hx
  rw [← hdir, ← hid]
  exact hs.dirs y hy

section Slices
variable {actor : CurrentActor}

theorem update_slice {f : Task → Task} (hid : ∀ x, (f x).id = x.id) :
    { slice own tenant db with tasks := Rows.update (slice own tenant db).tasks k f } =
      slice own tenant { db with tasks := Rows.update db.tasks k f } := by
  simp only [slice]
  congr 1
  exact (update_filter (p := fun x : Task => own x.id) (fun x => by rw [hid])).symm

theorem confirm_slice (h : Owns own actor.tenant_id db) (hk : own k = true) :
    Tasks.confirm_write (slice own actor.tenant_id db) actor k =
      slice own actor.tenant_id (Tasks.confirm_write db actor k) := by
  have hnow : (slice own actor.tenant_id db).now = db.now := rfl
  simp only [Tasks.confirm_write, hnow, update_status_slice h, append_slice hk]

theorem retry_slice (h : Owns own actor.tenant_id db) (read : Task) (hk : own read.id = true) :
    Tasks.retry_write (slice own actor.tenant_id db) actor read =
      slice own actor.tenant_id (Tasks.retry_write db actor read) := by
  have hreopen : ∀ x, (Tasks.reopen read x).id = x.id := fun _ => rfl
  simp only [Tasks.retry_write, reset_slice h]
  split
  · rw [update_slice hreopen, append_slice hk]
  · exact append_slice hk _

theorem classify_slice (h : Owns own actor.tenant_id db) (py : Python) (profile : ProfileConfig)
    (dir : TaskDir) : Tasks.classify_task py profile dir (slice own actor.tenant_id db) actor k =
      (Tasks.classify_task py profile dir db actor k).map (slice own actor.tenant_id) := by
  unfold Tasks.classify_task
  rw [read_slice h]
  cases hr : Tasks.readTask db actor k with
  | error e => rfl
  | ok task =>
    obtain ⟨hfind, howner⟩ := Flow.read_spec hr
    have hk : own k = true := Rows.find_key hfind ▸ (h task (Rows.find_mem hfind)).mpr howner
    simp only [Except.bind]
    split
    · rfl
    · split
      · rfl
      · rename_i items summary _
        rw [insert_slice hk]
        cases hi : ItemRepo.bulk_insert db k (items.map Tasks.itemRow) with
        | none => rfl
        | some inserted =>
          have hsummary : ∀ x, (Tasks.setSummary summary x).id = x.id := fun _ => rfl
          have htasks : inserted.tasks = db.tasks := by
            obtain ⟨rows, _, _, _, rfl⟩ := Effects.insert_spec hi (by simp [Tasks.itemRow])
            rfl
          have hown : Owns own actor.tenant_id
              { inserted with tasks := Rows.update inserted.tasks k (Tasks.setSummary summary) } :=
            h.of_update (congrArg (Rows.update · k _) htasks) hsummary (fun _ => rfl)
          simp only [Option.map_some, update_slice hsummary, update_status_slice hown, append_slice hk]
          rfl

end Slices

end FileDelivery.Proofs.TenantHandlers
