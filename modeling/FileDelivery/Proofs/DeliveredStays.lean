import FileDelivery.Bridge.Replay
import FileDelivery.Proofs.Tables

namespace FileDelivery.Proofs.DeliveredStays
open FileDelivery.Library FileDelivery.Library.Runs FileDelivery.Control FileDelivery.Bridge
open FileDelivery.Proofs.ApplyResult FileDelivery.Proofs.Effects FileDelivery.Proofs.Tables

/-- The item with key `k` is uploaded. -/
def Uploaded (db : Db) (k : Nat) : Prop :=
  ∃ i, Rows.find? db.items k = some i ∧ i.upload_status = .uploaded

/-- The item with key `k` is uploaded, and the time of it is known. -/
def Delivered (db : Db) (k : Nat) : Prop :=
  ∃ i, Rows.find? db.items k = some i ∧ i.upload_status = .uploaded ∧ i.uploaded_at.isSome

/-- The result reports a failure for no item of its task that is uploaded. -/
def FailsNone (db : Db) (m : DeliveryResultMessage) : Prop :=
  ∀ d ∈ m.items, d.status = "failed" →
    ∀ i ∈ db.items, i.id = d.item_id → i.task_id = m.task_id → i.upload_status ≠ .uploaded

instance (db : Db) (m : DeliveryResultMessage) : Decidable (FailsNone db m) :=
  inferInstanceAs (Decidable (∀ d ∈ m.items, _))

/-- No stale failure is applied. -/
def NoStaleFailure (s : State) : Action → Prop
  | .apply pid => ∀ p ∈ s.results[pid]?, FailsNone s.db p.message
  | _ => True

instance (s : State) : (a : Action) → Decidable (NoStaleFailure s a)
  | .apply pid => inferInstanceAs (Decidable (∀ p ∈ s.results[pid]?, FailsNone s.db p.message))
  | .create _ _ _ _ | .classify _ _ _ | .read _ _ _ | .write _ | .uploadRead _ _ | .upload _ _
  | .worker _ | .cleanup _ | .workspace _ _ _ _ | .expire _ | .tick => .isTrue trivial

/-- A row on which delivery is recorded with its time. -/
def Timed (i : TaskItem) : Prop := i.upload_status = .uploaded → i.uploaded_at.isSome

theorem itemEffect_timed (h : Timed i) : Timed (itemEffect m i d) := by
  unfold itemEffect
  split
  · split
    · exact fun _ => rfl
    · split
      · exact fun hu => by simp at hu
      · exact h
  · exact h

theorem settle_timed (h : Timed i) : Timed (settle m i) := by
  unfold settle
  generalize m.items = ds
  induction ds generalizing i with
  | nil => exact h
  | cons d ds ih => exact ih (itemEffect_timed h)

theorem resetRow_timed (h : Timed i) : Timed (resetRow db r i) := by
  unfold resetRow
  split
  · exact fun hu => by simp at hu
  · exact h

/-- Every uploaded item carries the time of its delivery. -/
theorem effect_timed (hw : Wellformed cfg s.db) (he : Effect cfg s s' a)
    (h : ∀ i ∈ s.db.items, Timed i) : ∀ i ∈ s'.db.items, Timed i := by
  cases he with
  | quiet _ hi _ | created _ _ _ _ _ hi _ _ | confirmed _ _ _ _ hi _ | queued _ _ _ _ _ hi _ =>
    rwa [hi]
  | classified rows _ _ hpending _ hi _ _ =>
    rw [hi]
    intro i hmem
    rcases List.mem_append.mp hmem with hmem | hmem
    · exact h i hmem
    · intro hu
      simp [hpending i hmem] at hu
  | retried r _ _ _ _ hi _ =>
    rw [hi]
    intro i hmem
    obtain ⟨j, hj, rfl⟩ := List.mem_map.mp hmem
    exact resetRow_timed (h j hj)
  | applied p _ hdb =>
    rw [hdb]
    rcases apply_items_cases cfg.settings.s3_bucket_name hw.item_ids p.message with
      ⟨_, hsame⟩ | hitems
    · rwa [hsame]
    · rw [hitems]
      intro i hmem
      obtain ⟨j, hj, rfl⟩ := List.mem_map.mp hmem
      exact settle_timed (h j hj)

theorem reachable_timed (h : Run (step cfg) ok initial s) : ∀ i ∈ s.db.items, Timed i :=
  h.invariant_given (fun s => ∀ i ∈ s.db.items, Timed i) (fun s => Wellformed cfg s.db)
    (fun _ => reachable_wellformed) (by simp [initial])
    (fun _ _ _ hw hi _ hs => effect_timed hw (step_effect hs) hi)

/-- Entries none of which fails the row leave it uploaded. -/
theorem effects_uploaded (ds : List DeliveryResultItemSpec)
    (h : ∀ d ∈ ds, d.status = "failed" → i.id = d.item_id → i.task_id ≠ m.task_id)
    (hu : i.upload_status = .uploaded) : (ds.foldl (itemEffect m) i).upload_status = .uploaded := by
  induction ds generalizing i with
  | nil => exact hu
  | cons d ds ih =>
    rw [List.foldl_cons]
    obtain ⟨hid, htask, _⟩ := core_eq_fields (itemEffect_core (m := m) (i := i) (d := d))
    refine ih (fun e he hf => ?_) ?_
    · rw [hid, htask]
      exact h e (List.mem_cons_of_mem _ he) hf
    · have hd := h d List.mem_cons_self
      unfold itemEffect
      split
      · rename_i hmine
        split
        · rfl
        · split
          · rename_i hfail
            exact absurd hmine.2 (hd hfail hmine.1)
          · exact hu
      · exact hu

theorem settle_keeps (hf : FailsNone db m) (hi : i ∈ db.items) (hu : i.upload_status = .uploaded) :
    (settle m i).upload_status = .uploaded :=
  effects_uploaded m.items (fun d hd hfail hid htask => hf d hd hfail i hi hid htask hu) hu

/-- A retry resets failed rows only. -/
theorem resetRow_keeps (hu : i.upload_status = .uploaded) : resetRow db r i = i := by
  simp [resetRow, ItemRepo.resettable, hu]

/-- A step that applies no stale failure takes no delivery back. -/
theorem step_uploaded (hw : Wellformed cfg s.db) (hok : NoStaleFailure s a)
    (hs : step cfg s a = some s') (h : Uploaded s.db k) : Uploaded s'.db k := by
  obtain ⟨i, hfind, hu⟩ := h
  cases step_effect hs with
  | quiet _ hi _ | created _ _ _ _ _ hi _ _ | confirmed _ _ _ _ hi _ | queued _ _ _ _ _ hi _ =>
    exact ⟨i, hi ▸ hfind, hu⟩
  | classified rows _ _ _ _ hi _ _ => exact ⟨i, hi ▸ Rows.find_append hfind, hu⟩
  | retried r _ _ _ _ hi _ =>
    refine ⟨i, ?_, hu⟩
    rw [hi, Rows.find_map (fun x => (core_eq_fields (resetRow_core s.db r x)).1), hfind,
      Option.map_some, resetRow_keeps hu]
  | applied p hp hdb =>
    unfold Uploaded
    rw [hdb]
    rcases apply_items_cases cfg.settings.s3_bucket_name hw.item_ids p.message with
      ⟨_, hsame⟩ | hitems
    · rw [hsame]
      exact ⟨i, hfind, hu⟩
    · refine ⟨settle p.message i, ?_, settle_keeps (hok p hp) (Rows.find_mem hfind) hu⟩
      rw [hitems, Rows.find_map (fun x => (core_eq_fields (settle_core (m := p.message) (i := x))).1),
        hfind, Option.map_some]

/-- Where no stale failure is applied, what is uploaded stays delivered. -/
theorem uploaded_stays_delivered (before : Run (step cfg) NoStaleFailure initial s)
    (after : Run (step cfg) NoStaleFailure s s') (h : Uploaded s.db k) : Delivered s'.db k := by
  have hkept : Uploaded s'.db k :=
    after.invariant_given (fun s => Uploaded s.db k) (fun s => Wellformed cfg s.db)
      (fun _ ht => reachable_wellformed (before.trans ht)) h
      (fun _ _ _ hw hi hok hs => step_uploaded hw hok hs hi)
  obtain ⟨i, hfind, hu⟩ := hkept
  exact ⟨i, hfind, hu, reachable_timed (before.trans after) i (Rows.find_mem hfind) hu⟩

instance (db : Db) (k : Nat) : Decidable (Uploaded db k) :=
  decidable_of_iff ((Rows.find? db.items k).any (·.upload_status == .uploaded))
    (by simp [Uploaded, Option.any_eq_true])

/-- A task with one file, published once and run twice; the second run fails. -/
def twice : List Action :=
  Sample.confirmed 0 0 [("acme/a.txt", [1])] ++ Sample.upload 0 1 ++
    Sample.run 2 0 [none] ++ Sample.run 3 0 [some (.sink "timeout" false)]

/-- The failure comes first; the item is delivered by the other result, which comes
twice. -/
theorem uploaded_stays_delivered_run :
    ∃ s s' : State, Uploaded s.db 2 ∧ Delivered s'.db 2 := by
  obtain ⟨s, s', before, h, after, _⟩ := runs_of_replay NoStaleFailure
    (p := fun s => Uploaded s.db 2) (q := fun _ => True) Sample.cfg initial
    (twice ++ [.apply 1, .apply 0]) [.apply 0] (by decide +kernel)
  exact ⟨s, s', h, uploaded_stays_delivered before after h⟩

/-- The result of the run that delivered the item is applied, then the one of the run
that did not. -/
theorem late_failure_takes_delivery_back :
    ¬ ∀ (cfg : Config) (s s' : State) (k : Nat) (i : TaskItem),
      Run (step cfg) Free initial s → Run (step cfg) Free s s' → Uploaded s.db k →
      Rows.find? s'.db.items k = some i →
      i.upload_status ≠ .failed ∧ i.upload_status ≠ .pending ∧ i.uploaded_at.isSome := by
  intro h
  obtain ⟨s, s', before, hu, after, hf⟩ := runs_of_replay Free
    (p := fun s => Uploaded s.db 2)
    (q := fun s => (Rows.find? s.db.items 2).any (·.upload_status == .failed)) Sample.cfg initial
    (twice ++ [.apply 0]) [.apply 1] (by decide +kernel)
  obtain ⟨i, hi, hfailed⟩ := (Option.any_eq_true _ _).mp hf
  exact (h Sample.cfg s s' 2 i before after hu hi).1 (by simpa using hfailed)

end FileDelivery.Proofs.DeliveredStays
