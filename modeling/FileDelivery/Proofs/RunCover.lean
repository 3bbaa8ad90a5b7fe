import FileDelivery.Proofs.Recovery
import FileDelivery.Proofs.RunMoves

namespace FileDelivery.Proofs.RunCover
open FileDelivery.Library FileDelivery.Control FileDelivery.Control.TaskRunner FileDelivery.Bridge
open FileDelivery.Proofs.ApplyResult FileDelivery.Proofs.Effects FileDelivery.Proofs.Tables
open FileDelivery.Proofs.Recovery FileDelivery.Proofs.RunMoves

variable {db db' : Db} {items items' : List TaskItem} {t : Task} {run r : TaskRun}
  {runs : List TaskRun} {rid k : Nat}

/-- The run has committed `uploading` and no final status, or items of it are still running. -/
def Engaged (run : TaskRun) : Prop :=
  run.phase = .uploading ∨ ∃ i ∈ run.items, i.stage.over = false

instance (run : TaskRun) : Decidable (Engaged run) := inferInstanceAs (Decidable (_ ∨ _))

/-- A retry has something to reset, or nothing is left to deliver. -/
def Redoable (items : List TaskItem) (t : Nat) : Prop :=
  (∃ i ∈ items, i.task_id = t ∧ i.deliverable = true ∧ i.upload_status = .failed) ∨
    ∀ i ∈ items, i.task_id = t → i.deliverable = true → i.upload_status = .uploaded

instance (items : List TaskItem) (t : Nat) : Decidable (Redoable items t) :=
  inferInstanceAs (Decidable (_ ∨ _))

/-- What a run has committed by the stage it is at. -/
structure Consistent (run : TaskRun) : Prop where
  fresh : run.phase = .fresh → run.items = []
  stage : match run.stage with
    | .starting | .checked => run.phase = .fresh
    | .started | .idle _ | .planned _ => run.phase = .uploading ∧ run.items = []
    | .working => run.phase = .uploading ∧ run.items ≠ []
    | .finished => run.phase = .final
    | .ended => run.phase ≠ .uploading
    | .failing _ => True

/-- The pending items of a task, as a run lists them. -/
structure Planned (db : Db) (t : Nat) (items : List TaskItem) : Prop where
  some : items ≠ []
  ids : (items.map TaskItem.id).Nodup
  rows : ∀ i, i ∈ items ↔
    i ∈ db.items ∧ i.task_id = t ∧ i.deliverable = true ∧ i.upload_status = .pending

/-- What an engaged run knows of its task. -/
structure Active (db : Db) (run : TaskRun) : Prop where
  status : ∀ t ∈ db.tasks, t.id = run.task_id →
    t.status = .failed ∨ t.status = if run.phase = .uploading then .uploading else .partial_failed
  ids : (run.items.map (·.item.id)).Nodup
  shown : ∀ i ∈ run.items, ∃ row ∈ db.items, row.id = i.item.id ∧ row.task_id = run.task_id ∧
    row.deliverable = true ∧ Shows i.stage row.upload_status
  others : ∀ i ∈ db.items, i.task_id = run.task_id → i.deliverable = true →
    i.id ∉ run.items.map (·.item.id) →
      i.upload_status = .uploaded ∨ run.items = [] ∧ i.upload_status = .pending
  listed : match run.stage with
    | .idle _ => ∀ i ∈ db.items, i.task_id = run.task_id → i.deliverable = true →
        i.upload_status = .uploaded
    | .planned items => Planned db run.task_id items
    | _ => True

/-- A task that no run is engaged with. -/
structure AtRest (items : List TaskItem) (t : Task) : Prop where
  each : ∀ i ∈ items, i.task_id = t.id → i.deliverable = true → Decided i
  status : ((t.status = .draft ∨ t.status = .classified ∨ t.status = .confirmed) ∧
      ∀ i ∈ items, i.task_id = t.id → i.deliverable = true → i.upload_status ≠ .failed) ∨
    (t.status = .uploaded ∧
      ∀ i ∈ items, i.task_id = t.id → i.deliverable = true → i.upload_status = .uploaded) ∨
    (t.status = .failed ∨ t.status = .partial_failed) ∧ Redoable items t.id

/-- Every task is at rest or has one engaged run. -/
structure Covered (db : Db) (runs : List TaskRun) : Prop where
  consistent : ∀ run ∈ runs, Consistent run
  alone : ∀ run ∈ runs, Engaged run → ∀ q ∈ runs, Engaged q → q.task_id = run.task_id → q = run
  active : ∀ run ∈ runs, Engaged run → Active db run
  rest : ∀ t ∈ db.tasks, (∀ run ∈ runs, Engaged run → run.task_id ≠ t.id) → AtRest db.items t

/-- The two databases differ at most in one task and its items. -/
structure Outside (k : Nat) (db db' : Db) : Prop where
  tasks : ∀ t ∈ db'.tasks, t.id ≠ k → t ∈ db.tasks
  items : ∀ i, i.task_id ≠ k → (i ∈ db'.items ↔ i ∈ db.items)

theorem Outside.refl (k : Nat) (db : Db) : Outside k db db := ⟨fun _ h _ => h, fun _ _ => .rfl⟩

theorem AtRest.frame (h : AtRest items t) (hi : ∀ i, i.task_id = t.id → (i ∈ items' ↔ i ∈ items)) :
    AtRest items' t := by
  have all : ∀ p : TaskItem → Prop, (∀ i ∈ items, i.task_id = t.id → i.deliverable = true → p i) →
      ∀ i ∈ items', i.task_id = t.id → i.deliverable = true → p i :=
    fun _ h i hmem ht => h i ((hi i ht).mp hmem) ht
  refine ⟨all _ h.each, ?_⟩
  rcases h.status with ⟨hst, hnone⟩ | ⟨hst, hup⟩ | ⟨hst, ⟨i, hmem, ht, hrest⟩ | hup⟩
  · exact .inl ⟨hst, all _ hnone⟩
  · exact .inr (.inl ⟨hst, all _ hup⟩)
  · exact .inr (.inr ⟨hst, .inl ⟨i, (hi i ht).mpr hmem, ht, hrest⟩⟩)
  · exact .inr (.inr ⟨hst, .inr (all _ hup)⟩)

/-- Before its upload a task has no failed item. -/
theorem AtRest.none_failed (h : AtRest items t)
    (hst : t.status = .draft ∨ t.status = .classified ∨ t.status = .confirmed) :
    ∀ i ∈ items, i.task_id = t.id → i.deliverable = true → i.upload_status ≠ .failed := by
  rcases h.status with ⟨_, hall⟩ | ⟨hbad, _⟩ | ⟨hbad, _⟩
  · exact hall
  · rcases hst with hst | hst | hst <;> simp [hst] at hbad
  · rcases hst with hst | hst | hst <;> simp [hst] at hbad

theorem Planned.frame (h : Planned db k items)
    (hi : ∀ i, i.task_id = k → (i ∈ db'.items ↔ i ∈ db.items)) : Planned db' k items := by
  refine ⟨h.some, h.ids, fun i => (h.rows i).trans ?_⟩
  refine and_congr_left (fun ⟨ht, _⟩ => (hi i ht).symm)

theorem Active.frame (h : Active db run)
    (hst : ∀ t ∈ db'.tasks, t.id = run.task_id →
      t.status = .failed ∨ t.status = if run.phase = .uploading then .uploading else .partial_failed)
    (hi : ∀ i, i.task_id = run.task_id → (i ∈ db'.items ↔ i ∈ db.items)) : Active db' run := by
  refine ⟨hst, h.ids, fun i hmem => ?_,
    fun i hmem hid => h.others i ((hi i hid).mp hmem) hid, ?_⟩
  · obtain ⟨row, hrow, hid, htask, hrest⟩ := h.shown i hmem
    exact ⟨row, (hi row htask).mpr hrow, hid, htask, hrest⟩
  · have hl := h.listed
    split
    · rename_i hst
      rw [hst] at hl
      exact fun i hmem hid => hl i ((hi i hid).mp hmem) hid
    · rename_i hst
      rw [hst] at hl
      exact Planned.frame hl hi
    · trivial

theorem Active.outside (h : Active db run) (ho : Outside k db db') (hne : run.task_id ≠ k) :
    Active db' run :=
  h.frame (fun t ht hid => h.status t (ho.tasks t ht (hid ▸ hne)) hid)
    (fun i hid => ho.items i (hid ▸ hne))

theorem AtRest.outside (h : AtRest db.items t) (ho : Outside k db db') (hne : t.id ≠ k) :
    AtRest db'.items t :=
  h.frame (fun i hid => ho.items i (hid ▸ hne))

/-- The run that owns its task moves on. -/
theorem Covered.owned (h : Covered db runs) (hn : (runs.map TaskRun.rid).Nodup)
    (hfind : Rows.find? runs rid = some run)
    (hown : ∀ q ∈ runs, Engaged q → q.task_id = run.task_id → q = run)
    (ht : r.task_id = run.task_id) (hc : Consistent r)
    (ho : Outside run.task_id db db') (hactive : Engaged r → Active db' r)
    (hrest : ¬Engaged r → ∀ t ∈ db'.tasks, t.id = run.task_id → AtRest db'.items t) :
    Covered db' (Rows.update runs rid (fun _ => r)) := by
  have hkey : run.rid = rid := Rows.find_key hfind
  have hmem : r ∈ Rows.update runs rid (fun _ => r) :=
    Rows.mem_update_of_mem (f := fun _ => r) (Rows.find_mem hfind) hkey
  have hold : ∀ q, q ∈ runs → q.rid ≠ rid → Engaged q → q.task_id ≠ run.task_id := by
    intro q hq hne he hid
    exact hne (hown q hq he hid ▸ hkey)
  have cases : ∀ q ∈ Rows.update runs rid (fun _ => r), q = r ∨ q ∈ runs ∧ q.rid ≠ rid :=
    fun q hq => Rows.mem_update_cases hn hfind hq
  refine ⟨?_, ?_, ?_, ?_⟩
  · intro q hq
    rcases cases q hq with rfl | ⟨hq, _⟩
    · exact hc
    · exact h.consistent q hq
  · intro p hp hep q hq heq hid
    rcases cases p hp with hpr | ⟨hpold, hpne⟩
    · rcases cases q hq with hqr | ⟨hqold, hqne⟩
      · rw [hpr, hqr]
      · exact absurd (hid.trans (hpr ▸ ht)) (hold q hqold hqne heq)
    · rcases cases q hq with hqr | ⟨hqold, hqne⟩
      · exact absurd (hid.symm.trans (hqr ▸ ht)) (hold p hpold hpne hep)
      · exact h.alone p hpold hep q hqold heq hid
  · intro q hq he
    rcases cases q hq with rfl | ⟨hq, hne⟩
    · exact hactive he
    · exact (h.active q hq he).outside ho (hold q hq hne he)
  · intro t hmemt hnone
    by_cases hid : t.id = run.task_id
    · exact hrest (fun he => hnone r hmem he (ht.trans hid.symm)) t hmemt hid
    · refine (h.rest t (ho.tasks t hmemt hid) (fun q hq he hqt => ?_)).outside ho hid
      by_cases hne : q.rid = rid
      · have : q = run := Rows.eq_of_key hn hq (Rows.find_mem hfind) (hne.trans hkey.symm)
        exact hid (hqt ▸ this ▸ rfl)
      · exact hnone q (Rows.mem_update_of_ne hq hne) he hqt

/-- A run that is not engaged moves on without a write. -/
theorem Covered.bystander (h : Covered db runs) (hn : (runs.map TaskRun.rid).Nodup)
    (hfind : Rows.find? runs rid = some run) (hne : ¬Engaged run) (hne' : ¬Engaged r)
    (hc : Consistent r) : Covered db (Rows.update runs rid (fun _ => r)) := by
  have cases : ∀ q ∈ Rows.update runs rid (fun _ => r), Engaged q → q ∈ runs := by
    intro q hq he
    rcases Rows.mem_update_cases hn hfind hq with rfl | ⟨hq, _⟩
    · exact absurd he hne'
    · exact hq
  refine ⟨?_, fun p hp hep q hq heq => h.alone p (cases p hp hep) hep q (cases q hq heq) heq,
    fun q hq he => h.active q (cases q hq he) he, fun t ht hnone => h.rest t ht (fun q hq he => ?_)⟩
  · intro q hq
    rcases Rows.mem_update_cases hn hfind hq with rfl | ⟨hq, _⟩
    · exact hc
    · exact h.consistent q hq
  · refine hnone q (Rows.mem_update_of_ne hq (fun hkey => ?_)) he
    have : q = run :=
      Rows.eq_of_key hn hq (Rows.find_mem hfind) (hkey.trans (Rows.find_key hfind).symm)
    exact hne (this ▸ he)

/-- A run that is not engaged ends. -/
theorem Covered.dropped (h : Covered db runs) (hn : (runs.map TaskRun.rid).Nodup)
    (hfind : Rows.find? runs rid = some run) (hne : ¬Engaged run) :
    Covered db (Rows.erase runs rid) := by
  have sub : ∀ q ∈ Rows.erase runs rid, q ∈ runs := fun q hq => (Rows.mem_erase.mp hq).1
  refine ⟨fun q hq => h.consistent q (sub q hq),
    fun p hp hep q hq => h.alone p (sub p hp) hep q (sub q hq), fun q hq => h.active q (sub q hq),
    fun t ht hnone => h.rest t ht (fun q hq he => ?_)⟩
  refine hnone q (Rows.mem_erase.mpr ⟨hq, fun hkey => ?_⟩) he
  have : q = run :=
    Rows.eq_of_key hn hq (Rows.find_mem hfind) (hkey.trans (Rows.find_key hfind).symm)
  exact hne (this ▸ he)

end FileDelivery.Proofs.RunCover
