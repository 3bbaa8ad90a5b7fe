import FileDelivery.Bridge.RowLoads
import FileDelivery.Library.Runs

namespace FileDelivery.Proofs.LostWrites
open FileDelivery.Library FileDelivery.Library.Runs FileDelivery.Control
open FileDelivery.Bridge FileDelivery.Bridge.RowLoads

variable {σ α : Type} {sys : System σ α} {cfg : Config} {before after : Db} {session : Session}

/-- Nothing is lost of what is written to the row of a task: a column that is written as it was loaded
has not changed since. -/
structure KeptTask (loaded row written : Task) : Prop where
  status : written.status = loaded.status → row.status = loaded.status
  summary : written.summary_json = loaded.summary_json → row.summary_json = loaded.summary_json

instance (loaded row written : Task) : Decidable (KeptTask loaded row written) :=
  decidable_of_iff (_ ∧ _) ⟨fun h => ⟨h.1, h.2⟩, fun h => ⟨h.status, h.summary⟩⟩

structure KeptItem (loaded row written : TaskItem) : Prop where
  status : written.upload_status = loaded.upload_status → row.upload_status = loaded.upload_status
  error : written.upload_error = loaded.upload_error → row.upload_error = loaded.upload_error
  time : written.uploaded_at = none → loaded.uploaded_at = none → row.uploaded_at = none

instance (loaded row written : TaskItem) : Decidable (KeptItem loaded row written) :=
  decidable_of_iff (_ ∧ _ ∧ _) ⟨fun h => ⟨h.1, h.2.1, h.2.2⟩, fun h => ⟨h.status, h.error, h.time⟩⟩

/-- No write of a session is lost where it takes the tables from `before` to `after`. -/
structure Kept (before after : Db) (session : Session) : Prop where
  tasks : ∀ loaded ∈ session.tasks, ∀ row ∈ Rows.find? before.tasks loaded.id,
    ∀ written ∈ after.tasks, written.id = loaded.id → KeptTask loaded row written
  items : ∀ loaded ∈ session.items, ∀ row ∈ Rows.find? before.items loaded.id,
    ∀ written ∈ after.items, written.id = loaded.id → KeptItem loaded row written

instance (before after : Db) (session : Session) : Decidable (Kept before after session) :=
  decidable_of_iff (_ ∧ _) ⟨fun h => ⟨h.1, h.2⟩, fun h => ⟨h.tasks, h.items⟩⟩

/-- What is written as it was loaded is there where it has not changed since. -/
theorem kept_value {β : Type} [DecidableEq β] {loaded row written : β} (h : written = loaded → row = loaded) :
    (if written = loaded then row else written) = written := by
  split
  · rename_i heq
    exact (h heq).trans heq.symm
  · rfl

theorem writtenTask_kept (h : KeptTask loaded row written) : writtenTask loaded row written = written := by
  rw [writtenTask, kept_value h.status, kept_value h.summary]

theorem writtenItem_kept (h : KeptItem loaded row written) : writtenItem loaded row written = written := by
  have htime : (if written.uploaded_at = none ∧ loaded.uploaded_at = none then row.uploaded_at
      else written.uploaded_at) = written.uploaded_at := by
    split
    · rename_i hnone
      exact (h.time hnone.1 hnone.2).trans hnone.1.symm
    · rfl
  rw [writtenItem, kept_value h.status, kept_value h.error, htime]

theorem settleTask_kept (h : ∀ row ∈ Rows.find? before.tasks loaded.id, ∀ written ∈ after.tasks,
    written.id = loaded.id → KeptTask loaded row written) : settleTask before after loaded = after := by
  unfold settleTask
  split
  · rename_i row hrow
    rw [Rows.update_eq_iff.mpr (fun written hw hid => writtenTask_kept (h row hrow written hw hid))]
  · rfl

theorem settleItem_kept (h : ∀ row ∈ Rows.find? before.items loaded.id, ∀ written ∈ after.items,
    written.id = loaded.id → KeptItem loaded row written) : settleItem before after loaded = after := by
  unfold settleItem
  split
  · rename_i row hrow
    rw [Rows.update_eq_iff.mpr (fun written hw hid => writtenItem_kept (h row hrow written hw hid))]
  · rfl

theorem settle_kept (h : Kept before after session) : settle before after session = after := by
  have htasks : session.tasks.foldl (settleTask before) after = after := by
    refine List.foldlRecOn session.tasks (settleTask before) (motive := fun db => db = after) rfl ?_
    rintro db rfl loaded hl
    exact settleTask_kept (h.tasks loaded hl)
  rw [settle, htasks]
  refine List.foldlRecOn session.items (settleItem before) (motive := fun db => db = after) rfl ?_
  rintro db rfl loaded hl
  exact settleItem_kept (h.items loaded hl)

/-- Each step is one that the system may take, and loses no write. -/
def Lossless (sys : System σ α) (cfg : Config) (ok : σ → α → Prop) (s : RowLoads.State σ) :
    RowLoads.Action α → Prop
  | .base action => ok s.base action
  | .land sid action => ok s.base action ∧ ∀ session ∈ Rows.find? s.sessions sid,
      ∀ t ∈ sys.step cfg s.base action, Kept (sys.db s.base) (sys.db t) session
  | .start | .loadTask _ _ | .loadItem _ _ | .drop _ => True

instance (sys : System σ α) (cfg : Config) (ok : σ → α → Prop) [∀ s a, Decidable (ok s a)]
    (s : RowLoads.State σ) : (a : RowLoads.Action α) → Decidable (Lossless sys cfg ok s a)
  | .base action => inferInstanceAs (Decidable (ok s.base action))
  | .land sid action => inferInstanceAs (Decidable (ok s.base action ∧ ∀ session ∈ Rows.find? s.sessions sid,
      ∀ t ∈ sys.step cfg s.base action, Kept (sys.db s.base) (sys.db t) session))
  | .start | .loadTask _ _ | .loadItem _ _ | .drop _ => .isTrue trivial

/-- Where no write is lost, the sessions do what they would do if each had the tables for itself. -/
theorem lossless_run (h : Run (RowLoads.step sys cfg) (Lossless sys cfg ok) (RowLoads.initial sys) s) :
    Run (sys.step cfg) ok sys.initial s.base := by
  refine h.simulates RowLoads.State.base (fun s a t hok hs => ?_)
  cases a with
  | base action =>
    obtain ⟨base, hb, rfl⟩ := Option.map_eq_some_iff.mp hs
    exact .inr ⟨action, hok, hb⟩
  | start =>
    cases hs
    exact .inl rfl
  | loadTask sid task_id =>
    obtain ⟨session, _, hs⟩ := Option.bind_eq_some_iff.mp hs
    split at hs
    · cases hs
    · obtain ⟨_, _, rfl⟩ := Option.map_eq_some_iff.mp hs
      exact .inl rfl
  | loadItem sid item_id =>
    obtain ⟨session, _, hs⟩ := Option.bind_eq_some_iff.mp hs
    split at hs
    · cases hs
    · obtain ⟨_, _, rfl⟩ := Option.map_eq_some_iff.mp hs
      exact .inl rfl
  | land sid action =>
    simp only [RowLoads.step, land] at hs
    split at hs
    · obtain ⟨session, hsession, hs⟩ := Option.bind_eq_some_iff.mp hs
      obtain ⟨base, hb, rfl⟩ := Option.map_eq_some_iff.mp hs
      refine .inr ⟨action, hok.1, ?_⟩
      rw [settle_kept (hok.2 session hsession base hb), sys.setDb_db]
      exact hb
    · cases hs
  | drop sid =>
    obtain ⟨_, _, rfl⟩ := Option.map_eq_some_iff.mp hs
    exact .inl rfl

end FileDelivery.Proofs.LostWrites
