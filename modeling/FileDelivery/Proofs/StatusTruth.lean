import FileDelivery.Bridge.Replay
import FileDelivery.Proofs.Flow

namespace FileDelivery.Proofs.StatusTruth
open FileDelivery.Library FileDelivery.Library.Runs FileDelivery.Control FileDelivery.Bridge
open FileDelivery.Proofs.ApplyResult FileDelivery.Proofs.Effects FileDelivery.Proofs.Tables
open FileDelivery.Proofs.Flow

/-- The status of a task tells the truth about its items of severity ok or warning. -/
structure Truthful (items : List TaskItem) (t : Task) : Prop where
  uploaded : t.status = .uploaded →
    ∀ i ∈ items, i.task_id = t.id → i.deliverable = true → i.upload_status = .uploaded
  partial_failed : t.status = .partial_failed →
    ∃ i ∈ items, i.task_id = t.id ∧ i.deliverable = true ∧ i.upload_status ≠ .uploaded

/-- A result that calls its task uploaded lists every item that is not uploaded yet. -/
def ListsRest (db : Db) (m : DeliveryResultMessage) : Prop :=
  m.status = "uploaded" → ∀ i ∈ db.items, i.task_id = m.task_id → i.deliverable = true →
    i.upload_status ≠ .uploaded → i.id ∈ m.items.map (·.item_id)

instance (db : Db) (m : DeliveryResultMessage) : Decidable (ListsRest db m) :=
  inferInstanceAs (Decidable (_ → _))

def AppliesComplete (s : State) : Action → Prop
  | .apply pid => ∀ p ∈ s.results[pid]?, ListsRest s.db p.message
  | _ => True

instance (s : State) : (a : Action) → Decidable (AppliesComplete s a)
  | .apply pid => inferInstanceAs (Decidable (∀ p ∈ s.results[pid]?, ListsRest s.db p.message))
  | .create _ _ _ _ | .classify _ _ _ | .read _ _ _ | .write _ | .uploadRead _ _ | .upload _ _
  | .worker _ | .cleanup _ | .workspace _ _ _ _ | .expire _ | .tick => .isTrue trivial

/-- A status that makes no promise. -/
theorem Truthful.of_status (h : t.status ≠ .uploaded) (h' : t.status ≠ .partial_failed) :
    Truthful items t := ⟨fun he => absurd he h, fun he => absurd he h'⟩

/-- Only the rows of the task itself count. -/
theorem Truthful.of_items (h : Truthful items t)
    (hi : ∀ i, i.task_id = t.id → (i ∈ items' ↔ i ∈ items)) : Truthful items' t := by
  refine ⟨fun hst i hmem ht hd => h.uploaded hst i ((hi i ht).mp hmem) ht hd, fun hst => ?_⟩
  obtain ⟨i, hmem, ht, hrest⟩ := h.partial_failed hst
  exact ⟨i, (hi i ht).mpr hmem, ht, hrest⟩

/-- A change to rows that keeps each row's delivery. -/
theorem Truthful.map (h : Truthful items t) (f : TaskItem → TaskItem)
    (hcore : ∀ i, (f i).core = i.core)
    (hkeep : ∀ i, i.task_id = t.id →
      ((f i).upload_status = .uploaded ↔ i.upload_status = .uploaded)) :
    Truthful (items.map f) t := by
  refine ⟨?_, ?_⟩
  · intro hst j hj ht hd
    obtain ⟨i, hi, rfl⟩ := List.mem_map.mp hj
    obtain ⟨_, htask, _, _, hdel⟩ := core_eq_fields (hcore i)
    exact (hkeep i (htask ▸ ht)).mpr (h.uploaded hst i hi (htask ▸ ht) (hdel ▸ hd))
  · intro hst
    obtain ⟨i, hi, ht, hd, hu⟩ := h.partial_failed hst
    obtain ⟨_, htask, _, _, hdel⟩ := core_eq_fields (hcore i)
    exact ⟨f i, List.mem_map_of_mem hi, htask.trans ht, hdel.trans hd,
      fun hup => hu ((hkeep i ht).mp hup)⟩

/-- The tasks after a write of a status that makes no promise. -/
theorem write_truthful (hw : StatusWrite k st f a b) (hst : st ≠ .uploaded)
    (hst' : st ≠ .partial_failed) (h : ∀ t ∈ a, t.id ≠ k → Truthful items t) :
    ∀ t ∈ b, Truthful items t := by
  intro t ht
  obtain ⟨y, hy, _, _, _, ⟨_, hs⟩ | ⟨hne, rfl⟩⟩ := hw.mem ht
  · exact .of_status (hs ▸ hst) (hs ▸ hst')
  · exact h t hy hne

theorem verdict_status (h : Verdict m) :
    (TaskStatus.ofString m.status = .uploaded → m.status = "uploaded") ∧
      (TaskStatus.ofString m.status = .partial_failed → m.status = "partial_failed") := by
  rcases h with ⟨hs, _⟩ | ⟨hs, _⟩
  all_goals
    rw [hs]
    decide

/-- A complete result sets a status that its entries bear out. -/
theorem applied_truthful (h : Invariant cfg s) (hp : p ∈ s.results)
    (hok : ListsRest s.db p.message) (ht : t.id = p.message.task_id)
    (hst : t.status = .ofString p.message.status) :
    Truthful (s.db.items.map (settle p.message)) t := by
  obtain ⟨hn, hentries⟩ := result_entries h hp
  have hverdict := (h.work.results p hp).verdict
  refine ⟨?_, ?_⟩
  · intro hup j hj htask hdel
    have hs := (verdict_status hverdict).1 (hst ▸ hup)
    obtain ⟨i, hi, rfl⟩ := List.mem_map.mp hj
    obtain ⟨_, htask', _, _, hdel'⟩ := core_eq_fields (settle_core (m := p.message) (i := i))
    rw [htask', ht] at htask
    rw [hdel'] at hdel
    by_cases hlisted : i.id ∈ p.message.items.map (·.item_id)
    · obtain ⟨d, hd, hid⟩ := List.mem_map.mp hlisted
      have hall : d.status = "uploaded" := by
        rcases hverdict with ⟨_, hall⟩ | ⟨hbad, _⟩
        · exact hall d hd
        · rw [hs] at hbad
          exact absurd hbad (by decide)
      rw [settle_uploaded hn hd hid.symm htask hall]
      rfl
    · rw [settle_other (.inl hlisted)]
      by_contra hnot
      exact hlisted (hok hs i hi htask hdel hnot)
  · intro hpf
    have hs := (verdict_status hverdict).2 (hst ▸ hpf)
    obtain ⟨_, d, hd, hf⟩ : p.message.status = "partial_failed" ∧ ∃ d ∈ p.message.items,
        d.status = "failed" := by
      rcases hverdict with ⟨hbad, _⟩ | hfail
      · rw [hs] at hbad
        exact absurd hbad (by decide)
      · exact hfail
    obtain ⟨row, hrow, hid, htask, hdel, _⟩ := hentries d hd
    obtain ⟨_, htask', _, _, hdel'⟩ := core_eq_fields (settle_core (m := p.message) (i := row))
    refine ⟨settle p.message row, List.mem_map_of_mem hrow, by rw [htask', htask, ht],
      hdel'.trans hdel, ?_⟩
    rw [settle_failed hn hd hid htask hf]
    simp

/-- No step whose result is complete makes a status lie. -/
theorem step_truthful (hi : Invariant cfg s) (hok : AppliesComplete s a)
    (hs : step cfg s a = some s') (h : ∀ t ∈ s.db.tasks, Truthful s.db.items t) :
    ∀ t ∈ s'.db.tasks, Truthful s'.db.items t := by
  cases step_effect hs with
  | quiet ht hitems _ => rwa [ht, hitems]
  | created task _ hst _ ht hitems _ _ =>
    rw [ht, hitems]
    intro t hmem
    rcases List.mem_append.mp hmem with hmem | hmem
    · exact h t hmem
    · rw [List.mem_singleton.mp hmem]
      exact .of_status (by simp [hst]) (by simp [hst])
  | classified rows _ htask _ ht hitems _ _ =>
    obtain ⟨f, hw⟩ := ht
    refine write_truthful hw (by simp) (by simp) (fun t hmem hne => (h t hmem).of_items ?_)
    intro i hid
    rw [hitems, List.mem_append, or_iff_left]
    intro hnew
    exact hne (hid ▸ htask i hnew)
  | confirmed r _ _ ht hitems _ =>
    obtain ⟨f, hw⟩ := ht
    rw [hitems]
    exact write_truthful hw (by simp) (by simp) (fun t hmem _ => h t hmem)
  | retried r _ _ hquiet hwrite hitems _ =>
    rw [hitems]
    have hreset : ∀ t ∈ s.db.tasks, Truthful (s.db.items.map (resetRow s.db r)) t :=
      fun t hmem => (h t hmem).map _ (resetRow_core s.db r) (fun i _ => reset_uploaded s.db r i)
    by_cases hre : Reopens s.db r
    · obtain ⟨f, hw⟩ := hwrite hre
      exact write_truthful hw (by simp) (by simp) (fun t hmem _ => hreset t hmem)
    · rwa [hquiet hre]
  | queued r message _ _ ht hitems _ =>
    obtain ⟨f, hw⟩ := ht
    rw [hitems]
    exact write_truthful hw (by simp) (by simp) (fun t hmem _ => h t hmem)
  | applied p hp hdb =>
    rw [hdb]
    rcases apply_items_cases cfg.settings.s3_bucket_name hi.tables.item_ids p.message with
      ⟨_, hsame⟩ | hitems
    · rwa [hsame]
    · rw [hitems, apply_tasks]
      intro t hmem
      obtain ⟨y, hy, _, _, _, ⟨hid, hst⟩ | ⟨hne, rfl⟩⟩ := (settle_write p.message _).mem hmem
      · exact applied_truthful hi (List.mem_of_getElem? hp) (hok p hp) hid hst
      · refine (h t hy).map _ (fun _ => settle_core) (fun i ht => ?_)
        rw [settle_other (.inr (ht ▸ hne))]

instance (items : List TaskItem) (t : Task) : Decidable (Truthful items t) :=
  decidable_of_iff ((t.status = .uploaded → ∀ i ∈ items, i.task_id = t.id → i.deliverable = true →
      i.upload_status = .uploaded) ∧ (t.status = .partial_failed → ∃ i ∈ items, i.task_id = t.id ∧
        i.deliverable = true ∧ i.upload_status ≠ .uploaded))
    ⟨fun h => ⟨h.1, h.2⟩, fun h => ⟨h.uploaded, h.partial_failed⟩⟩

def failure : Option ItemFault := some (.sink "timeout" false)

end FileDelivery.Proofs.StatusTruth
