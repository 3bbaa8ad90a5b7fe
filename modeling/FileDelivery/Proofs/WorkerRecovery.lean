import FileDelivery.Proofs.QueuedRace
import FileDelivery.Proofs.Recovery
import FileDelivery.Proofs.StatusTruth

namespace FileDelivery.Proofs.WorkerRecovery
open FileDelivery.Library FileDelivery.Library.Runs FileDelivery.Control FileDelivery.Bridge
open FileDelivery.Proofs.ApplyResult FileDelivery.Proofs.Effects FileDelivery.Proofs.Tables
open FileDelivery.Proofs.Flow FileDelivery.Proofs.StatusTruth FileDelivery.Proofs.QueuedRace
open FileDelivery.Proofs.Recovery

variable {db : Db} {items items' : List TaskItem} {i j : TaskItem} {t : Task} {r : WriteRequest}

/-- The write of a confirmation finds no failed item, and the write of a retry that resets
items of a failed task has read that it failed. -/
structure CurrentRead (db : Db) (r : WriteRequest) : Prop where
  confirm : r.kind = .confirm → ∀ i ∈ db.items, i.task_id = r.task.id → i.deliverable = true →
    i.upload_status ≠ .failed
  retry : r.kind = .retry →
    (∃ i ∈ db.items, ItemRepo.resettable db r.task.id (some r.actor.tenant_id) i = true) →
    (statusOf db r.task.id = some .failed ∨ statusOf db r.task.id = some .partial_failed) →
    (r.task.status = .failed ∨ r.task.status = .partial_failed)

instance (db : Db) (r : WriteRequest) : Decidable (CurrentRead db r) :=
  decidable_of_iff (_ ∧ _) ⟨fun h => ⟨h.1, h.2⟩, fun h => ⟨h.confirm, h.retry⟩⟩

def WritesCurrent (s : State) : Action → Prop
  | .write rid => ∀ r ∈ Rows.find? s.writes rid, CurrentRead s.db r
  | _ => True

instance (s : State) : (a : Action) → Decidable (WritesCurrent s a)
  | .write rid => inferInstanceAs (Decidable (∀ r ∈ Rows.find? s.writes rid, CurrentRead s.db r))
  | .create _ _ _ _ | .classify _ _ _ | .read _ _ _ | .apply _ | .uploadRead _ _ | .upload _ _
  | .worker _ | .cleanup _ | .workspace _ _ _ _ | .expire _ | .tick => .isTrue trivial

/-- No last result overtakes `queued`, no partial result calls its task uploaded, and no
write follows a read that is out of date. -/
def Undisturbed (s : State) (a : Action) : Prop :=
  NotOvertaken s a ∧ AppliesComplete s a ∧ WritesCurrent s a

instance (s : State) (a : Action) : Decidable (Undisturbed s a) :=
  inferInstanceAs (Decidable (_ ∧ _ ∧ _))

/-- Every message of the task is processed, and every result applied. -/
structure NothingInFlight (s : State) (t : Nat) : Prop where
  messages : ∀ mid < s.messages.length, ∀ m ∈ s.messages[mid]?, m.task_id = t → mid ∈ s.acked
  results : ∀ pid < s.results.length, ∀ p ∈ s.results[pid]?, p.message.task_id = t →
    pid ∈ s.applied

instance (s : State) (t : Nat) : Decidable (NothingInFlight s t) :=
  decidable_of_iff (_ ∧ _) ⟨fun h => ⟨h.1, h.2⟩, fun h => ⟨h.messages, h.results⟩⟩

/-- A task's status, in terms of its items. -/
structure Sound (items : List TaskItem) (t : Task) : Prop where
  status : t.status = .draft ∨ t.status = .classified ∨ t.status = .confirmed ∨
    t.status = .queued ∨ t.status = .uploaded ∨ t.status = .partial_failed
  confirmed : t.status = .confirmed →
    ∀ i ∈ items, i.task_id = t.id → i.deliverable = true → i.upload_status ≠ .failed
  partial_failed : t.status = .partial_failed →
    ∃ i ∈ items, i.task_id = t.id ∧ i.deliverable = true ∧ i.upload_status = .failed

/-- Only the rows of the task itself count. -/
theorem Sound.of_items (h : Sound items t)
    (hi : ∀ i, i.task_id = t.id → (i ∈ items' ↔ i ∈ items)) : Sound items' t := by
  refine ⟨h.status, fun hst i hmem ht => h.confirmed hst i ((hi i ht).mp hmem) ht, fun hst => ?_⟩
  obtain ⟨i, hmem, ht, hrest⟩ := h.partial_failed hst
  exact ⟨i, (hi i ht).mpr hmem, ht, hrest⟩

theorem itemEffect_decided (h : Decided i) : Decided (itemEffect m i d) := by
  unfold itemEffect
  split
  · split
    · exact .inr (.inr rfl)
    · split
      · exact .inr (.inl rfl)
      · exact h
  · exact h

theorem settle_decided (h : Decided i) : Decided (settle m i) := by
  unfold settle
  generalize m.items = ds
  induction ds generalizing i with
  | nil => exact h
  | cons d ds ih => exact ih (itemEffect_decided h)

/-- Only the background tasks of the other backend mark an item as being uploaded. -/
theorem effect_decided (hw : Wellformed cfg s.db) (he : Effect cfg s s' a)
    (h : ∀ i ∈ s.db.items, Decided i) : ∀ i ∈ s'.db.items, Decided i := by
  have mapped : ∀ f : TaskItem → TaskItem, (∀ i, Decided i → Decided (f i)) →
      ∀ i ∈ s.db.items.map f, Decided i := by
    intro f hf i hi
    obtain ⟨j, hj, rfl⟩ := List.mem_map.mp hi
    exact hf j (h j hj)
  cases he with
  | quiet _ hitems _ => rwa [hitems]
  | created _ _ _ _ _ hitems _ _ => rwa [hitems]
  | classified rows _ _ hpending _ hitems _ _ =>
    intro i hi
    rcases List.mem_append.mp (hitems ▸ hi) with hi | hi
    · exact h i hi
    · exact .inl (hpending i hi)
  | confirmed _ _ _ _ hitems _ => rwa [hitems]
  | retried _ _ _ _ _ hitems _ =>
    rw [hitems]
    exact mapped _ (fun _ => resetRow_decided)
  | queued _ _ _ _ _ hitems _ => rwa [hitems]
  | applied p hp hdb =>
    rw [hdb]
    rcases apply_items_cases cfg.settings.s3_bucket_name hw.item_ids p.message with
      ⟨_, hsame⟩ | hitems
    · rwa [hsame]
    · rw [hitems]
      exact mapped _ (fun _ => settle_decided)

/-- The tasks after a write of a status to one of them that is sound there. -/
theorem write_sound (hw : StatusWrite k st f a b) (h : ∀ t ∈ a, Sound items t)
    (hother : ∀ t, t.id ≠ k → Sound items t → Sound items' t)
    (hnew : ∀ t, t.id = k → t.status = st → Sound items' t) : ∀ t ∈ b, Sound items' t := by
  intro t ht
  obtain ⟨y, hy, _, _, _, ⟨hid, hst⟩ | ⟨hne, rfl⟩⟩ := hw.mem ht
  · exact hnew t hid hst
  · exact hother t hne (h t hy)

/-- Items of other tasks are not reset. -/
theorem reset_sound (hne : t.id ≠ r.task.id) (h : Sound items t) :
    Sound (items.map (resetRow db r)) t :=
  h.of_items (fun _ ht => mem_map_other (resetRow_core db r)
    (fun _ hj => resetRow_other (hj ▸ hne)) ht)

/-- A retry whose read is not out of date. -/
theorem retried_sound (hn : (db.tasks.map Task.id).Nodup) (hkind : r.kind = .retry)
    (hcur : CurrentRead db r) (hquiet : ¬Reopens db r → tasks = db.tasks)
    (hwrite : Reopens db r → ∃ f, StatusWrite r.task.id .confirmed f db.tasks tasks)
    (h : ∀ t ∈ db.tasks, Sound db.items t) :
    ∀ t ∈ tasks, Sound (db.items.map (resetRow db r)) t := by
  by_cases hreset : ∃ i ∈ db.items, ItemRepo.resettable db r.task.id (some r.actor.tenant_id) i = true
  case neg =>
    rw [reset_nothing hreset, hquiet (fun hre => hreset hre.1)]
    exact h
  obtain ⟨j, hj, hjreset⟩ := id hreset
  have hnone : ∀ i ∈ db.items.map (resetRow db r), i.task_id = r.task.id → i.upload_status ≠ .failed :=
    fun i hi => reset_none_failed hjreset hi
  by_cases hread : r.task.status = .failed ∨ r.task.status = .partial_failed
  · obtain ⟨f, hw⟩ := hwrite ⟨hreset, hread⟩
    refine write_sound hw h (fun t hne => reset_sound hne) (fun t hid hst => ?_)
    exact ⟨by simp [hst], fun _ i hi ht _ => hnone i hi (ht.trans hid), by simp [hst]⟩
  · rw [hquiet (fun hre => hread hre.2)]
    intro t ht
    by_cases hid : t.id = r.task.id
    · refine ⟨(h t ht).status, fun _ i hi hti _ => hnone i hi (hti.trans hid), fun hst => ?_⟩
      have hfailed : statusOf db r.task.id = some .partial_failed := by
        rw [← hid, status_of hn ht, hst]
      exact absurd (hcur.retry hkind hreset (.inr hfailed)) hread
    · exact reset_sound hid (h t ht)

/-- A result sets a status that its entries bear out. -/
theorem applied_sound (hi : Invariant cfg s) (hp : p ∈ s.results)
    (h : ∀ t ∈ s.db.tasks, Sound s.db.items t) :
    ∀ t ∈ Rows.update s.db.tasks p.message.task_id (settleTask p.message),
      Sound (s.db.items.map (settle p.message)) t := by
  refine write_sound (settle_write p.message s.db.tasks) h (fun t hne ht => ?_) (fun t hid hst => ?_)
  · exact ht.of_items (fun _ hk => mem_map_other (fun _ => settle_core)
      (fun _ hj => settle_other (.inr (hj ▸ hne))) hk)
  · obtain ⟨hn, hentries⟩ := result_entries hi hp
    rcases (hi.work.results p hp).verdict with ⟨hs, _⟩ | ⟨hs, d, hd, hf⟩
    · have hup : t.status = .uploaded := by
        rw [hst, hs]
        rfl
      exact ⟨by simp [hup], by simp [hup], by simp [hup]⟩
    · have hpf : t.status = .partial_failed := by
        rw [hst, hs]
        rfl
      obtain ⟨row, hrow, hrid, htask, hdel, _⟩ := hentries d hd
      have hfailed := settle_failed hn hd hrid htask hf
      obtain ⟨_, htask', _, _, hdel'⟩ := core_eq_fields (settle_core (m := p.message) (i := row))
      refine ⟨by simp [hpf], by simp [hpf], fun _ => ⟨settle p.message row,
        List.mem_map_of_mem hrow, htask'.trans (htask.trans hid.symm), hdel'.trans hdel, ?_⟩⟩
      rw [hfailed]
      rfl

/-- No step that writes on current reads leaves a status without its items. -/
theorem step_sound (hi : Invariant cfg s) (hok : WritesCurrent s a) (hs : step cfg s a = some s')
    (h : ∀ t ∈ s.db.tasks, Sound s.db.items t) : ∀ t ∈ s'.db.tasks, Sound s'.db.items t := by
  cases step_effect hs with
  | quiet ht hitems _ => rwa [ht, hitems]
  | created task _ hst _ ht hitems _ _ =>
    rw [ht, hitems]
    intro t hmem
    rcases List.mem_append.mp hmem with hmem | hmem
    · exact h t hmem
    · rw [List.mem_singleton.mp hmem]
      exact ⟨.inl hst, by simp [hst], by simp [hst]⟩
  | classified rows _ htask _ ht hitems _ _ =>
    obtain ⟨f, hw⟩ := ht
    rw [hitems]
    refine write_sound hw h (fun t hne ht => ht.of_items (fun i hid => ?_)) (fun t _ hst => ?_)
    · rw [List.mem_append, or_iff_left]
      exact fun hnew => hne (hid ▸ htask i hnew)
    · exact ⟨by simp [hst], by simp [hst], by simp [hst]⟩
  | confirmed r hr hkind ht hitems _ =>
    obtain ⟨f, hw⟩ := ht
    have hcur := (hok r hr : CurrentRead s.db r).confirm hkind
    rw [hitems]
    refine write_sound hw h (fun _ _ => id) (fun t hid hst => ?_)
    exact ⟨by simp [hst], fun _ i hi hti => hcur i hi (hti.trans hid), by simp [hst]⟩
  | retried r hr hkind hquiet hwrite hitems _ =>
    rw [hitems]
    exact retried_sound hi.tables.task_ids hkind (hok r hr) hquiet hwrite h
  | queued r message _ _ ht hitems _ =>
    obtain ⟨f, hw⟩ := ht
    rw [hitems]
    refine write_sound hw h (fun _ _ => id) (fun t _ hst => ?_)
    exact ⟨by simp [hst], by simp [hst], by simp [hst]⟩
  | applied p hp hdb =>
    rw [hdb]
    rcases apply_items_cases cfg.settings.s3_bucket_name hi.tables.item_ids p.message with
      ⟨_, hsame⟩ | hitems
    · rwa [hsame]
    · rw [hitems, apply_tasks]
      exact applied_sound hi (List.mem_of_getElem? hp) h

/-- What a run without disturbances keeps of every task. -/
structure Kept (s : State) : Prop where
  decided : ∀ i ∈ s.db.items, Decided i
  sound : ∀ t ∈ s.db.tasks, Sound s.db.items t
  truthful : ∀ t ∈ s.db.tasks, Truthful s.db.items t
  awaited : Awaited s

theorem step_kept (hi : Invariant cfg s) (hok : Undisturbed s a) (hs : step cfg s a = some s')
    (h : Kept s) : Kept s' :=
  ⟨effect_decided hi.tables (step_effect hs) h.decided, step_sound hi hok.2.2 hs h.sound,
    step_truthful hi hok.2.1 hs h.truthful, step_awaited hi hok.1 hs h.awaited⟩

theorem reachable_kept (h : Run (step cfg) Undisturbed initial s) : Kept s := by
  refine h.invariant_given (fun s => Kept s) (fun s => Invariant cfg s) (fun _ => reachable_flow) ?_
    (fun _ _ _ hi hinv hok hs => step_kept hi hok hs hinv)
  exact ⟨by simp [initial], by simp [initial], by simp [initial], by simp [initial], by simp [initial]⟩

/-- Where nothing is in flight for a task, it is not live. -/
theorem idle_not_live {k : Nat} (hw : Work s) (h : NothingInFlight s k) : ¬Live s k := by
  rintro ⟨mid, m, hm, hid, ho⟩
  have hlt := (List.getElem?_eq_some_iff.mp hm).1
  obtain ⟨p, hp, rfl⟩ := hw.acked mid (h.messages mid hlt m hm hid)
  obtain ⟨m', hm', htask, _⟩ := (hw.results p hp).message
  rw [hm] at hm'
  cases hm'
  obtain ⟨pid, hpid, rfl⟩ := List.mem_iff_getElem.mp hp
  have hget : s.results[pid]? = some s.results[pid] := List.getElem?_eq_getElem hpid
  exact ho pid (h.results pid hpid _ hget (htask.trans hid)) _ hget rfl

theorem kept_settled (hw : Work s) (h : Kept s) (ht : t ∈ s.db.tasks)
    (hidle : NothingInFlight s t.id) : Settled s.db.items t := by
  have hs := h.sound t ht
  refine ⟨fun i hi _ _ => h.decided i hi, hs.confirmed, fun hpast hne => ?_⟩
  rcases hs.status with hst | hst | hst | hst | hst | hst
  · simp [hst, ReachedConfirmation] at hpast
  · simp [hst, ReachedConfirmation] at hpast
  · exact absurd hst hne
  · exact absurd (h.awaited.queued t ht hst) (idle_not_live hw hidle)
  · exact .inl ((h.truthful t ht).uploaded hst)
  · exact .inr ⟨.inr hst, hs.partial_failed hst⟩

theorem upload_items_pending : SelectsPending Tasks.upload_items := by
  intro db actor t i ht ha hi htask hdel hpend
  have howner := owner_allows ht ha
  simp only [Tasks.upload_items, ItemRepo.list_by_task, List.mem_filter, List.mem_insertionSort]
  simp [hi, htask, howner, hdel, hpend]

/-- With the go-worker backend no task is stranded in a run without disturbances. -/
theorem undisturbed_recoverable (h : Run (step cfg) Undisturbed initial s) (ht : t ∈ s.db.tasks)
    (hpast : ReachedConfirmation t.status = true) (hidle : NothingInFlight s t.id)
    (hleft : ∃ i, Undelivered s.db t.id i) :
    Recoverable cfg.settings Tasks.upload_items s.claims s.db t ↔ Unclaimed cfg.settings s.claims t :=
  have hi := reachable_flow h
  settled_recoverable upload_items_pending hi.tables.task_ids ht
    (kept_settled hi.work (reachable_kept h) ht hidle) hpast hleft

end FileDelivery.Proofs.WorkerRecovery
