import FileDelivery.Bridge.Replay
import FileDelivery.Proofs.Summaries

namespace FileDelivery.Proofs.ConfirmGate
open FileDelivery.Library FileDelivery.Library.Runs FileDelivery.Library.Fallible FileDelivery.Control
open FileDelivery.Bridge FileDelivery.Proofs.ApplyResult FileDelivery.Proofs.Effects
open FileDelivery.Proofs.Moves FileDelivery.Proofs.Tables FileDelivery.Proofs.PlatformTables
open FileDelivery.Proofs.Flow FileDelivery.Proofs.Summaries

/-- `confirmed` or a later status. -/
def passed : TaskStatus → Bool
  | .confirmed | .queued | .uploading | .partial_failed | .uploaded | .failed => true
  | _ => false

/-- The task has a summary, and it does not block. -/
def Clean (s : State) (t : Nat) : Prop :=
  ∃ summary, Summarised s t summary ∧ summary.has_blocking_errors = false

/-- The gate: what has passed it, or is about to, is clean. -/
structure Gate (cfg : Config) (profiles : Nat → ProfileConfig) (s : State) : Prop where
  owned : Owned s.db
  accurate : AllAccurate cfg profiles s
  classified : ∀ t ∈ s.db.tasks, t.status = .classified → t.summary_json.isSome
  passed : ∀ t ∈ s.db.tasks, passed t.status = true → Clean s t.id
  writes : ∀ r ∈ s.writes, r.kind = .confirm ∨ ConfirmGate.passed r.task.status = true → Clean s r.task.id
  uploads : ∀ r ∈ s.uploads, Clean s r.task.id
  messages : ∀ m ∈ s.messages, Clean s m.task_id

theorem initial_gate (cfg : Config) (profiles : Nat → ProfileConfig) : Gate cfg profiles initial := by
  constructor <;> simp [initial, Owned, AllAccurate]

theorem read_row (h : Tasks.readTask db actor t = .ok task) : task ∈ db.tasks ∧ task.id = t := by
  have hfind := (Flow.read_spec h).1
  exact ⟨Rows.find_mem hfind, Rows.find_key hfind⟩

/-- What the read of a confirm request has checked. -/
theorem confirm_check_spec (h : Tasks.confirm_check db actor t = .ok task) :
    Tasks.readTask db actor t = .ok task ∧ task.status = .classified ∧
      task.summary_json.any (·.has_blocking_errors) = false := by
  obtain ⟨row, hread, h⟩ := bind_ok.mp h
  split at h
  · cases h
  · rename_i hst
    split at h
    · cases h
    · rename_i hflag
      cases h
      exact ⟨hread, by simpa using hst, by simpa using hflag⟩

/-- What is read for a write is clean where the gate asks for it. -/
theorem checked_clean (hg : Gate cfg profiles s) (h : checked s.db kind actor t = .ok task)
    (hp : kind = .confirm ∨ passed task.status = true) : Clean s task.id := by
  cases kind with
  | retry =>
    rcases hp with hp | hp
    · cases hp
    · exact hg.passed task (read_row h).1 hp
  | confirm =>
    obtain ⟨hread, hst, hflag⟩ := confirm_check_spec h
    have hrow := (read_row hread).1
    obtain ⟨summary, hsum⟩ := Option.isSome_iff_exists.mp (hg.classified task hrow hst)
    rw [hsum] at hflag
    exact ⟨summary, ⟨task, hrow, rfl, hsum⟩, hflag⟩

/-- A row that a step leaves is an old one, or its new status is one that the gate allows. -/
def Allowed (s s' : State) (t : Task) : Prop :=
  t ∈ s.db.tasks ∨ t.status = .draft ∨ (t.status = .classified ∧ t.summary_json.isSome) ∨
    (passed t.status = true ∧ Clean s' t.id)

theorem written_allowed (hw : StatusWrite k st g s.db.tasks s'.db.tasks) (hp : passed st = true)
    (hc : Clean s' k) (ht : t ∈ s'.db.tasks) : Allowed s s' t := by
  obtain ⟨y, hy, _, _, _, ⟨hid, hst⟩ | ⟨_, rfl⟩⟩ := hw.mem ht
  · exact .inr (.inr (.inr ⟨hst ▸ hp, hid ▸ hc⟩))
  · exact .inl hy

/-- The status that a result writes is one of a task that was published. -/
theorem verdict_passed (h : Verdict m) : passed (.ofString m.status) = true := by
  rcases h with ⟨hs, _⟩ | ⟨hs, _⟩
  · rw [hs]
    rfl
  · rw [hs]
    rfl

theorem classified_allowed (hw : Wellformed cfg s.db) (hc : Classification cfg s s' k profile)
    (hwrite : StatusWrite k .classified g s.db.tasks s'.db.tasks) (ht : t ∈ s'.db.tasks) :
    Allowed s s' t := by
  obtain ⟨task, _, _, _, _, _, hfind, _, _, _, _, _, _, _, hshape⟩ := hc.spec
  obtain ⟨y, hy, _, _, _, ⟨hid, hst⟩ | ⟨_, rfl⟩⟩ := hwrite.mem ht
  · obtain ⟨x, hx, hs⟩ := mem_shape hshape ht
    obtain ⟨hxid, _, hsum⟩ : x.id = t.id ∧ x.temp_dir = t.temp_dir ∧
        x.summary_json = t.summary_json := by simpa [shape] using hs
    refine .inr (.inr (.inl ⟨hst, ?_⟩))
    rcases Rows.mem_update_cases hw.task_ids hfind hx with rfl | ⟨_, hne⟩
    · rw [← hsum]
      rfl
    · exact absurd (hxid.trans hid) hne
  · exact .inl hy

theorem step_rows (hi : Invariant cfg s) (hg : Gate cfg profiles s) (h : step cfg s a = some s')
    (hk : ∀ t, Clean s t → Clean s' t) (ht : t ∈ s'.db.tasks) : Allowed s s' t := by
  cases step_effect h with
  | quiet htasks => exact .inl (htasks ▸ ht)
  | created task _ hst _ htasks =>
    rcases List.mem_append.mp (htasks ▸ ht) with hmem | hmem
    · exact .inl hmem
    · rw [List.mem_singleton.mp hmem]
      exact .inr (.inl hst)
  | classified _ _ _ _ hwrite =>
    obtain ⟨g, hwrite⟩ := hwrite
    exact classified_allowed hi.tables (classify_judgement h) hwrite ht
  | confirmed r hr hkind hwrite =>
    obtain ⟨g, hwrite⟩ := hwrite
    exact written_allowed hwrite rfl (hk _ (hg.writes r (Rows.find_mem hr) (.inl hkind))) ht
  | retried r hr _ hquiet hwrite =>
    by_cases hre : Reopens s.db r
    · obtain ⟨g, hwrite⟩ := hwrite hre
      have hp : passed r.task.status = true := by
        rcases hre.2 with hst | hst <;> (rw [hst]; rfl)
      exact written_allowed hwrite rfl (hk _ (hg.writes r (Rows.find_mem hr) (.inr hp))) ht
    · exact .inl (hquiet hre ▸ ht)
  | queued r _ hr _ hwrite =>
    obtain ⟨g, hwrite⟩ := hwrite
    exact written_allowed hwrite rfl (hk _ (hg.uploads r (Rows.find_mem hr))) ht
  | applied p hp hdb =>
    have hflow := hi.work.results p (List.mem_of_getElem? hp)
    obtain ⟨m, hm, htask, _⟩ := hflow.message
    have hclean := hg.messages m (List.mem_of_getElem? hm)
    have hwrite : StatusWrite p.message.task_id (.ofString p.message.status) (settleTask p.message)
        s.db.tasks s'.db.tasks := by
      rw [hdb, apply_tasks]
      exact settle_write p.message s.db.tasks
    exact written_allowed hwrite (verdict_passed hflow.verdict) (hk _ (htask ▸ hclean)) ht

/-- A write request is an old one, or it has just been read. -/
theorem step_writes (h : step cfg s a = some s') (hr : r ∈ s'.writes) :
    r ∈ s.writes ∨ ∃ actor t, checked s.db r.kind actor t = .ok r.task := by
  cases step_moves h with
  | read task hread =>
    rcases List.mem_append.mp hr with hr | hr
    · exact .inl hr
    · rw [List.mem_singleton.mp hr]
      exact .inr ⟨_, _, hread⟩
  | wrote => exact .inl ((Rows.erase_sublist _ _).subset hr)
  | requested q u next hq hmove => exact .inl ((move_frame hmove).1 ▸ hr)
  | worked hmove => cases hmove <;> exact .inl hr
  | cleaned hmove => cases hmove <;> exact .inl hr
  | _ => exact .inl hr

/-- An upload request is one of an old request's task, or it has just found its task confirmed. -/
theorem step_uploads (hn : (s.uploads.map UploadRequest.rid).Nodup) (h : step cfg s a = some s')
    (hr : r ∈ s'.uploads) :
    (∃ q ∈ s.uploads, q.task = r.task) ∨ ∃ actor t, Tasks.upload_check s.db actor t = .ok r.task := by
  cases step_moves h with
  | began task hcheck =>
    rcases List.mem_append.mp hr with hr | hr
    · exact .inl ⟨r, hr, rfl⟩
    · rw [List.mem_singleton.mp hr]
      exact .inr ⟨_, _, hcheck⟩
  | requested q u next hq hmove =>
    rcases (moved_uploads hn hq next).2 r hr with ⟨_, _, rfl⟩ | ⟨hr, _⟩
    · exact .inl ⟨q, Rows.find_mem hq, rfl⟩
    · exact .inl ⟨r, hr, rfl⟩
  | worked hmove => cases hmove <;> exact .inl ⟨r, hr, rfl⟩
  | cleaned hmove => cases hmove <;> exact .inl ⟨r, hr, rfl⟩
  | _ => exact .inl ⟨r, hr, rfl⟩

/-- A message is an old one, or a request has just published it. -/
theorem step_published (h : step cfg s a = some s') (hm : m ∈ s'.messages) :
    m ∈ s.messages ∨ ∃ r ∈ s.uploads, m.task_id = r.task.id := by
  cases step_moves h with
  | requested q u next hq hmove =>
    generalize q.stage = stage at hmove
    cases hmove with
    | published | sent =>
      rcases List.mem_append.mp hm with hm | hm
      · exact .inl hm
      · rw [List.mem_singleton.mp hm]
        exact .inr ⟨q, Rows.find_mem hq, rfl⟩
    | _ => exact .inl hm
  | worked hmove => cases hmove <;> exact .inl hm
  | cleaned hmove => cases hmove <;> exact .inl hm
  | _ => exact .inl hm

theorem checked_upload (hg : Gate cfg profiles s) (h : Tasks.upload_check s.db actor t = .ok task) :
    Clean s task.id := by
  obtain ⟨hread, hst⟩ := upload_check_spec h
  exact hg.passed task (read_row hread).1 (by rw [hst]; rfl)

theorem step_gate (hi : Invariant cfg s) (hg : Gate cfg profiles s) (hfix : Fixed profiles s a)
    (h : step cfg s a = some s') : Gate cfg profiles s' := by
  obtain ⟨hacc, hsum⟩ := step_accurate hi.tables hg.owned h hfix hg.accurate
  have hk : ∀ t, Clean s t → Clean s' t := by
    rintro t ⟨summary, hs, hflag⟩
    exact ⟨summary, hsum t summary hs, hflag⟩
  refine ⟨request_owned hi.tables hg.owned h, hacc, ?_, ?_, ?_, ?_, ?_⟩
  · intro t ht hst
    rcases step_rows hi hg h hk ht with hold | hdraft | ⟨_, hsome⟩ | ⟨hp, _⟩
    · exact hg.classified t hold hst
    · rw [hst] at hdraft
      cases hdraft
    · exact hsome
    · rw [hst] at hp
      cases hp
  · intro t ht hp
    rcases step_rows hi hg h hk ht with hold | hdraft | ⟨hst, _⟩ | ⟨_, hc⟩
    · exact hk _ (hg.passed t hold hp)
    · rw [hdraft] at hp
      cases hp
    · rw [hst] at hp
      cases hp
    · exact hc
  · intro r hr hp
    rcases step_writes h hr with hr | ⟨actor, t, hread⟩
    · exact hk _ (hg.writes r hr hp)
    · exact hk _ (checked_clean hg hread hp)
  · intro r hr
    rcases step_uploads hi.requests.rids h hr with ⟨q, hq, he⟩ | ⟨actor, t, hcheck⟩
    · exact hk _ (he ▸ hg.uploads q hq)
    · exact hk _ (checked_upload hg hcheck)
  · intro m hm
    rcases step_published h hm with hm | ⟨r, hr, he⟩
    · exact hk _ (hg.messages m hm)
    · exact hk _ (he ▸ hg.uploads r hr)

theorem reachable_gate (h : Run (step cfg) (Fixed profiles) initial s) : Gate cfg profiles s :=
  h.invariant_given (Gate cfg profiles) (Invariant cfg) (fun _ hr => reachable_flow hr)
    (initial_gate cfg profiles) (fun _ _ _ hi hg hfix hs => step_gate hi hg hfix hs)

/-- A clean task stays so. -/
theorem run_clean (hi : Invariant cfg s) (hg : Gate cfg profiles s)
    (h : Run (step cfg) (Fixed profiles) s u) (hc : Clean s t) : Clean u t := by
  have hall : Invariant cfg u ∧ Gate cfg profiles u ∧ Clean u t := by
    refine h.invariant (fun u => Invariant cfg u ∧ Gate cfg profiles u ∧ Clean u t) ⟨hi, hg, hc⟩ ?_
    rintro v a w ⟨hi, hg, summary, hs, hflag⟩ hfix hstep
    obtain ⟨_, hsum⟩ := step_accurate hi.tables hg.owned hstep hfix hg.accurate
    exact ⟨step_flow hi hstep, step_gate hi hg hfix hstep, summary, hsum t summary hs, hflag⟩
  exact hall.2.2

/-- A clean task has no item in error. -/
theorem Gate.no_errors (hg : Gate cfg profiles s) (hc : Clean s t) {i : TaskItem} (hi : i ∈ s.db.items)
    (ht : i.task_id = t) : i.severity ≠ .error := by
  obtain ⟨summary, ⟨task, htask, rfl, hsum⟩, hflag⟩ := hc
  intro herr
  have hacc := hg.accurate task htask
  rw [hsum] at hacc
  have := hacc.flag.mpr ⟨i, hi, ht, herr⟩
  rw [hflag] at this
  cases this

end FileDelivery.Proofs.ConfirmGate
