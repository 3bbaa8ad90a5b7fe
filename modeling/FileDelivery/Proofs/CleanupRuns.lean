import FileDelivery.Control.StagingCleanup
import FileDelivery.Proofs.StagingEvents

namespace FileDelivery.Proofs.CleanupRuns
open FileDelivery.Library FileDelivery.Library.Runs FileDelivery.Control FileDelivery.Bridge
open FileDelivery.Control.Staging FileDelivery.Proofs.StagingEvents

/-- The objects that the candidates name, without those that the job skips. -/
def targets (bucket : Option Text) (keys : List (Text × Text)) (events : List TaskEvent) :
    List (Text × Text) := events.filterMap (cleanupTarget bucket keys)

variable (bucket : Option Text) (keys : List (Text × Text)) (time : Time)
  (outcome : Nat → DeleteOutcome)

/-- A turn calls for its target, if it has one. -/
theorem one_calls (run : CleanupRun α) (event : TaskEvent) :
    (cleanupOne bucket keys time outcome run event).calls =
      run.calls ++ (cleanupTarget bucket keys event).toList := by
  unfold cleanupOne
  split
  · rename_i hnone
    simp [hnone]
  · rename_i target htarget
    simp only [htarget, Option.toList_some]
    split <;> rfl

/-- A turn leaves every other object as it is. -/
theorem one_store (run : CleanupRun α) (event : TaskEvent)
    (hx : cleanupTarget bucket keys event ≠ some x) :
    (cleanupOne bucket keys time outcome run event).store x = run.store x := by
  unfold cleanupOne
  split
  · rfl
  · rename_i target htarget
    have hne : x ≠ (target.1, target.2) := by
      rintro rfl
      exact hx htarget
    split
    · exact Objects.delete_ne _ hne
    all_goals rfl

theorem one_counts (run : CleanupRun α) (event : TaskEvent)
    (h : (cleanupOne bucket keys time outcome run event).raised = false) :
    let next := cleanupOne bucket keys time outcome run event
    next.scanned = run.scanned ∧
      next.deleted + next.failed + next.skipped = run.deleted + run.failed + run.skipped + 1 := by
  unfold cleanupOne at h ⊢
  split at h
  · exact ⟨rfl, by simp only; omega⟩
  · split at h
    · exact ⟨rfl, by simp only [CleanupRun.report]; omega⟩
    · exact ⟨rfl, by simp only [CleanupRun.report]; omega⟩
    · exact ⟨rfl, by simp only; omega⟩
    · cases h

/-- A call that raises leaves the object. -/
theorem one_raises (run : CleanupRun α) (event : TaskEvent) (hrun : run.raised = false)
    (h : (cleanupOne bucket keys time outcome run event).raised = true) :
    (cleanupOne bucket keys time outcome run event).store = run.store := by
  unfold cleanupOne at h ⊢
  split at h
  · rfl
  · split at h
    · cases hrun.symm.trans h
    all_goals rfl

/-- A turn whose call deletes. -/
theorem one_deletes (run : CleanupRun α) (event : TaskEvent)
    (h : ∀ n, outcome n = .deleted) :
    (cleanupOne bucket keys time outcome run event).raised = run.raised ∧
      ∀ x, cleanupTarget bucket keys event = some x →
        (cleanupOne bucket keys time outcome run event).store x = none := by
  unfold cleanupOne
  split
  · rename_i hnone
    exact ⟨rfl, fun x hx => by simp [hnone] at hx⟩
  · rename_i target htarget
    simp only [h, htarget, Option.some.injEq]
    refine ⟨rfl, ?_⟩
    rintro x rfl
    exact Objects.delete_self _

theorem targets_cons (event : TaskEvent) (rest : List TaskEvent) :
    targets bucket keys (event :: rest) =
      (cleanupTarget bucket keys event).toList ++ targets bucket keys rest := by
  unfold targets
  cases h : cleanupTarget bucket keys event <;> simp [h]

/-- Whatever the calls return, they go through the targets in order. -/
theorem loop_calls (events : List TaskEvent) (run : CleanupRun α) :
    ∃ done, done <+: targets bucket keys events ∧
      (cleanupLoop bucket keys time outcome events run).calls = run.calls ++ done := by
  induction events generalizing run with
  | nil => exact ⟨[], List.prefix_refl _, (List.append_nil _).symm⟩
  | cons event rest ih =>
    have hone := one_calls bucket keys time outcome run event
    rw [targets_cons]
    simp only [cleanupLoop]
    generalize cleanupOne bucket keys time outcome run event = next at hone ⊢
    split
    · exact ⟨_, List.prefix_append _ _, hone⟩
    · obtain ⟨done, hsub, hcalls⟩ := ih next
      refine ⟨_, (List.prefix_append_right_inj _).mpr hsub, ?_⟩
      rw [hcalls, hone, List.append_assoc]

/-- An object that no call names stays as it is. -/
theorem loop_store (events : List TaskEvent) (run : CleanupRun α)
    (hx : x ∉ (cleanupLoop bucket keys time outcome events run).calls) :
    (cleanupLoop bucket keys time outcome events run).store x = run.store x := by
  induction events generalizing run with
  | nil => rfl
  | cons event rest ih =>
    have hone : x ∉ (cleanupOne bucket keys time outcome run event).calls →
        (cleanupOne bucket keys time outcome run event).store x = run.store x := by
      intro hcalls
      apply one_store
      intro htarget
      rw [one_calls, htarget] at hcalls
      simp at hcalls
    simp only [cleanupLoop] at hx ⊢
    split at hx
    · rename_i hraised
      rw [if_pos hraised]
      exact hone hx
    · rename_i hraised
      rw [if_neg hraised]
      refine (ih _ hx).trans (hone ?_)
      obtain ⟨done, _, hcalls⟩ := loop_calls bucket keys time outcome rest
        (cleanupOne bucket keys time outcome run event)
      rw [hcalls] at hx
      exact fun hin => hx (List.mem_append_left _ hin)

/-- Where every call deletes, each target is called for, and gone. -/
theorem loop_deletes (events : List TaskEvent) (run : CleanupRun α) (hrun : run.raised = false)
    (h : ∀ n, outcome n = .deleted) :
    (cleanupLoop bucket keys time outcome events run).calls =
        run.calls ++ targets bucket keys events ∧
      ∀ x, (cleanupLoop bucket keys time outcome events run).store x =
        if x ∈ targets bucket keys events then none else run.store x := by
  induction events generalizing run with
  | nil => exact ⟨(List.append_nil _).symm, fun x => by simp [targets, cleanupLoop]⟩
  | cons event rest ih =>
    obtain ⟨hsame, hgone⟩ := one_deletes bucket keys time outcome run event h
    have hraised := hsame.trans hrun
    obtain ⟨hcalls, hstore⟩ := ih _ hraised
    simp only [cleanupLoop, hraised, targets_cons]
    refine ⟨?_, fun x => ?_⟩
    · rw [← List.append_assoc, ← one_calls]
      exact hcalls
    · refine (hstore x).trans ?_
      by_cases hx : cleanupTarget bucket keys event = some x
      · simp [hx, hgone x hx]
      · rw [one_store bucket keys time outcome run event hx]
        have hmem : x ∉ (cleanupTarget bucket keys event).toList := by simpa using hx
        simp [hmem]

theorem loop_counts (events : List TaskEvent) (run : CleanupRun α)
    (h : (cleanupLoop bucket keys time outcome events run).raised = false) :
    let last := cleanupLoop bucket keys time outcome events run
    last.scanned = run.scanned ∧ last.deleted + last.failed + last.skipped =
      run.deleted + run.failed + run.skipped + events.length := by
  induction events generalizing run with
  | nil => exact ⟨rfl, rfl⟩
  | cons event rest ih =>
    simp only [cleanupLoop, List.length_cons] at h ⊢
    split at h
    · rename_i hraised
      rw [hraised] at h
      cases h
    · rename_i hraised
      rw [if_neg hraised]
      obtain ⟨hscanned, hone⟩ := one_counts bucket keys time outcome run event
        (Bool.eq_false_of_not_eq_true hraised)
      obtain ⟨hsame, hrest⟩ := ih _ h
      exact ⟨hsame.trans hscanned, by omega⟩

/-- Each scanned event is deleted, failed or skipped, unless the job raises. -/
theorem summary_adds_up (db : Db) (store : Objects α) (retention : Int) (now : Option Time)
    (h : (cleanup_staging_sources db store retention now bucket outcome).summary = some summary) :
    summary.scanned = summary.deleted + summary.failed + summary.skipped := by
  unfold CleanupRun.summary at h
  split at h
  · cases h
  · rename_i hraised
    cases h
    obtain ⟨hscanned, hcounts⟩ := loop_counts bucket _ _ outcome
      (cleanupCandidates db (cutoff db retention now)) _ (Bool.eq_false_of_not_eq_true hraised)
    simp only [Nat.zero_add] at hcounts
    exact hscanned.trans hcounts.symm

section Bridge

/-- A job in progress beside the jobs of `s`. -/
def during (s : State) (c : Cleanup) (store : Objects Archive) : State :=
  { s with staging := store, cleanups := s.cleanups ++ [c], next_request := s.next_request + 1 }

/-- The job at the candidates that are left, with the events to append at its commit. -/
def jobRow (s : State) (events : List TaskEvent) (reports : List (Nat × EventPayload)) : Cleanup :=
  ⟨s.next_request, bucket, events, keys, reports⟩

def appendAll (db : Db) (reports : List (Nat × EventPayload)) : Db :=
  reports.foldl (fun db e => EventRepo.append db e.1 e.2) db

variable {s : State} (cfg : Config)

/-- The new job among the others, by its key. -/
theorem jobRow_keyed (hj : Jobs s) (events : List TaskEvent) (reports : List (Nat × EventPayload)) :
    let jobs := s.cleanups ++ [jobRow bucket keys s events reports]
    Rows.find? jobs s.next_request = some (jobRow bucket keys s events reports) ∧
      (∀ f, Rows.update jobs s.next_request f =
        s.cleanups ++ [f (jobRow bucket keys s events reports)]) ∧
      Rows.erase jobs s.next_request = s.cleanups := by
  have hnew : ∀ c ∈ s.cleanups,
      Rows.Row.key c ≠ Rows.Row.key (jobRow bucket keys s events reports) := by
    intro c hc he
    have hlt := hj.fresh c hc
    simp only [cleanup_key, jobRow] at he
    omega
  exact ⟨Rows.find_append_new hnew, fun f => Rows.update_append_new hnew, Rows.erase_append_new hnew⟩

/-- The two outcomes of a job's next candidate. -/
theorem passed_step (hfind : Rows.find? s.cleanups cid = some c) (hc : c.candidates = event :: rest)
    (h : cleanupTarget c.bucket_name c.deleted_keys event = none ∨ ok = false) :
    step cfg s (.cleanup (.delete cid ok)) =
      some { s with
        cleanups := Rows.update s.cleanups cid (fun c => { c with candidates := rest }) } := by
  simp only [step, Bridge.cleanup, hfind, Option.bind_some, hc]
  split
  · rename_i htarget
    rcases h with h | h
    · rw [h] at htarget
      cases htarget
    · cases h
  · rfl

theorem deleted_step (hfind : Rows.find? s.cleanups cid = some c) (hc : c.candidates = event :: rest)
    (h : cleanupTarget c.bucket_name c.deleted_keys event = some target) :
    step cfg s (.cleanup (.delete cid true)) =
      some { s with
        staging := s.staging.delete target.1 target.2
        cleanups := Rows.update s.cleanups cid (fun c => { c with
          candidates := rest, events := c.events ++ [cleanupEvent s.db event target] }) } := by
  simp only [step, Bridge.cleanup, hfind, Option.bind_some, hc, h]

/-- A turn that does not raise is one step of the job. -/
theorem turn_step (hj : Jobs s) (run : CleanupRun Archive) (event : TaskEvent)
    (rest : List TaskEvent) (reports : List (Nat × EventPayload))
    (hdb : run.db = appendAll s.db reports) (hmissing : ∀ n, outcome n ≠ .missing)
    (h : (cleanupOne bucket keys s.db.now outcome run event).raised = false) :
    ∃ ok reports', (cleanupOne bucket keys s.db.now outcome run event).db = appendAll s.db reports' ∧
      step cfg (during s (jobRow bucket keys s (event :: rest) reports) run.store)
          (.cleanup (.delete s.next_request ok)) =
        some (during s (jobRow bucket keys s rest reports')
          (cleanupOne bucket keys s.db.now outcome run event).store) := by
  obtain ⟨hfind, hupdate, _⟩ := jobRow_keyed bucket keys hj (event :: rest) reports
  have passed : ∀ ok, (cleanupTarget bucket keys event = none ∨ ok = false) →
      step cfg (during s (jobRow bucket keys s (event :: rest) reports) run.store)
          (.cleanup (.delete s.next_request ok)) =
        some (during s (jobRow bucket keys s rest reports) run.store) := by
    intro ok hok
    rw [passed_step cfg hfind rfl hok]
    simp only [during, hupdate]
    rfl
  unfold cleanupOne at h ⊢
  split
  · rename_i hnone
    exact ⟨false, reports, hdb, passed false (.inl hnone)⟩
  · rename_i target htarget
    simp only [htarget] at h
    split
    · refine ⟨true, reports ++ [cleanupEvent s.db event target], ?_, ?_⟩
      · simp only [CleanupRun.report, hdb, appendAll, List.foldl_append, List.foldl_cons,
          List.foldl_nil, cleanupEvent]
      · rw [deleted_step cfg hfind rfl htarget]
        simp only [during, hupdate]
        rfl
    · rename_i hout
      exact absurd hout (hmissing _)
    · exact ⟨false, reports, hdb, passed false (.inr rfl)⟩
    · rename_i hout
      simp [hout] at h

/-- The loop is a run of the job, up to the call that raises. -/
theorem loop_run (hj : Jobs s) (hmissing : ∀ n, outcome n ≠ .missing) (events : List TaskEvent)
    (run : CleanupRun Archive) (hrun : run.raised = false) (reports : List (Nat × EventPayload))
    (hdb : run.db = appendAll s.db reports) :
    let last := cleanupLoop bucket keys s.db.now outcome events run
    ∃ rest reports', Run (step cfg) Free (during s (jobRow bucket keys s events reports) run.store)
        (during s (jobRow bucket keys s rest reports') last.store) ∧
      (last.raised = false → rest = [] ∧ last.db = appendAll s.db reports') := by
  induction events generalizing run reports with
  | nil => exact ⟨[], reports, .refl _, fun _ => ⟨rfl, hdb⟩⟩
  | cons event rest ih =>
    simp only [cleanupLoop]
    split
    · rename_i hraised
      refine ⟨event :: rest, reports, ?_, fun h => (by cases hraised.symm.trans h)⟩
      rw [one_raises bucket keys s.db.now outcome run event hrun hraised]
      exact .refl _
    · rename_i hraised
      have hraised := Bool.eq_false_of_not_eq_true hraised
      obtain ⟨ok, reports', hdb', hstep⟩ := turn_step bucket keys outcome cfg hj run event rest reports
        hdb hmissing hraised
      obtain ⟨left, reports'', hrest, hend⟩ := ih _ hraised reports' hdb'
      exact ⟨left, reports'', (Run.tail (.refl _) trivial hstep).trans hrest, hend⟩

/-- The two ends of a job. -/
theorem committed_step (hj : Jobs s) (reports : List (Nat × EventPayload)) (store : Objects Archive) :
    step cfg (during s (jobRow bucket keys s [] reports) store) (.cleanup (.commit s.next_request)) =
      some { s with
        db := appendAll s.db reports, staging := store, next_request := s.next_request + 1 } := by
  obtain ⟨hfind, _, herase⟩ := jobRow_keyed bucket keys hj [] reports
  simp only [step, Bridge.cleanup, during, hfind, Option.bind_some, herase]
  rfl

theorem crashed_step (hj : Jobs s) (events : List TaskEvent) (reports : List (Nat × EventPayload))
    (store : Objects Archive) :
    step cfg (during s (jobRow bucket keys s events reports) store) (.cleanup (.crash s.next_request)) =
      some { s with staging := store, next_request := s.next_request + 1 } := by
  obtain ⟨hfind, _, herase⟩ := jobRow_keyed bucket keys hj events reports
  simp only [step, Bridge.cleanup, during, hfind, Option.map_some, herase]

/-- A job that nothing comes between is a run of its steps: a read, a delete for each
candidate and a commit, or a crash where the job raises. -/
theorem job_run (hj : Jobs s) (hmissing : ∀ n, outcome n ≠ .missing) (retention : Time) :
    let job := cleanup_staging_sources s.db s.staging retention none bucket outcome
    Run (step cfg) Free s { s with
      db := if job.raised then s.db else job.db
      staging := job.store
      next_request := s.next_request + 1 } := by
  intro job
  have hread : step cfg s (.cleanup (.read retention bucket)) = some (during s (jobRow bucket
      (_list_deleted_source_keys s.db) s (cleanupCandidates s.db (cutoff s.db retention none)) [])
      s.staging) := by
    simp only [step, Bridge.cleanup, cleanup_candidates_eq]
    rfl
  obtain ⟨rest, reports, hrun, hend⟩ := loop_run bucket (_list_deleted_source_keys s.db) outcome cfg
    hj hmissing (cleanupCandidates s.db (cutoff s.db retention none))
    ⟨s.db, s.staging, [], _, 0, 0, 0, false⟩ rfl [] rfl
  have hdone : Run (step cfg) Free s (during s (jobRow bucket (_list_deleted_source_keys s.db) s rest
      reports) job.store) := (Run.tail (.refl s) trivial hread).trans hrun
  cases hraised : job.raised with
  | true => exact hdone.tail trivial (crashed_step _ _ cfg hj rest reports job.store)
  | false =>
    obtain ⟨rfl, hdb⟩ := hend hraised
    have hcommit := committed_step bucket (_list_deleted_source_keys s.db) cfg hj reports job.store
    rw [← hdb] at hcommit
    exact hdone.tail trivial hcommit

end Bridge

end FileDelivery.Proofs.CleanupRuns
