import FileDelivery.Proofs.Retention
import Mathlib.Data.Finset.Card

namespace FileDelivery.Proofs.CleanupAccounting
open FileDelivery.Library FileDelivery.Library.Runs FileDelivery.Control FileDelivery.Bridge
open FileDelivery.Control.Staging FileDelivery.Proofs.CleanupRuns FileDelivery.Proofs.Retention

/-- After such a call the job reports the object as deleted. -/
def reports : DeleteOutcome → Bool
  | .deleted | .missing => true
  | .refused | .raised => false

section Attempts
variable (outcome : Nat → DeleteOutcome)

/-- Calls for the objects in order, each with its outcome; `n` calls came before. -/
def attempts : Nat → List (Text × Text) → List ((Text × Text) × DeleteOutcome)
  | _, [] => []
  | n, x :: rest => (x, outcome n) :: attempts (n + 1) rest

/-- The calls before one that raises. -/
def returned (n : Nat) (objects : List (Text × Text)) : List ((Text × Text) × DeleteOutcome) :=
  (attempts outcome n objects).takeWhile (fun call => call.2 ≠ .raised)

def reported (n : Nat) (objects : List (Text × Text)) : List (Text × Text) :=
  ((returned outcome n objects).filter (fun call => reports call.2)).map (·.1)

/-- The objects that the job gets to: those up to a call that raises. -/
def called : Nat → List (Text × Text) → List (Text × Text)
  | _, [] => []
  | n, x :: rest => x :: if outcome n = .raised then [] else called (n + 1) rest

/-- No two of the calls that return are for one object and both reported. -/
def ReportedOnce (objects : List (Text × Text)) : Prop :=
  (returned outcome 0 objects).Pairwise (fun first second =>
    reports first.2 = true → reports second.2 = true → first.1 ≠ second.1)

theorem reported_once_iff (objects : List (Text × Text)) :
    ReportedOnce outcome objects ↔ (reported outcome 0 objects).Nodup := by
  unfold ReportedOnce reported
  rw [List.Nodup, List.pairwise_map, List.pairwise_filter]

variable {outcome} {n : Nat} {x : Text × Text} {objects : List (Text × Text)}

theorem reported_cons (h : outcome n ≠ .raised) : reported outcome n (x :: objects) =
    if reports (outcome n) then x :: reported outcome (n + 1) objects
    else reported outcome (n + 1) objects := by
  unfold reported returned
  rw [attempts, List.takeWhile_cons_of_pos (by simpa using h), List.filter_cons]
  split
  · rw [List.map_cons]
  · rfl

theorem reported_raised (h : outcome n = .raised) : reported outcome n (x :: objects) = [] := by
  unfold reported returned
  rw [attempts, List.takeWhile_cons_of_neg (by simp [h])]
  rfl

theorem called_cons (h : outcome n ≠ .raised) :
    called outcome n (x :: objects) = x :: called outcome (n + 1) objects := by
  rw [called, if_neg h]

theorem called_raised (h : outcome n = .raised) : called outcome n (x :: objects) = [x] := by
  rw [called, if_pos h]

/-- The calls that are not made would report nothing. -/
theorem reported_called : reported outcome n (called outcome n objects) = reported outcome n objects := by
  induction objects generalizing n with
  | nil => rfl
  | cons x rest ih =>
    by_cases h : outcome n = .raised
    · rw [reported_raised h, called_raised h, reported_raised h]
    · rw [reported_cons h, called_cons h, reported_cons h, ih]

theorem reported_sublist : (reported outcome n objects).Sublist objects := by
  induction objects generalizing n with
  | nil => exact List.Sublist.refl _
  | cons x rest ih =>
    by_cases h : outcome n = .raised
    · rw [reported_raised h]
      exact List.nil_sublist _
    · rw [reported_cons h]
      split
      · exact ih.cons_cons x
      · exact ih.cons x

theorem called_sublist : (called outcome n objects).Sublist objects := by
  induction objects generalizing n with
  | nil => exact List.Sublist.refl _
  | cons x rest ih =>
    rw [called]
    split
    · exact (List.nil_sublist rest).cons_cons x
    · exact ih.cons_cons x

/-- A call that deletes is one that is reported. -/
theorem count_deleted (x : Text × Text) :
    (attempts outcome n (called outcome n objects)).count (x, .deleted) ≤
      (reported outcome n objects).count x := by
  induction objects generalizing n with
  | nil => exact Nat.le_refl _
  | cons y rest ih =>
    have hrest := ih (n := n + 1)
    by_cases h : outcome n = .raised
    · simp [called_raised h, reported_raised h, attempts, h]
    · rw [called_cons h, reported_cons h, attempts]
      by_cases hdeleted : outcome n = .deleted
      · simp only [hdeleted, reports, if_true]
        by_cases hy : y = x
        · rw [hy, List.count_cons_self, List.count_cons_self]
          omega
        · rw [List.count_cons_of_ne (by simp [hy]), List.count_cons_of_ne hy]
          exact hrest
      · rw [List.count_cons_of_ne (by simp [hdeleted])]
        refine hrest.trans (List.Sublist.count_le x ?_)
        split
        · exact List.sublist_cons_self _ _
        · exact List.Sublist.refl _

end Attempts

/-- The objects that the events report as deleted. -/
def deletions (db : Db) : List (Text × Text) := db.events.filterMap (fun e => deletedSource e.payload)

section Loop
variable (bucket : Option Text) (keys : List (Text × Text)) (time : Time)
  (outcome : Nat → DeleteOutcome)

theorem one_none (run : CleanupRun α) (h : cleanupTarget bucket keys event = none) :
    cleanupOne bucket keys time outcome run event = { run with skipped := run.skipped + 1 } := by
  rw [cleanupOne, h]

/-- What a turn with a target does to the run. -/
structure Turn (run next : CleanupRun α) (x : Text × Text) : Prop where
  raised : next.raised = true ↔ outcome run.calls.length = .raised
  calls : next.calls = run.calls ++ [x]
  tasks : next.db.tasks = run.db.tasks
  events : ∃ added, next.db.events = run.db.events ++ added ∧
    added.map (fun e => deletedSource e.payload) =
      if reports (outcome run.calls.length) then [some x] else []
  deleted : next.deleted = run.deleted + if reports (outcome run.calls.length) then 1 else 0
  failed : next.raised = false →
    next.failed = run.failed + if reports (outcome run.calls.length) then 0 else 1

theorem one_some (run : CleanupRun α) (hrun : run.raised = false)
    (h : cleanupTarget bucket keys event = some x) :
    Turn outcome run (cleanupOne bucket keys time outcome run event) x := by
  unfold cleanupOne
  rw [h]
  cases ho : outcome run.calls.length
  all_goals
    constructor
    all_goals simp [CleanupRun.report, EventRepo.append, deletedSource, reports, hrun, ho]

/-- What a loop has done to the run: the calls, and the events and counts that report them. -/
structure Reports (run last : CleanupRun α) (objects : List (Text × Text)) : Prop where
  calls : last.calls = run.calls ++ called outcome run.calls.length objects
  tasks : last.db.tasks = run.db.tasks
  events : ∃ added, last.db.events = run.db.events ++ added ∧
    added.map (fun e => deletedSource e.payload) =
      (reported outcome run.calls.length objects).map some
  deleted : last.deleted = run.deleted + (reported outcome run.calls.length objects).length
  failed : last.raised = false →
    last.failed + (reported outcome run.calls.length objects).length = run.failed + objects.length

variable {outcome} in
/-- The loop ends with a turn whose call raises. -/
theorem Turn.ends {run next : CleanupRun α} (h : Turn outcome run next x)
    (ho : outcome run.calls.length = .raised) : Reports outcome run next (x :: objects) := by
  obtain ⟨added, hevents, hsource⟩ := h.events
  have hdeleted := h.deleted
  simp only [ho, reports, Bool.false_eq_true, if_false, Nat.add_zero] at hsource hdeleted
  refine ⟨?_, h.tasks, ⟨added, hevents, ?_⟩, ?_, fun hnext => ?_⟩
  · rw [called_raised ho]
    exact h.calls
  · rw [reported_raised ho]
    exact hsource
  · rw [reported_raised ho]
    exact hdeleted
  · cases hnext.symm.trans (h.raised.mpr ho)

variable {outcome} in
/-- A turn and the rest of the loop. -/
theorem Turn.goes_on {run next last : CleanupRun α} (h : Turn outcome run next x)
    (ho : outcome run.calls.length ≠ .raised) (hrest : Reports outcome next last objects) :
    Reports outcome run last (x :: objects) := by
  have hlen : next.calls.length = run.calls.length + 1 := by
    rw [h.calls, List.length_append]
    rfl
  obtain ⟨added, hevents, hsource⟩ := h.events
  obtain ⟨more, hmore, hmoresource⟩ := hrest.events
  have hdeleted := hrest.deleted
  have hfailed := hrest.failed
  have hone := h.failed (Bool.eq_false_of_not_eq_true (fun hraised => ho (h.raised.mp hraised)))
  rw [hlen] at hmoresource hdeleted hfailed
  refine ⟨?_, hrest.tasks.trans h.tasks, ⟨added ++ more, ?_, ?_⟩, ?_, fun hlast => ?_⟩
  · rw [hrest.calls, hlen, h.calls, called_cons ho, List.append_assoc]
    rfl
  · rw [hmore, hevents, List.append_assoc]
  · rw [List.map_append, hsource, hmoresource, reported_cons ho]
    split
    all_goals rfl
  · rw [hdeleted, h.deleted, reported_cons ho]
    split
    · rw [List.length_cons]
      omega
    · rfl
  · have hsum := hfailed hlast
    rw [reported_cons ho, List.length_cons]
    split
    · rename_i hr
      rw [if_pos hr] at hone
      rw [List.length_cons]
      omega
    · rename_i hr
      rw [if_neg hr] at hone
      omega

theorem loop_reports (events : List TaskEvent) (run : CleanupRun α) (hrun : run.raised = false) :
    Reports outcome run (cleanupLoop bucket keys time outcome events run)
      (targets bucket keys events) := by
  induction events generalizing run with
  | nil => exact ⟨(List.append_nil _).symm, rfl, ⟨[], (List.append_nil _).symm, rfl⟩, rfl, fun _ => rfl⟩
  | cons event rest ih =>
    rw [targets_cons]
    cases htarget : cleanupTarget bucket keys event with
    | none =>
      have hnone := one_none bucket keys time outcome run htarget
      have hrest := ih { run with skipped := run.skipped + 1 } hrun
      have hloop : cleanupLoop bucket keys time outcome (event :: rest) run =
          cleanupLoop bucket keys time outcome rest { run with skipped := run.skipped + 1 } := by
        simp only [cleanupLoop, hnone]
        exact if_neg (by simp [hrun])
      rw [hloop]
      exact ⟨hrest.calls, hrest.tasks, hrest.events, hrest.deleted, hrest.failed⟩
    | some x =>
      have hturn := one_some bucket keys time outcome run hrun htarget
      simp only [cleanupLoop, Option.toList_some, List.singleton_append]
      by_cases ho : outcome run.calls.length = .raised
      · rw [if_pos (hturn.raised.mpr ho)]
        exact hturn.ends ho
      · have hgoes := Bool.eq_false_of_not_eq_true (fun hraised => ho (hturn.raised.mp hraised))
        rw [if_neg (by simp [hgoes])]
        exact hturn.goes_on ho (ih _ hgoes)

end Loop

/-- The objects that a job calls for, where no call before raises. -/
def considered (db : Db) (limit : Int) (bucket : Option Text) : List (Text × Text) :=
  targets bucket (_list_deleted_source_keys db) (cleanupCandidates db limit)

/-- What a job promises of its counts, its calls and its events, and of a job after it. -/
structure Accounted (db : Db) (limit : Int) (bucket : Option Text) (outcome : Nat → DeleteOutcome)
    (job : CleanupRun α) : Prop where
  adds_up : ∀ summary, job.summary = some summary →
    summary.scanned = summary.deleted + summary.failed + summary.skipped
  deleted_once : ∀ x, (attempts outcome 0 job.calls).count (x, .deleted) ≤ 1
  reported_once : ∀ x, (deletions job.db).count x ≤ (deletions db).count x + 1
  counted_once : job.deleted = (reported outcome 0 job.calls).toFinset.card
  /-- A later job leaves what this one has reported, whatever it deletes besides. -/
  spared : job.raised = false → ∀ db' (store : Objects α) retention now bucket outcome',
    job.db.events <+: db'.events → ∀ x ∈ reported outcome 0 job.calls,
      x ∉ (cleanup_staging_sources db' store retention now bucket outcome').calls ∧
      (deletions (cleanup_staging_sources db' store retention now bucket outcome').db).count x =
        (deletions db').count x
  /-- After a job without failures, a second one with the same cutoff finds nothing to do. -/
  idle : job.raised = false → job.failed = 0 → ∀ db' (store : Objects α) retention now outcome',
    db'.events = job.db.events → db'.tasks = job.db.tasks → cutoff db' retention now = limit →
      (cleanup_staging_sources db' store retention now bucket outcome').calls = [] ∧
      (cleanup_staging_sources db' store retention now bucket outcome').db.events = db'.events

section Job
variable (db : Db) (store : Objects α) (retention : Int) (now : Option Time) (bucket : Option Text)
  (outcome : Nat → DeleteOutcome)

theorem job_reports : Reports outcome
    ⟨db, store, [], (cleanupCandidates db (cutoff db retention now)).length, 0, 0, 0, false⟩
    (cleanup_staging_sources db store retention now bucket outcome)
    (considered db (cutoff db retention now) bucket) :=
  loop_reports bucket _ _ outcome _ _ rfl

theorem job_reported :
    reported outcome 0 (cleanup_staging_sources db store retention now bucket outcome).calls =
      reported outcome 0 (considered db (cutoff db retention now) bucket) := by
  rw [(job_reports db store retention now bucket outcome).calls]
  exact reported_called

theorem job_deletions :
    deletions (cleanup_staging_sources db store retention now bucket outcome).db = deletions db ++
      reported outcome 0 (considered db (cutoff db retention now) bucket) := by
  obtain ⟨added, hevents, hadded⟩ := (job_reports db store retention now bucket outcome).events
  have hmap : added.filterMap (fun e => deletedSource e.payload) =
      (added.map (fun e => deletedSource e.payload)).filterMap id := by
    rw [List.filterMap_map]
    rfl
  unfold deletions
  rw [hevents, List.filterMap_append, hmap, hadded, List.filterMap_map]
  exact congrArg _ List.filterMap_some

theorem job_deleted : (cleanup_staging_sources db store retention now bucket outcome).deleted =
    (reported outcome 0 (considered db (cutoff db retention now) bucket)).length :=
  (job_reports db store retention now bucket outcome).deleted.trans (Nat.zero_add _)

/-- Without a failure every call is reported. -/
theorem job_all (hraised : (cleanup_staging_sources db store retention now bucket outcome).raised = false)
    (hfailed : (cleanup_staging_sources db store retention now bucket outcome).failed = 0) :
    reported outcome 0 (considered db (cutoff db retention now) bucket) =
      considered db (cutoff db retention now) bucket := by
  have h := (job_reports db store retention now bucket outcome).failed hraised
  rw [hfailed, Nat.zero_add, Nat.zero_add] at h
  exact reported_sublist.eq_of_length h

/-- An object that a job has reported is one that no later job considers. -/
theorem reported_skipped {db' : Db} (hx : x ∈ considered db limit bucket) (hin : x ∈ deletions db') :
    x ∉ considered db' limit' bucket' := by
  intro hx'
  obtain ⟨⟨hb, hk, _, _⟩, _⟩ := mem_targets.mp hx
  obtain ⟨⟨_, _, _, hfresh⟩, _⟩ := mem_targets.mp hx'
  refine hfresh (List.mem_filter.mpr ⟨hin, ?_⟩)
  simp [hb, hk]

/-- The events that a job appends stage nothing. -/
theorem staged_before (he : e ∈ (cleanup_staging_sources db store retention now bucket outcome).db.events)
    (hs : Stages e x) : e ∈ db.events := by
  obtain ⟨added, hevents, hadded⟩ := (job_reports db store retention now bucket outcome).events
  rw [hevents] at he
  rcases List.mem_append.mp he with hold | hnew
  · exact hold
  · have hmem : deletedSource e.payload ∈ added.map (fun e => deletedSource e.payload) :=
      List.mem_map_of_mem hnew
    rw [hadded] at hmem
    obtain ⟨y, _, hy⟩ := List.mem_map.mp hmem
    unfold Stages at hs
    cases hp : e.payload <;> simp [hp, stagedSource, deletedSource] at hs hy

theorem job_spared {db' : Db} {store' : Objects α}
    (hkept : (cleanup_staging_sources db store retention now bucket outcome).db.events <+: db'.events)
    (hx : x ∈ reported outcome 0
      (cleanup_staging_sources db store retention now bucket outcome).calls) :
    x ∉ (cleanup_staging_sources db' store' retention' now' bucket' outcome').calls ∧
    (deletions (cleanup_staging_sources db' store' retention' now' bucket' outcome').db).count x =
      (deletions db').count x := by
  rw [job_reported] at hx
  have hin : x ∈ deletions db' := by
    refine (hkept.sublist.filterMap _).subset ?_
    have := job_deletions db store retention now bucket outcome
    unfold deletions at this
    rw [this]
    exact List.mem_append_right _ hx
  have hskip : x ∉ considered db' (cutoff db' retention' now') bucket' :=
    reported_skipped db bucket (reported_sublist.subset hx) hin
  refine ⟨fun hcalled => ?_, ?_⟩
  · rw [(job_reports db' store' retention' now' bucket' outcome').calls] at hcalled
    exact hskip (called_sublist.subset hcalled)
  · rw [job_deletions, List.count_append,
      List.count_eq_zero_of_not_mem (fun h => hskip (reported_sublist.subset h)), Nat.add_zero]

theorem job_idle (hraised : (cleanup_staging_sources db store retention now bucket outcome).raised = false)
    (hfailed : (cleanup_staging_sources db store retention now bucket outcome).failed = 0)
    {db' : Db} {store' : Objects α}
    (hevents : db'.events = (cleanup_staging_sources db store retention now bucket outcome).db.events)
    (htasks : db'.tasks = (cleanup_staging_sources db store retention now bucket outcome).db.tasks)
    (hcutoff : cutoff db' retention' now' = cutoff db retention now) :
    (cleanup_staging_sources db' store' retention' now' bucket outcome').calls = [] ∧
    (cleanup_staging_sources db' store' retention' now' bucket outcome').db.events = db'.events := by
  have hkept := (job_reports db store retention now bucket outcome).tasks
  have hdeletions : deletions db' = deletions db ++ considered db (cutoff db retention now) bucket := by
    rw [← job_all db store retention now bucket outcome hraised hfailed,
      ← job_deletions db store retention now bucket outcome]
    unfold deletions
    rw [hevents]
  have hnone : considered db' (cutoff db' retention' now') bucket = [] := by
    refine List.eq_nil_iff_forall_not_mem.mpr (fun x hx => ?_)
    obtain ⟨⟨hb, hk, hbucket, hfresh⟩, e, he, hstages, ⟨task, htask, howner⟩, hold⟩ := mem_targets.mp hx
    rw [hevents] at he
    rw [htasks, hkept] at htask
    rw [hcutoff] at hold
    have hbefore : x ∉ deletions db' := by
      intro hin
      exact hfresh (List.mem_filter.mpr ⟨hin, by simp [hb, hk]⟩)
    rw [hdeletions, List.mem_append, not_or] at hbefore
    refine hbefore.2 (mem_targets.mpr ⟨⟨hb, hk, hbucket, fun h => ?_⟩, e, ?_, hstages,
      ⟨task, htask, howner⟩, hold⟩)
    · exact hbefore.1 (List.mem_filter.mp h).1
    · exact staged_before db store retention now bucket outcome he hstages
  have hsecond := job_reports db' store' retention' now' bucket outcome'
  rw [hnone] at hsecond
  obtain ⟨added, hadded, hsource⟩ := hsecond.events
  have hempty : added = [] := List.map_eq_nil_iff.mp hsource
  refine ⟨hsecond.calls, ?_⟩
  rw [hadded, hempty, List.append_nil]

/-- A job keeps its accounts exactly where no two of its calls that return are for one object
and both reported. -/
theorem cleanup_accounted : Accounted db (cutoff db retention now) bucket outcome
      (cleanup_staging_sources db store retention now bucket outcome) ↔
    ReportedOnce outcome (considered db (cutoff db retention now) bucket) := by
  rw [reported_once_iff]
  constructor
  · intro h
    refine List.nodup_iff_count_le_one.mpr (fun x => ?_)
    have honce := h.reported_once x
    rw [job_deletions, List.count_append] at honce
    omega
  · intro h
    have hcount := List.nodup_iff_count_le_one.mp h
    refine ⟨fun summary hs => ?_, fun x => ?_, fun x => ?_, ?_, ?_, ?_⟩
    · exact summary_adds_up bucket outcome db store retention now hs
    · rw [(job_reports db store retention now bucket outcome).calls]
      exact (count_deleted x).trans (hcount x)
    · have := hcount x
      rw [job_deletions, List.count_append]
      omega
    · rw [job_reported, job_deleted, List.toFinset_card_of_nodup h]
    · intro _ db' store' retention' now' bucket' outcome' hkept x hx
      exact job_spared db store retention now bucket outcome hkept hx
    · intro hraised hfailed db' store' retention' now' outcome' hevents htasks hcutoff
      exact job_idle db store retention now bucket outcome hraised hfailed hevents htasks hcutoff

end Job

/-- The archive is staged twice under one key, and both events are old enough. -/
theorem restaged_counted_twice :
    ¬ ∀ (cfg : Config) (s : State) (retention : Int) (now : Option Time) (bucket : Option Text)
      (outcome : Nat → DeleteOutcome), Run (step cfg) Free initial s →
      Accounted s.db (cutoff s.db retention now) bucket outcome
        (cleanup_staging_sources s.db s.staging retention now bucket outcome) := by
  intro h
  obtain ⟨s, hrun, hs⟩ := run_of_replay Free
    (p := fun s => (cleanup_staging_sources s.db s.staging 0 none none (fun _ => .deleted)).deleted ≠
      (reported (fun _ => .deleted) 0
        (cleanup_staging_sources s.db s.staging 0 none none (fun _ => .deleted)).calls).toFinset.card)
    Sample.cfg initial restaged (by decide +kernel)
  exact hs (h Sample.cfg s 0 none none _ hrun).counted_once

end FileDelivery.Proofs.CleanupAccounting
