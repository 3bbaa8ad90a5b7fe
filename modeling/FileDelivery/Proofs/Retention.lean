import FileDelivery.Proofs.CleanupRuns

namespace FileDelivery.Proofs.Retention
open FileDelivery.Library FileDelivery.Library.Runs FileDelivery.Control FileDelivery.Bridge
open FileDelivery.Control.Staging FileDelivery.Proofs.StagedKept FileDelivery.Proofs.CleanupRuns

/-- The event tells that the object was staged. -/
def Stages (e : TaskEvent) (x : Text × Text) : Prop := (stagedSource e.payload).map place = some x

def Terminal (db : Db) (t : Nat) : Prop :=
  ∃ task ∈ db.tasks, task.id = t ∧ terminal task.status = true

/-- An event of a task in a terminal status, created at the cutoff or before. -/
def Old (db : Db) (limit : Int) (e : TaskEvent) : Prop :=
  Terminal db e.task_id ∧ (e.created_at : Int) ≤ limit

/-- The owner of the object is in a terminal status, and the most recent staging event of
it, hence each of them, was created at the cutoff or before. -/
def Expired (db : Db) (limit : Int) (x : Text × Text) : Prop :=
  ∀ e ∈ db.events, Stages e x → Old db limit e

/-- The object is one that a job does not skip. -/
def Considered (db : Db) (bucket : Option Text) (x : Text × Text) : Prop :=
  x.1 ≠ [] ∧ x.2 ≠ [] ∧ (∀ name ∈ bucket, name = x.1) ∧ x ∉ _list_deleted_source_keys db

/-- No object that a job considers was staged both long ago, by a task that is done now,
and lately or by a task that is not. -/
def NotRestaged (db : Db) (limit : Int) (bucket : Option Text) : Prop :=
  ∀ e ∈ db.events, ∀ f ∈ db.events, ∀ x, Considered db bucket x → Stages e x → Stages f x →
    Old db limit e → Old db limit f

instance (e : TaskEvent) (x : Text × Text) : Decidable (Stages e x) :=
  inferInstanceAs (Decidable (_ = _))

instance (db : Db) (t : Nat) : Decidable (Terminal db t) :=
  inferInstanceAs (Decidable (∃ task ∈ db.tasks, task.id = t ∧ terminal task.status = true))

instance (db : Db) (limit : Int) (e : TaskEvent) : Decidable (Old db limit e) :=
  inferInstanceAs (Decidable (_ ∧ _))

instance (db : Db) (limit : Int) (x : Text × Text) : Decidable (Expired db limit x) :=
  inferInstanceAs (Decidable (∀ e ∈ db.events, Stages e x → Old db limit e))

theorem mem_candidates :
    e ∈ cleanupCandidates db limit ↔ e ∈ db.events ∧ (∃ x, Stages e x) ∧ Old db limit e := by
  have hstaged : (stagedSource e.payload).isSome = true ↔ ∃ x, Stages e x := by
    unfold Stages
    cases stagedSource e.payload <;> simp
  have hterminal : db.tasks.any (fun t => t.id == e.task_id && terminal t.status) = true ↔
      Terminal db e.task_id := by
    simp [Terminal]
  simp only [cleanupCandidates, List.mem_insertionSort, List.mem_filter, Bool.and_eq_true, hstaged,
    hterminal, decide_eq_true_eq, Old, and_assoc]

theorem target_iff : cleanupTarget bucket (_list_deleted_source_keys db) e = some x ↔
    Stages e x ∧ Considered db bucket x := by
  unfold cleanupTarget Stages
  cases stagedSource e.payload with
  | none => simp
  | some source =>
    simp only [Option.bind_some, Option.map_some, Option.some.injEq]
    constructor
    · intro h
      split at h
      · cases h
      · rename_i hnamed
        split at h
        · cases h
        · rename_i hbucket
          split at h
          · cases h
          · rename_i hkeys
            cases h
            refine ⟨rfl, fun hb => hnamed (.inl hb), fun hk => hnamed (.inr hk), ?_, hkeys⟩
            intro name hname
            by_contra hne
            exact hbucket ((Option.any_eq_true _ _).mpr ⟨name, hname, by simpa using hne⟩)
    · intro h
      obtain ⟨rfl, hb, hk, hbucket, hkeys⟩ := h
      have hnamed : ¬(source.bucket = [] ∨ source.key = []) := by
        rintro (h | h)
        · exact hb h
        · exact hk h
      have hany : ¬bucket.any (· ≠ source.bucket) = true := by
        intro h
        obtain ⟨name, hname, hne⟩ := (Option.any_eq_true _ _).mp h
        exact of_decide_eq_true hne (hbucket name hname)
      rw [if_neg hnamed, if_neg hany, if_neg hkeys]

theorem mem_targets : x ∈ targets bucket (_list_deleted_source_keys db) (cleanupCandidates db limit) ↔
    Considered db bucket x ∧ ∃ e ∈ db.events, Stages e x ∧ Old db limit e := by
  simp only [targets, List.mem_filterMap, mem_candidates, target_iff]
  constructor
  · intro h
    obtain ⟨e, ⟨he, _, hold⟩, hs, hc⟩ := h
    exact ⟨hc, e, he, hs, hold⟩
  · intro h
    obtain ⟨hc, e, he, hs, hold⟩ := h
    exact ⟨e, ⟨he, ⟨x, hs⟩, hold⟩, hs, hc⟩

section Jobs
variable (db : Db) (store : Objects α) (retention : Int) (now : Option Time) (bucket : Option Text)

/-- An object that a job calls for has a staging event that is old. -/
theorem called_old (outcome : Nat → DeleteOutcome)
    (hx : x ∈ (cleanup_staging_sources db store retention now bucket outcome).calls) :
    Considered db bucket x ∧ ∃ e ∈ db.events, Stages e x ∧ Old db (cutoff db retention now) e := by
  obtain ⟨done, hsub, hcalls⟩ := loop_calls bucket (_list_deleted_source_keys db) (jobNow db now)
    outcome (cleanupCandidates db (cutoff db retention now))
    ⟨db, store, [], (cleanupCandidates db (cutoff db retention now)).length, 0, 0, 0, false⟩
  unfold cleanup_staging_sources at hx
  rw [hcalls] at hx
  exact mem_targets.mp (hsub.subset hx)

/-- A job whose deletes succeed: what it calls for, and what is left. -/
theorem all_deleted :
    let job := cleanup_staging_sources db store retention now bucket (fun _ => .deleted)
    let gone := fun x => Considered db bucket x ∧
      ∃ e ∈ db.events, Stages e x ∧ Old db (cutoff db retention now) e
    (∀ x, x ∈ job.calls ↔ gone x) ∧ (∀ x, gone x → job.store x = none) ∧
      ∀ x, ¬gone x → job.store x = store x := by
  obtain ⟨hcalls, hstore⟩ := loop_deletes bucket (_list_deleted_source_keys db) (jobNow db now)
    (fun _ => .deleted) (cleanupCandidates db (cutoff db retention now))
    ⟨db, store, [], (cleanupCandidates db (cutoff db retention now)).length, 0, 0, 0, false⟩ rfl
    (fun _ => rfl)
  refine ⟨?_, ?_, ?_⟩
  · intro x
    unfold cleanup_staging_sources
    rw [hcalls]
    exact mem_targets
  · intro x hx
    exact (hstore x).trans (if_pos (mem_targets.mpr hx))
  · intro x hx
    exact (hstore x).trans (if_neg (fun hin => hx (mem_targets.mp hin)))

/-- A job deletes expired objects only, whatever its calls return, exactly where no object
that it considers has been staged again. -/
theorem deletes_expired_iff :
    (∀ outcome, ∀ x ∈ (cleanup_staging_sources db store retention now bucket outcome).calls,
      Expired db (cutoff db retention now) x) ↔
    NotRestaged db (cutoff db retention now) bucket := by
  constructor
  · intro h e he f hf x hc hse hsf hold
    have hcalled := (all_deleted db store retention now bucket).1 x |>.mpr ⟨hc, e, he, hse, hold⟩
    exact h _ x hcalled f hf hsf
  · intro h outcome x hx f hf hsf
    obtain ⟨hc, e, he, hse, hold⟩ := called_old db store retention now bucket outcome hx
    exact h e he f hf x hc hse hsf hold

/-- What a job does not call for stays. -/
theorem uncalled_kept (outcome : Nat → DeleteOutcome)
    (hx : x ∉ (cleanup_staging_sources db store retention now bucket outcome).calls) :
    (cleanup_staging_sources db store retention now bucket outcome).store x = store x :=
  loop_store bucket (_list_deleted_source_keys db) (jobNow db now) outcome _ _ hx

end Jobs

theorem stages_named (h : StagingEvents.Named cfg s) (he : e ∈ s.db.events) (hs : Stages e x) :
    x = (cfg.settings.staging_bucket_name, stagingKey e.task_id) := by
  obtain ⟨source, hsource, rfl⟩ := Option.map_eq_some_iff.mp hs
  exact h e (StagingEvents.mem_archiveEvents_staged he hsource) source hsource

/-- In the system an object has one owner, and a job calls for it only when that is done:
what can fail is the age. -/
theorem called_terminal (h : Run (step cfg) ok initial s)
    (hx : x ∈ (cleanup_staging_sources s.db s.staging retention now bucket outcome).calls)
    (he : e ∈ s.db.events) (hs : Stages e x) : Terminal s.db e.task_id := by
  obtain ⟨_, f, hf, hstages, hterminal, _⟩ :=
    called_old s.db s.staging retention now bucket outcome hx
  have hnamed := StagingEvents.reachable_named h
  have hkey := (stages_named hnamed he hs).symm.trans (stages_named hnamed hf hstages)
  rw [stagingKey_injective (Prod.mk.inj hkey).2]
  exact hterminal

/-- A delivery fails, time passes, and a retry stages the archive again and succeeds. -/
def restaged : List Action :=
  Sample.confirmed 0 0 [("acme/a.txt", [1])] ++ Sample.upload 0 1 ++
    Sample.run 2 0 [some (.sink "timeout" false)] ++ [.apply 0, .tick, .tick] ++ Sample.retry 0 3 ++
    Sample.upload 0 4 ++ Sample.run 5 1 [none] ++ [.apply 1]

/-- The event of the first staging is old enough; the object is that of the second. -/
theorem restaged_object_deleted :
    ¬ ∀ (cfg : Config) (s : State) (retention : Int) (now : Option Time) (bucket : Option Text)
      (outcome : Nat → DeleteOutcome), Run (step cfg) Free initial s →
      ∀ x ∈ (cleanup_staging_sources s.db s.staging retention now bucket outcome).calls,
        Expired s.db (cutoff s.db retention now) x := by
  intro h
  obtain ⟨s, hrun, hs⟩ := run_of_replay Free
    (p := fun s => ∃ x ∈ (cleanup_staging_sources s.db s.staging 1 none none (fun _ => .deleted)).calls,
      ∃ e ∈ s.db.events, Stages e x ∧ ¬(e.created_at : Int) ≤ cutoff s.db 1 none)
    Sample.cfg initial restaged (by decide +kernel)
  obtain ⟨x, hx, e, he, hstages, hyoung⟩ := hs
  exact hyoung (h Sample.cfg s 1 none none _ hrun x hx e he hstages).2

end FileDelivery.Proofs.Retention
