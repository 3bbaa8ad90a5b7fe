import FileDelivery.Proofs.Retention

namespace FileDelivery.Proofs.NoLeak
open FileDelivery.Library FileDelivery.Library.Runs FileDelivery.Control FileDelivery.Bridge
open FileDelivery.Control.Staging FileDelivery.Proofs.Moves FileDelivery.Proofs.StagedKept
open FileDelivery.Proofs.StagingEvents FileDelivery.Proofs.Retention

/-- The object was staged, and its retention time is over. -/
def Due (db : Db) (limit : Int) (x : Text × Text) : Prop :=
  (∃ e ∈ db.events, Stages e x) ∧ Expired db limit x

/-- What a job without a bucket filter leaves behind where every delete succeeds: a due object
stays exactly where the job does not consider it. -/
theorem due_left_iff (db : Db) (store : Objects α) (retention : Int) (now : Option Time)
    (hx : Due db (cutoff db retention now) x) :
    (cleanup_staging_sources db store retention now none (fun _ => .deleted)).store x = none ↔
      Considered db none x ∨ store x = none := by
  obtain ⟨_, hgone, hkept⟩ := all_deleted db store retention now none
  obtain ⟨⟨e, he, hs⟩, hexpired⟩ := hx
  constructor
  · intro h
    by_cases hc : Considered db none x
    · exact .inl hc
    · rw [hkept x (fun hin => hc hin.1)] at h
      exact .inr h
  · intro h
    by_cases hc : Considered db none x
    · exact hgone x ⟨hc, e, he, hs, hexpired e he hs⟩
    · rw [hkept x (fun hin => hc hin.1)]
      exact h.resolve_left hc

/-- The place that a request stages at. -/
def stagingPlace (cfg : Config) (r : UploadRequest) : Text × Text :=
  (cfg.settings.staging_bucket_name, stagingKey r.task.id)

/-- The archive whose deletion a request reports next. -/
def reported : UploadStage → Option SourceRef
  | .deleted source => some source
  | _ => none

/-- No archive is staged under a key that is recorded as deleted, and a deletion is recorded
only while the object is gone. -/
def InOrder (cfg : Config) (s : State) : Action → Prop
  | .upload rid (.stage _) => ∀ r ∈ Rows.find? s.uploads rid,
      stagingPlace cfg r ∉ _list_deleted_source_keys s.db
  | .upload rid .recordDelete => ∀ r ∈ Rows.find? s.uploads rid, ∀ source ∈ reported r.stage,
      s.staging (place source) = none
  | .cleanup (.commit cid) => ∀ c ∈ Rows.find? s.cleanups cid, ∀ e ∈ c.events,
      ∀ x ∈ deletedSource e.2, s.staging x = none
  | _ => True

theorem mem_deleted_keys : x ∈ _list_deleted_source_keys db ↔
    (∃ e ∈ archiveEvents db, deletedSource e.payload = some x) ∧ x.1 ≠ [] ∧ x.2 ≠ [] := by
  have harchival : ∀ e : TaskEvent, deletedSource e.payload = some x → archival e.payload = true := by
    intro e he
    simp [archival, he]
  simp only [_list_deleted_source_keys, archiveEvents, List.mem_filter, List.mem_filterMap,
    decide_eq_true_eq]
  constructor
  · rintro ⟨⟨e, he, hd⟩, hnamed⟩
    exact ⟨⟨e, ⟨he, harchival e hd⟩, hd⟩, hnamed⟩
  · rintro ⟨⟨e, ⟨he, _⟩, hd⟩, hnamed⟩
    exact ⟨⟨e, he, hd⟩, hnamed⟩

/-- What one event adds to the keys recorded as deleted. -/
theorem deleted_keys_append (hx : x ∈ _list_deleted_source_keys (EventRepo.append db t payload)) :
    x ∈ _list_deleted_source_keys db ∨ deletedSource payload = some x := by
  obtain ⟨⟨e, he, hd⟩, hnamed⟩ := mem_deleted_keys.mp hx
  rcases mem_archiveEvents_append he with he | rfl
  · exact .inl (mem_deleted_keys.mpr ⟨⟨e, he, hd⟩, hnamed⟩)
  · exact .inr hd

/-- What is recorded as deleted is not there. -/
def RecordsGone (s : State) : Prop := ∀ x ∈ _list_deleted_source_keys s.db, s.staging x = none

/-- A step that puts no object there leaves a missing one missing. -/
theorem step_missing (hs : step cfg s a = some s') (hx : s.staging x = none) :
    s'.staging x = none ∨
      ∃ rid raised r, a = .upload rid (.stage raised) ∧ Rows.find? s.uploads rid = some r ∧
        x = stagingPlace cfg r := by
  have gone : ∀ bucket key : Text, s.staging.delete bucket key x = none := by
    intro bucket key
    by_cases he : x = (bucket, key)
    · rw [he]
      exact Objects.delete_self _
    · rw [Objects.delete_ne _ he, hx]
  cases step_moves hs with
  | requested r u next hr hmove =>
    generalize r.stage = stage at hmove
    cases hmove with
    | stored archive source harchive hsource =>
      subst hsource
      by_cases hplace : x = stagingPlace cfg r
      · exact .inr ⟨_, _, r, rfl, hr, hplace⟩
      · exact .inl ((Objects.put_ne _ hplace).trans hx)
    | deleted => exact .inl (gone _ _)
    | _ => exact .inl hx
  | worked hmove => cases hmove <;> exact .inl hx
  | cleaned hmove =>
    cases hmove with
    | deleted c event rest target hc hcand htarget f => exact .inl (gone target.1 target.2)
    | _ => exact .inl hx
  | _ => exact .inl hx

theorem step_recordsGone (hok : InOrder cfg s a) (hs : step cfg s a = some s')
    (h : RecordsGone s) : RecordsGone s' := by
  -- What was recorded before the step.
  have old : ∀ x ∈ _list_deleted_source_keys s.db, s'.staging x = none := by
    intro x hx
    rcases step_missing hs (h x hx) with hgone | ⟨rid, raised, r, rfl, hr, rfl⟩
    · exact hgone
    · exact absurd hx (hok r hr)
  intro x hx
  cases step_told hs with
  | nothing hsame =>
    rw [mem_deleted_keys, hsame, ← mem_deleted_keys] at hx
    exact old x hx
  | staged r items source hr hstage hdb =>
    rw [hdb] at hx
    rcases deleted_keys_append hx with hx | hd
    · exact old x hx
    · cases hd
  | compensated r source hr hstage hdb hstore =>
    rw [hdb] at hx
    rcases deleted_keys_append hx with hx | hd
    · exact old x hx
    · cases hd
      rw [hstore]
      exact hok r hr source (by rw [hstage]; rfl)
  | cleaned c hc hdb hstore =>
    obtain ⟨⟨e, he, hd⟩, hnamed⟩ := mem_deleted_keys.mp hx
    rw [hdb] at he
    rcases appends_archives c.events s.db e he with he | he
    · exact old x (mem_deleted_keys.mpr ⟨⟨e, he, hd⟩, hnamed⟩)
    · rw [hstore]
      exact hok c hc _ he x hd

theorem records_gone (h : Run (step cfg) (InOrder cfg) initial s) : RecordsGone s :=
  h.invariant RecordsGone (by simp [RecordsGone, _list_deleted_source_keys, initial])
    (fun _ _ _ hinv hok hs => step_recordsGone hok hs hinv)

/-- A job whose deletes succeed leaves no due object. -/
def LeavesNoneDue (s : State) (retention : Int) (now : Option Time) : Prop :=
  ∀ x, Due s.db (cutoff s.db retention now) x →
    (cleanup_staging_sources s.db s.staging retention now none (fun _ => .deleted)).store x = none

/-- In a reachable state a due object has a bucket and a key. -/
theorem due_considered (hb : cfg.settings.staging_bucket_name ≠ [])
    (h : Run (step cfg) ok initial s) (hx : Due s.db limit x) :
    Considered s.db none x ↔ x ∉ _list_deleted_source_keys s.db := by
  obtain ⟨e, he, hs⟩ := hx.1
  have hplace := stages_named (reachable_named h) he hs
  constructor
  · intro hc
    exact hc.2.2.2
  · intro hrecorded
    subst hplace
    exact ⟨hb, stagingKey_ne_nil _, by simp, hrecorded⟩

theorem leaves_none_due_iff (hb : cfg.settings.staging_bucket_name ≠ [])
    (h : Run (step cfg) ok initial s) (retention : Int) (now : Option Time) :
    LeavesNoneDue s retention now ↔ ∀ x ∈ _list_deleted_source_keys s.db,
      Due s.db (cutoff s.db retention now) x → s.staging x = none := by
  constructor
  · intro hleaves x hrecorded hx
    have hgone := (due_left_iff s.db s.staging retention now hx).mp (hleaves x hx)
    rw [due_considered hb h hx] at hgone
    exact hgone.resolve_left (fun hn => hn hrecorded)
  · intro hgone x hx
    rw [due_left_iff s.db s.staging retention now hx, due_considered hb h hx]
    by_cases hrecorded : x ∈ _list_deleted_source_keys s.db
    · exact .inr (hgone x hrecorded hx)
    · exact .inl hrecorded

/-- In any state of the system a job leaves no due object exactly where none that is there
is recorded as deleted; runs that stage and record in order reach such states only. -/
theorem due_objects_deleted (hb : cfg.settings.staging_bucket_name ≠ []) :
    (∀ s, Run (step cfg) Free initial s → ∀ retention now, LeavesNoneDue s retention now ↔
      ∀ x ∈ _list_deleted_source_keys s.db, Due s.db (cutoff s.db retention now) x →
        s.staging x = none) ∧
    ∀ s, Run (step cfg) (InOrder cfg) initial s → ∀ retention now, LeavesNoneDue s retention now := by
  constructor
  · intro s h retention now
    exact leaves_none_due_iff hb h retention now
  · intro s h retention now
    rw [leaves_none_due_iff hb h]
    exact fun x hrecorded _ => records_gone h x hrecorded

instance (cfg : Config) (s : State) : (a : Action) → Decidable (InOrder cfg s a)
  | .upload rid (.stage _) => inferInstanceAs (Decidable (∀ r ∈ Rows.find? s.uploads rid,
      stagingPlace cfg r ∉ _list_deleted_source_keys s.db))
  | .upload rid .recordDelete => inferInstanceAs (Decidable (∀ r ∈ Rows.find? s.uploads rid,
      ∀ source ∈ reported r.stage, s.staging (place source) = none))
  | .cleanup (.commit cid) => inferInstanceAs (Decidable (∀ c ∈ Rows.find? s.cleanups cid,
      ∀ e ∈ c.events, ∀ x ∈ deletedSource e.2, s.staging x = none))
  | .upload _ .acquire | .upload _ .list | .upload _ .record | .upload _ .publish
  | .upload _ (.publishRaises _) | .upload _ .write | .upload _ .commit | .upload _ .raise
  | .upload _ .delete | .upload _ .release | .upload _ .crash => .isTrue trivial
  | .cleanup (.read _ _) | .cleanup (.delete _ _) | .cleanup (.crash _) => .isTrue trivial
  | .create _ _ _ _ | .classify _ _ _ | .read _ _ _ | .write _ | .uploadRead _ _ | .worker _
  | .apply _ | .workspace _ _ _ _ | .expire _ | .tick => .isTrue trivial

instance (db : Db) (limit : Int) (x : Text × Text) : Decidable (Due db limit x) :=
  inferInstanceAs (Decidable (_ ∧ _))

/-- A delivered task is cleaned up; another one is delivered after that. -/
def cleanedOnce : List Action :=
  Sample.confirmed 0 0 [("acme/a.txt", [1])] ++ Sample.upload 0 1 ++ Sample.run 2 0 [none] ++
    [.apply 0, .tick] ++ [CleanupAction.read 1 none, .delete 3 true, .commit 3].map .cleanup ++
    Sample.confirmed 10 4 [("acme/b.txt", [2])] ++ Sample.upload 10 5 ++ Sample.run 6 1 [none] ++
    [.apply 1]

/-- The next job finds one object due that is there, and one that is gone. -/
theorem due_objects_deleted_run : ∃ s : State,
    (Due s.db (cutoff s.db 0 none) ("staging".toList, stagingKey 10) ∧
      s.staging ("staging".toList, stagingKey 10) ≠ none) ∧
    (Due s.db (cutoff s.db 0 none) ("staging".toList, stagingKey 0) ∧
      ("staging".toList, stagingKey 0) ∈ _list_deleted_source_keys s.db) ∧ LeavesNoneDue s 0 none := by
  obtain ⟨s, hrun, hthere, hgone⟩ := run_of_replay (InOrder Sample.cfg)
    (p := fun s => (Due s.db (cutoff s.db 0 none) ("staging".toList, stagingKey 10) ∧
        s.staging ("staging".toList, stagingKey 10) ≠ none) ∧
      Due s.db (cutoff s.db 0 none) ("staging".toList, stagingKey 0) ∧
        ("staging".toList, stagingKey 0) ∈ _list_deleted_source_keys s.db)
    Sample.cfg initial cleanedOnce (by decide +kernel)
  exact ⟨s, hthere, hgone, (due_objects_deleted (by decide)).2 s hrun 0 none⟩

/-- A publish fails and is compensated; the next request stages the archive again, and the
task is delivered. -/
def compensatedOnce : List Action :=
  Sample.confirmed 0 0 [("acme/a.txt", [1])] ++ (Sample.upload 0 1).take 5 ++
    [.upload 1 (.publishRaises false), .upload 1 .delete, .upload 1 .recordDelete,
      .upload 1 .release] ++ Sample.upload 0 2 ++ Sample.run 3 0 [none] ++ [.apply 0]

/-- The object counts as deleted for good: no job considers it again. -/
theorem restaged_object_leaks :
    ¬ ∀ (cfg : Config) (s : State) (retention : Int) (now : Option Time),
      Run (step cfg) Free initial s → LeavesNoneDue s retention now := by
  intro h
  obtain ⟨s, hrun, hdue, hleft⟩ := run_of_replay Free
    (p := fun s => Due s.db (cutoff s.db 0 none) ("staging".toList, stagingKey 0) ∧
      (cleanup_staging_sources s.db s.staging 0 none none (fun _ => .deleted)).store
        ("staging".toList, stagingKey 0) ≠ none)
    Sample.cfg initial compensatedOnce (by decide +kernel)
  exact hleft (h Sample.cfg s 0 none hrun _ hdue)

end FileDelivery.Proofs.NoLeak
