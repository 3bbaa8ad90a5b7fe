import FileDelivery.Bridge.Replay
import FileDelivery.Proofs.Flow

namespace FileDelivery.Proofs.StagedKept
open FileDelivery.Library FileDelivery.Library.Runs FileDelivery.Control FileDelivery.Bridge
open FileDelivery.Proofs.Moves FileDelivery.Proofs.Effects FileDelivery.Proofs.Tables
open FileDelivery.Proofs.Flow

abbrev place (source : SourceRef) : Text × Text := (source.bucket, source.key)

/-- The archive that a request has staged and not published yet. -/
def heldSource : UploadStage → Option SourceRef
  | .staged _ source => some source
  | .ready _ source => source
  | _ => none

/-- The archive that a request is about to delete. -/
def compensated : UploadStage → Option SourceRef
  | .compensating source => some source
  | _ => none

/-- The place that a cleanup job deletes next. -/
def nextTarget (c : Cleanup) : Option (Text × Text) :=
  c.candidates.head?.bind (Staging.cleanupTarget c.bucket_name c.deleted_keys)

/-- A message that no worker has acked names this place, or a request that is yet to
publish. -/
def Needed (s : State) (p : Text × Text) : Prop :=
  (∃ mid ∈ List.range s.messages.length, mid ∉ s.acked ∧
    (s.messages[mid]?.bind (·.source)).any (place · == p)) ∨
  ∃ r ∈ s.uploads, (heldSource r.stage).any (place · == p)

instance (s : State) (p : Text × Text) : Decidable (Needed s p) :=
  inferInstanceAs (Decidable (_ ∨ _))

/-- Compensation and cleanup delete no archive that is still needed. -/
def DeletesUnneeded (s : State) : Action → Prop
  | .upload rid .delete => ∀ r ∈ Rows.find? s.uploads rid, ∀ source ∈ compensated r.stage,
      ¬Needed s (place source)
  | .cleanup (.delete cid true) => ∀ c ∈ Rows.find? s.cleanups cid, ∀ p ∈ nextTarget c, ¬Needed s p
  | _ => True

/-- The staged object holds the archive of the task's directory. -/
def Stored (s : State) (dir : Text) (source : SourceRef) : Prop :=
  ∃ archive, (s.dirs dir).bind (·.archive) = some archive ∧ s.staging (place source) = some archive

/-- What is needed is there. -/
structure Kept (s : State) : Prop where
  held : ∀ r ∈ s.uploads, ∀ source ∈ heldSource r.stage, Stored s r.task.temp_dir source
  messages : ∀ mid m, s.messages[mid]? = some m → mid ∉ s.acked →
    ∀ source ∈ m.source, Stored s m.temp_dir source

theorem Stored.grow (g : Grows s s') (hk : KnownTask s.db t owner dir)
    (hs : s'.staging (place source) = s.staging (place source)) (h : Stored s dir source) :
    Stored s' dir source := by
  obtain ⟨archive, ha, hst⟩ := h
  exact ⟨archive, by rw [g.dirs hk, ha], hs.trans hst⟩

theorem held_staged (h : RequestFlow cfg s r) (hs : source ∈ heldSource r.stage) :
    Staged cfg s r.task.id r.task.temp_dir source := by
  have hstage := h.stage
  generalize r.stage = stage at hs hstage
  cases stage
  case staged items held =>
    cases hs
    exact hstage.2
  case ready items held => exact hstage.2 source hs
  all_goals cases hs

theorem held_needed (hr : r ∈ s.uploads) (hs : source ∈ heldSource r.stage) :
    Needed s (place source) :=
  .inr ⟨r, hr, (Option.any_eq_true _ _).mpr ⟨source, hs, by simp⟩⟩

theorem unacked_needed (hm : s.messages[mid]? = some m) (ha : mid ∉ s.acked)
    (hs : source ∈ m.source) : Needed s (place source) := by
  refine .inl ⟨mid, List.mem_range.mpr (List.getElem?_eq_some_iff.mp hm).1, ha, ?_⟩
  rw [hm, Option.bind_some]
  exact (Option.any_eq_true _ _).mpr ⟨source, hs, by simp⟩

/-- Every round of a task stages the same archive. -/
theorem stored_again (hw : Wellformed cfg s.db) (hk : KnownTask s.db t owner dir)
    (hk' : KnownTask s.db t' owner' dir') (hsource : Staged cfg s t dir source)
    (hput : (s.dirs dir').bind (·.archive) = some archive)
    (hnew : new = Staging.sourceRef cfg.py cfg.settings.staging_bucket_name t' archive)
    (h : Stored s dir source) (hs : s'.staging = s.staging.put new.bucket new.key archive)
    (hd : s'.dirs = s.dirs) : Stored s' dir source := by
  obtain ⟨own, hown, rfl⟩ := hsource
  subst hnew
  by_cases ht : t = t'
  · subst ht
    obtain ⟨_, rfl⟩ := known_unique hw hk hk'
    refine ⟨archive, by rw [hd, hput], ?_⟩
    rw [hs]
    exact Objects.put_self _
  · obtain ⟨a, ha, hst⟩ := h
    refine ⟨a, by rw [hd, ha], ?_⟩
    rw [hs, Objects.put_ne, hst]
    intro he
    exact ht (Staging.stagingKey_injective (Prod.mk.inj he).2)

/-- A step that deletes only what is not needed leaves what is needed in place. -/
theorem step_stored (hi : Invariant cfg s) (hok : DeletesUnneeded s a)
    (hs : step cfg s a = some s') (hk : KnownTask s.db t owner dir)
    (hsource : Staged cfg s t dir source) (hneed : Needed s (place source))
    (h : Stored s dir source) : Stored s' dir source := by
  have g := step_grows hi.tables hs
  have same : s'.staging = s.staging → Stored s' dir source :=
    fun he => h.grow g hk (by rw [he])
  have gone : ∀ p, ¬Needed s p → s'.staging = s.staging.delete p.1 p.2 → Stored s' dir source := by
    intro p hp he
    refine h.grow g hk ?_
    rw [he, Objects.delete_ne]
    intro hplace
    have : place source = p := hplace
    exact hp (this ▸ hneed)
  cases step_moves hs with
  | requested r u next hfind hmove =>
    have hknown := (hi.requests.each r (Rows.find_mem hfind)).known
    generalize hstage : r.stage = stage at hmove
    cases hmove with
    | stored archive new harchive hnew =>
      exact stored_again hi.tables hk hknown hsource harchive hnew h rfl rfl
    | deleted =>
      rename_i old
      exact gone (place old) (hok r hfind old (by rw [hstage]; rfl)) rfl
    | _ => exact same rfl
  | worked hmove => cases hmove <;> exact same rfl
  | cleaned hmove =>
    cases hmove with
    | deleted c event rest target hc hcand htarget f =>
      refine gone target (hok c hc target ?_) rfl
      simp [nextTarget, hcand, htarget]
    | _ => exact same rfl
  | _ => exact same rfl

/-- What a request holds after its move it held before, or has just stored. -/
theorem move_held (h : UploadMove cfg s r stage action u (some next))
    (hs : source ∈ heldSource next) : source ∈ heldSource stage ∨
      ∃ archive, (s.dirs r.task.temp_dir).bind (·.archive) = some archive ∧
        u.staging (place source) = some archive ∧ u.dirs = s.dirs := by
  generalize hnext : some next = n at h
  cases h
  case stored items raised archive held harchive hheld =>
    cases raised
    · cases hnext
      cases hs
      exact .inr ⟨archive, harchive, Objects.put_self _, rfl⟩
    · cases hnext
      cases hs
  case recorded =>
    cases hnext
    exact .inl hs
  case sent | unsent =>
    have := afterException_handler hnext
    cases next <;> first | exact False.elim this | cases hs
  case raised =>
    have := raisedTo_handler hnext
    cases next <;> first | exact False.elim this | cases hs
  all_goals (cases hnext; try cases hs)

/-- A message after a move was there before, or carries what the request held. -/
theorem move_messages {mid : Nat} {m : DeliveryTaskMessage}
    (h : UploadMove cfg s r stage action u next) (hm : u.messages[mid]? = some m) : s.messages[mid]? = some m ∨
      m.temp_dir = r.task.temp_dir ∧ m.source = heldSource stage := by
  have new : ∀ items source, (s.messages ++ [r.message cfg s.db items source])[mid]? = some m →
      s.messages[mid]? = some m ∨ m.temp_dir = r.task.temp_dir ∧ m.source = source := by
    intro items source he
    rw [List.getElem?_append] at he
    split at he
    · exact .inl he
    · rw [List.getElem?_singleton] at he
      split at he
      · cases he
        exact .inr ⟨rfl, rfl⟩
      · cases he
  cases h
  case published items source | sent items source => exact new items source hm
  all_goals exact .inl hm

theorem step_kept (hi : Invariant cfg s) (hok : DeletesUnneeded s a) (hs : step cfg s a = some s')
    (h : Kept s) : Kept s' := by
  have held : ∀ r ∈ s.uploads, ∀ source ∈ heldSource r.stage, Stored s' r.task.temp_dir source := by
    intro r hr source hsource
    have hflow := hi.requests.each r hr
    exact step_stored hi hok hs hflow.known (held_staged hflow hsource) (held_needed hr hsource)
      (h.held r hr source hsource)
  have messages : ∀ mid m, s.messages[mid]? = some m → mid ∉ s.acked →
      ∀ source ∈ m.source, Stored s' m.temp_dir source := by
    intro mid m hm ha source hsource
    have hflow := hi.messages m (List.mem_of_getElem? hm)
    obtain ⟨owner, hk⟩ := hflow.known
    exact step_stored hi hok hs hk (hflow.source source hsource) (unacked_needed hm ha hsource)
      (h.messages mid m hm ha source hsource)
  cases step_moves hs with
  | began task _ =>
    refine ⟨?_, messages⟩
    intro r hr source hsource
    rcases List.mem_append.mp hr with hr | hr
    · exact held r hr source hsource
    · rw [List.mem_singleton.mp hr] at hsource
      cases hsource
  | requested r u next hfind hmove =>
    have hr := Rows.find_mem hfind
    obtain ⟨_, _, _, _, hacked, _⟩ := move_frame hmove
    refine ⟨?_, ?_⟩
    · intro q hq source hsource
      rcases (moved_uploads hi.requests.rids hfind next).2 q hq with ⟨stage, rfl, rfl⟩ | ⟨hq, _⟩
      · rcases move_held hmove hsource with hold | ⟨archive, harchive, hstored, hdirs⟩
        · exact held r hr source hold
        · exact ⟨archive, by rw [← harchive, ← hdirs], hstored⟩
      · exact held q hq source hsource
    · intro mid m hm ha source hsource
      rcases move_messages hmove hm with hold | ⟨hdir, hheld⟩
      · exact messages mid m hold (hacked ▸ ha) source hsource
      · rw [hdir]
        exact held r hr source (hheld ▸ hsource)
  | worked hmove =>
    cases hmove with
    | acked run hrun hdone =>
      exact ⟨held, fun mid m hm ha => messages mid m hm (fun hin => ha (List.mem_cons_of_mem _ hin))⟩
    | _ => exact ⟨held, messages⟩
  | cleaned hmove => cases hmove <;> exact ⟨held, messages⟩
  | _ => exact ⟨held, messages⟩

/-- The staged object of each message that is not processed and acked exists, and it is
the archive that its reference describes and that the task was created with. -/
def SourcesKept (cfg : Config) (s : State) : Prop :=
  ∀ mid m, s.messages[mid]? = some m → mid ∉ s.acked → ∀ source ∈ m.source, ∃ archive,
    s.staging (place source) = some archive ∧
    source = Staging.sourceRef cfg.py cfg.settings.staging_bucket_name m.task_id archive ∧
    (s.dirs m.temp_dir).bind (·.archive) = some archive

/-- Where compensation and cleanup delete only what is not needed, no message that is
still to be processed loses its archive. -/
theorem sources_kept (h : Run (step cfg) DeletesUnneeded initial s) : SourcesKept cfg s := by
  have hkept : Kept s :=
    h.invariant_given (fun s => Kept s) (fun s => Invariant cfg s) (fun _ => reachable_flow)
      ⟨by simp [initial], by simp [initial]⟩ (fun _ _ _ hi hinv hok hs => step_kept hi hok hs hinv)
  intro mid m hm ha source hsource
  obtain ⟨archive, hdir, hstored⟩ := hkept.messages mid m hm ha source hsource
  obtain ⟨staged, hdir', href⟩ :=
    ((reachable_flow h).messages m (List.mem_of_getElem? hm)).source source hsource
  cases hdir.symm.trans hdir'
  exact ⟨archive, hstored, href, hdir⟩

instance (s : State) : (a : Action) → Decidable (DeletesUnneeded s a)
  | .upload rid .delete => inferInstanceAs (Decidable (∀ r ∈ Rows.find? s.uploads rid,
      ∀ source ∈ compensated r.stage, ¬Needed s (place source)))
  | .cleanup (.delete cid true) => inferInstanceAs (Decidable (∀ c ∈ Rows.find? s.cleanups cid,
      ∀ p ∈ nextTarget c, ¬Needed s p))
  | .upload _ .acquire | .upload _ .list | .upload _ (.stage _) | .upload _ .record
  | .upload _ .publish | .upload _ (.publishRaises _) | .upload _ .write | .upload _ .commit
  | .upload _ .raise | .upload _ .recordDelete | .upload _ .release | .upload _ .crash => .isTrue trivial
  | .cleanup (.read _ _) | .cleanup (.delete _ false) | .cleanup (.commit _) | .cleanup (.crash _) =>
    .isTrue trivial
  | .create _ _ _ _ | .classify _ _ _ | .read _ _ _ | .write _ | .uploadRead _ _ | .worker _
  | .apply _ | .workspace _ _ _ _ | .expire _ | .tick => .isTrue trivial

/-- The source of the first message, while it is not acked. -/
def pendingSource (s : State) : Option SourceRef :=
  if 0 ∈ s.acked then none else s.messages[0]?.bind (·.source)

/-- A publish fails and is compensated; the retried request gets through. -/
theorem sources_kept_run : ∃ s : State, (pendingSource s).isSome ∧ SourcesKept Sample.cfg s := by
  obtain ⟨s, h, hp⟩ := run_of_replay DeletesUnneeded (p := fun s => (pendingSource s).isSome)
    Sample.cfg initial (Sample.confirmed 0 0 [("acme/a.txt", [1])] ++ (Sample.upload 0 1).take 5 ++
      [.upload 1 (.publishRaises false), .upload 1 .delete, .upload 1 .recordDelete,
        .upload 1 .release] ++ Sample.upload 0 2) (by decide +kernel)
  exact ⟨s, hp, sources_kept h⟩

/-- Two requests have read the status. The first publishes and ends; the publish of the
second fails, and its compensation deletes the archive of the first. -/
theorem compensation_deletes_needed_archive :
    ¬ ∀ (cfg : Config) (s : State), Run (step cfg) Free initial s → SourcesKept cfg s := by
  intro h
  obtain ⟨s, hrun, hp⟩ := run_of_replay Free
    (p := fun s => (pendingSource s).any (fun source => s.staging (place source) == none)) Sample.cfg
    initial (Sample.confirmed 0 0 [("acme/a.txt", [1])] ++ (Sample.upload 0 1).take 1 ++
      (Sample.upload 0 2).take 1 ++ (Sample.upload 0 1).drop 1 ++
      ((Sample.upload 0 2).drop 1).take 4 ++ [.upload 2 (.publishRaises false), .upload 2 .delete])
    (by decide +kernel)
  obtain ⟨source, hsource, hnone⟩ := (Option.any_eq_true _ _).mp hp
  unfold pendingSource at hsource
  split at hsource
  · cases hsource
  · rename_i hacked
    obtain ⟨m, hm, hsource⟩ := Option.bind_eq_some_iff.mp hsource
    obtain ⟨archive, hstored, _⟩ := h Sample.cfg s hrun 0 m hm hacked source hsource
    simp [hstored] at hnone

end FileDelivery.Proofs.StagedKept
