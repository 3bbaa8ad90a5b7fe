import FileDelivery.Proofs.CreateOnce
import FileDelivery.Proofs.UploadLimits

namespace FileDelivery.Proofs.CreateRetries
open FileDelivery.Library FileDelivery.Library.Runs FileDelivery.Library.Commits FileDelivery.Control
open FileDelivery.Control.CreateTask FileDelivery.Proofs.CreateOnce FileDelivery.Proofs.UploadLimits

/-- Its claim has been granted, and not been given back. -/
def claiming : Stage → Bool
  | .starting | .answered _ | .failed => false
  | _ => true

/-- No process dies, and nothing raises in a call to Redis. -/
def Graceful (s : State) : CreateTask.Action → Prop
  | .request _ .crash => False
  | .request rid .raise => ∀ r ∈ s.requests, r.rid = rid → raisedTo r.stage ≠ some .failed
  | _ => True

instance (s : State) : (a : CreateTask.Action) → Decidable (Graceful s a)
  | .request _ .crash => .isFalse id
  | .request rid .raise =>
    inferInstanceAs (Decidable (∀ r ∈ s.requests, r.rid = rid → raisedTo r.stage ≠ some .failed))
  | .request _ .acquire | .request _ .lookup | .request _ .prepare | .request _ (.insert _)
  | .request _ (.log _) | .request _ .extract | .request _ .commit | .request _ (.commitRaises _)
  | .request _ .read | .request _ .release | .arrive .. | .expire _ | .tick => .isTrue trivial

/-- What a step of a request does to the claims. -/
inductive ClaimMove (settings : Settings) (s : State) (r : Request) :
    Stage → State → Stage → Prop
  | acquired (h : IdempotencyGuard.acquire settings.redis_idempotency_enabled s.claims r.claim r.rid =
      some next.claims) : ClaimMove settings s r .starting next .claimed
  | released (response : Option Response) (h : next.claims =
      IdempotencyGuard.release settings.redis_idempotency_enabled s.claims r.claim r.rid) :
      ClaimMove settings s r (.releasing response) next stage
  | kept (h : next.claims = s.claims) (hclaiming : claiming old = true → claiming stage = true) :
      ClaimMove settings s r old next stage

variable {py : Python} {settings : Settings} {s s' next : State} {r q : Request} {old stage : Stage}
  {action : RequestAction} {committed : Bool} {tables : Tables} {dirs : Text → Option TaskDir} {now : Time}

theorem raised_claiming (h : raisedTo old = some stage) (hne : stage ≠ .failed) :
    claiming stage = true := by
  cases old <;> cases h
  all_goals first | rfl | exact absurd rfl hne

theorem claim_move (h : requestEffect py settings s r old action = some (next, stage, committed))
    (hcrash : action ≠ .crash) (hraise : action = .raise → raisedTo old ≠ some .failed) :
    ClaimMove settings s r old next stage := by
  cases action with
  | acquire =>
    cases old <;> try cases h
    simp only [requestEffect] at h
    split at h
    · rename_i hacquire
      cases h
      exact .acquired hacquire
    · cases h
      exact .kept rfl (fun hc => absurd hc Bool.false_ne_true)
  | release =>
    cases old <;> cases h
    exact .released _ rfl
  | raise =>
    obtain ⟨target, htarget, he⟩ : ∃ target, raisedTo old = some target ∧
        (s, target, false) = (next, stage, committed) := by
      cases old <;> exact Option.map_eq_some_iff.mp h
    cases he
    refine .kept rfl (fun _ => raised_claiming htarget ?_)
    rintro rfl
    exact hraise rfl htarget
  | crash => exact absurd rfl hcrash
  | log id =>
    cases old <;> cases h
    exact .kept rfl (fun _ => rfl)
  | read =>
    cases old <;> cases h
    exact .kept rfl (fun _ => rfl)
  | _ =>
    cases old <;> try cases h
    simp only [requestEffect] at h
    split at h
    all_goals
      cases h
      exact .kept rfl (fun _ => rfl)

/-- Every claim is one of a request that is at work under its key. -/
def Held (s : State) : Prop :=
  ∀ key holder, s.claims key = some holder →
    ∃ r ∈ s.requests, r.rid = holder ∧ r.claim = key ∧ claiming r.stage = true

theorem release_some {claims : IdempotencyGuard.Store}
    (h : IdempotencyGuard.release true claims key token k = some holder) :
    claims k = some holder ∧ ¬(k = key ∧ holder = token) := by
  unfold IdempotencyGuard.release at h
  split at h
  · by_cases hk : k = key
    · rw [hk, Function.update_self] at h
      cases h
    · rw [Function.update_of_ne hk] at h
      exact ⟨h, fun hc => hk hc.1⟩
  · rename_i hno
    refine ⟨h, ?_⟩
    rintro ⟨rfl, rfl⟩
    exact hno ⟨rfl, h⟩

/-- A step of a request keeps the claims of the others, and its own until it gives it back. -/
theorem move_held (hguard : settings.redis_idempotency_enabled = true) (hi : Invariant s)
    (hfind : Rows.find? s.requests r.rid = some r) (hheld : Held s)
    (hmove : ClaimMove settings s r r.stage next stage) :
    Held { next with
      requests := Rows.update s.requests r.rid (fun q =>
        { q with stage := stage, committed := q.committed || committed }) } := by
  have hr := Rows.find_mem hfind
  have hmine : { r with stage := stage, committed := r.committed || committed } ∈
      Rows.update s.requests r.rid (fun q =>
        { q with stage := stage, committed := q.committed || committed }) :=
    Rows.mem_update_of_mem hr rfl
  have hstays : ∀ key holder, s.claims key = some holder →
      ((r.rid = holder ∧ r.claim = key ∧ claiming r.stage = true) → claiming stage = true) →
      ∃ q ∈ Rows.update s.requests r.rid (fun q =>
        { q with stage := stage, committed := q.committed || committed }),
        q.rid = holder ∧ q.claim = key ∧ claiming q.stage = true := by
    intro key holder hclaim hon
    obtain ⟨q, hq, hrid, hkey, hworks⟩ := hheld key holder hclaim
    by_cases hsame : q.rid = r.rid
    · obtain rfl : q = r := Rows.eq_of_key hi.rids hq hr hsame
      exact ⟨_, hmine, hrid, hkey, hon ⟨hrid, hkey, hworks⟩⟩
    · exact ⟨q, Rows.mem_update_of_ne hq hsame, hrid, hkey, hworks⟩
  intro key holder hclaim
  generalize hold : r.stage = old at hmove
  cases hmove with
  | acquired hacquire =>
    rw [hguard] at hacquire
    obtain ⟨_, hnew, hother⟩ := IdempotencyGuard.acquire_some hacquire
    by_cases hk : key = r.claim
    · subst hk
      obtain rfl : r.rid = holder := Option.some.inj (hnew.symm.trans hclaim)
      exact ⟨_, hmine, rfl, rfl, rfl⟩
    · exact hstays key holder ((hother key hk).symm.trans hclaim) (fun _ => rfl)
  | released response hrelease =>
    have hclaim' : next.claims key = some holder := hclaim
    rw [hrelease, hguard] at hclaim'
    obtain ⟨hbefore, hnot⟩ := release_some hclaim'
    exact hstays key holder hbefore (fun ⟨hrid, hkey, _⟩ => absurd ⟨hkey.symm, hrid.symm⟩ hnot)
  | kept hsame hworks =>
    exact hstays key holder ((congrFun hsame key).symm.trans hclaim) (fun h => hworks (hold ▸ h.2.2))

theorem step_held (hguard : settings.redis_idempotency_enabled = true) {a : CreateTask.Action}
    (hi : Invariant s) (hheld : Held s) (ha : Graceful s a) (h : step py settings s a = some s') :
    Held s' := by
  cases a with
  | arrive actor idempotency_key uuid files submission_label =>
    simp only [step] at h
    split at h
    · cases h
      intro key holder hclaim
      obtain ⟨r, hr, hrest⟩ := hheld key holder hclaim
      exact ⟨r, List.mem_append_left _ hr, hrest⟩
    · cases h
  | request rid action =>
    obtain ⟨r, hfind, h⟩ := Option.bind_eq_some_iff.mp h
    obtain ⟨⟨next, stage, committed⟩, heffect, rfl⟩ := Option.map_eq_some_iff.mp h
    obtain rfl : r.rid = rid := Rows.find_key hfind
    refine move_held hguard hi hfind hheld (claim_move heffect ?_ ?_)
    · rintro rfl
      exact ha
    · rintro rfl
      exact ha r (Rows.find_mem hfind) rfl
  | expire key =>
    cases h
    intro k holder hclaim
    by_cases hk : k = key
    · rw [hk] at hclaim
      simp at hclaim
    · exact hheld k holder ((Function.update_of_ne hk _ _).symm.trans hclaim)
  | tick =>
    cases h
    exact hheld

theorem reachable_held (hguard : settings.redis_idempotency_enabled = true) (hl : Loaded tables)
    (h : Run (step py settings) Graceful (initial tables dirs (fun _ => none) now) s) : Held s := by
  refine h.invariant_given Held Invariant (fun t ht => reachable_invariant hl ht.free) ?_ ?_
  · intro key holder hclaim
    cases hclaim
  · exact fun s a t hi hheld ha hs => step_held hguard hi hheld ha hs

theorem lookup_found {task : Task} (h : findKey s.tables r.key r.actor.tenant_id = some task) :
    requestEffect py settings s r .claimed .lookup =
      some (s, .releasing (some (respond 200 task)), false) := by
  simp only [requestEffect, h]

/-- A request that finds its key takes nothing but its answer. -/
theorem run_existing {start : State} {earlier : List Request} {task : Task}
    {claims : IdempotencyGuard.Store} (hrun : Run (step py settings) Free start s)
    (hlast : s.requests = earlier ++ [r]) (hnew : ∀ q ∈ earlier, q.rid ≠ r.rid)
    (hstart : r.stage = .starting)
    (hclaims : IdempotencyGuard.acquire settings.redis_idempotency_enabled s.claims r.claim r.rid =
      some claims)
    (hfound : findKey s.tables r.key r.actor.tenant_id = some task) :
    ∃ s', Run (step py settings) Free start s' ∧ s'.tables = s.tables ∧ s'.dirs = s.dirs ∧
      s'.requests = earlier ++ [{ r with stage := .answered (respond 200 task) }] := by
  obtain ⟨s₁, h₁, ht₁, hd₁, _, hr₁⟩ := run_last hrun hlast hnew
    (by rw [hstart]; exact acquire_granted hclaims)
  obtain ⟨s₂, h₂, ht₂, hd₂, _, hr₂⟩ := run_last h₁ hr₁ hnew (lookup_found (by rw [ht₁]; exact hfound))
  obtain ⟨_, hrelease⟩ := release_ok py settings s₂
    { r with stage := .releasing (some (respond 200 task)), committed := r.committed || false || false }
    (respond 200 task)
  obtain ⟨s₃, h₃, ht₃, hd₃, _, hr₃⟩ := run_last h₂ hr₂ hnew hrelease
  refine ⟨s₃, h₃, ht₃.trans (ht₂.trans ht₁), hd₃.trans (hd₂.trans hd₁), ?_⟩
  rw [hr₃]
  simp only [Bool.or_false]

/-- The request that came in first after a state has been answered. -/
def AnsweredIn (s' s : State) (response : Response) : Prop :=
  ∃ r ∈ s'.requests, r.rid = s.next_request ∧ r.stage = .answered response

theorem acquire_free (settings : Settings) {claims : IdempotencyGuard.Store} (hfree : claims key = none)
    (token : Nat) :
    ∃ claims', IdempotencyGuard.acquire settings.redis_idempotency_enabled claims key token =
      some claims' := by
  unfold IdempotencyGuard.acquire
  split
  · exact ⟨_, by rw [hfree]⟩
  · exact ⟨_, rfl⟩

theorem key_found (hi : Invariant s) {w : Written Task} (hw : w ∈ s.tables.tasks)
    (howner : ownerKey w.row = (tenant, key)) : findKey s.tables key tenant = some w.row := by
  rw [findKey]
  cases hfind : s.tables.tasks.find? (fun w => ownerKey w.row == (tenant, key)) with
  | none => simpa [howner] using List.find?_eq_none.mp hfind w hw
  | some v =>
    have hv : ownerKey v.row = (tenant, key) := by simpa using List.find?_some hfind
    obtain rfl : v = w :=
      hi.tables.keys.eq (List.mem_of_find?_eq_some hfind) hw (hv.trans howner.symm)
    rfl

theorem key_absent (h : ∀ w ∈ tables.tasks, ownerKey w.row ≠ (tenant, key)) :
    findKey tables key tenant = none := by
  rw [findKey, Option.map_eq_none_iff, List.find?_eq_none]
  intro w hw he
  exact h w hw (beq_iff_eq.mp he)

section Retry
variable {actor : CurrentActor} {key : String} (hactor : actor.can_write_tasks = true) (hkey : key ≠ "")
  (hi : Invariant s) (uuid : String) (files : List (Text × Bytes)) (label : Option Text)
  (hfree : s.claims (arriving s actor key uuid files label).claim = none)
include hactor hkey hi hfree

theorem retry_existing {w : Written Task} (hw : w ∈ s.tables.tasks)
    (howner : ownerKey w.row = (actor.tenant_id, key)) :
    ∃ s', Run (step py settings) Free s s' ∧ s'.tables = s.tables ∧ s'.dirs = s.dirs ∧
      AnsweredIn s' s (respond 200 w.row) := by
  have hkey' : (arriving s actor key uuid files label).key = key := arriving_key hkey
  obtain ⟨claims, hclaims⟩ := acquire_free settings hfree s.next_request
  obtain ⟨s', hrun, htables, hdirs, hrequests⟩ := run_existing
    (run_arrives hactor s key uuid files label) rfl (fun q hq => Nat.ne_of_lt (hi.fresh q hq)) rfl hclaims
    (by rw [hkey']; exact key_found hi hw howner)
  exact ⟨s', hrun, htables, hdirs, _,
    hrequests ▸ List.mem_append_right _ (List.mem_singleton_self _), rfl, rfl⟩

theorem retry_created (habsent : ∀ w ∈ s.tables.tasks, ownerKey w.row ≠ (actor.tenant_id, key))
    (hadmitted : Admitted py settings.limits (files.filter (fun u => u.1 ≠ []))) {id : Nat}
    (hid : ∀ w ∈ s.tables.tasks, w.row.id ≠ id) :
    ∃ s' w, Run (step py settings) Free s s' ∧ s'.tables.tasks = s.tables.tasks ++ [w] ∧
      ownerKey w.row = (actor.tenant_id, key) ∧ w.row.id = id ∧ AnsweredIn s' s ⟨201, id, .draft⟩ := by
  have hkey' : (arriving s actor key uuid files label).key = key := arriving_key hkey
  obtain ⟨claims, hclaims⟩ := acquire_free settings hfree s.next_request
  obtain ⟨archive, hprepare, hextract⟩ := Fallible.bind_ok.mp (hadmitted.checked label)
  obtain ⟨extracted, hextract, _⟩ := Fallible.map_ok.mp hextract
  obtain ⟨s', hrun, htables, _, hrequests⟩ := run_alone id 0
    (run_arrives hactor s key uuid files label) rfl (fun q hq => Nat.ne_of_lt (hi.fresh q hq)) rfl rfl
    hclaims (by rw [hkey']; exact key_absent habsent) hprepare hextract hid
  exact ⟨s', _, hrun, congrArg Tables.tasks htables, congrArg (Prod.mk _) hkey', rfl, _,
    hrequests ▸ List.mem_append_right _ (List.mem_singleton_self _), rfl, rfl⟩

end Retry

/-- Whatever the requests and their failures have been: no claim is left behind unless a process has
died or Redis has failed, and where its claim is not held a request that is sent once more is answered
with the task of its key, which it makes if no earlier one has. -/
theorem retry_settles (py : Python) (settings : Settings) (hl : Loaded tables)
    (h : Run (step py settings) Free (initial tables dirs (fun _ => none) now) s) (actor : CurrentActor)
    (hactor : actor.can_write_tasks = true) (key uuid : String) (hkey : key ≠ "")
    (files : List (Text × Bytes)) (label : Option Text) :
    (settings.redis_idempotency_enabled = true →
      Run (step py settings) Graceful (initial tables dirs (fun _ => none) now) s → Held s) ∧
    (s.claims (arriving s actor key uuid files label).claim = none →
      (∀ w ∈ s.tables.tasks, ownerKey w.row = (actor.tenant_id, key) →
        ∃ s', Run (step py settings) Free s s' ∧ s'.tables = s.tables ∧ s'.dirs = s.dirs ∧
          AnsweredIn s' s (respond 200 w.row)) ∧
      ((∀ w ∈ s.tables.tasks, ownerKey w.row ≠ (actor.tenant_id, key)) →
        Admitted py settings.limits (files.filter (fun u => u.1 ≠ [])) →
        ∀ id, (∀ w ∈ s.tables.tasks, w.row.id ≠ id) →
          ∃ s' w, Run (step py settings) Free s s' ∧ s'.tables.tasks = s.tables.tasks ++ [w] ∧
            ownerKey w.row = (actor.tenant_id, key) ∧ w.row.id = id ∧
            AnsweredIn s' s ⟨201, id, .draft⟩)) := by
  have hi := reachable_invariant hl h
  refine ⟨fun hguard hrun => reachable_held hguard hl hrun, fun hfree => ⟨?_, ?_⟩⟩
  · intro w hw howner
    exact retry_existing hactor hkey hi uuid files label hfree hw howner
  · intro habsent hadmitted id hid
    exact retry_created hactor hkey hi uuid files label hfree habsent hadmitted hid

/-- After a request that the database has failed there is no claim, and the next one makes the task. -/
theorem retry_settles_failed :
    ∃ s s', Run (step Bridge.Sample.py { Bridge.Sample.cfg.settings with redis_idempotency_enabled := true })
        Graceful (initial ⟨[], [], []⟩ (fun _ => none) (fun _ => none) 0) s ∧
      s.requests.map (·.stage) = [.failed] ∧ Held s ∧
      Run (step Bridge.Sample.py { Bridge.Sample.cfg.settings with redis_idempotency_enabled := true })
        Free s s' ∧ AnsweredIn s' s ⟨201, 20, .draft⟩ := by
  obtain ⟨s, hrun, hp⟩ := replay_reaches
    (step Bridge.Sample.py { Bridge.Sample.cfg.settings with redis_idempotency_enabled := true }) Graceful
    (p := fun s => s.requests.map (·.stage) = [.failed] ∧ s.tables.tasks = [] ∧
      s.claims (arriving s Bridge.Sample.actor "k" "" [("acme/a.txt".toList, [1])] none).claim = none)
    (initial ⟨[], [], []⟩ (fun _ => none) (fun _ => none) 0)
    (.arrive Bridge.Sample.actor (some "k") "" [("acme/a.txt".toList, [1])] none ::
      [.acquire, .lookup, .prepare, .insert 10, .log 11, .extract, .raise, .release].map (.request 0))
    (by decide +kernel)
  obtain ⟨hstages, hnone, hfree⟩ := hp
  have hl : Loaded ⟨[], [], []⟩ := ⟨.nil, .nil, fun _ => ⟨by simp, by simp, by simp⟩⟩
  obtain ⟨hheld, hretry⟩ := retry_settles _ _ hl hrun.free Bridge.Sample.actor (by decide) "k" "" (by decide)
    [("acme/a.txt".toList, [1])] none
  have hadmitted : Admitted Bridge.Sample.py Bridge.Sample.cfg.settings.limits [("acme/a.txt".toList, [1])] :=
    ⟨by decide, ⟨by decide, by decide, by decide⟩, by decide, by unfold Placed; decide⟩
  obtain ⟨s', _, hagain, _, _, _, hanswered⟩ := (hretry hfree).2 (by simp [hnone]) hadmitted 20 (by simp [hnone])
  exact ⟨s, s', hrun, hstages, hheld rfl hrun, hagain, hanswered⟩

end FileDelivery.Proofs.CreateRetries
