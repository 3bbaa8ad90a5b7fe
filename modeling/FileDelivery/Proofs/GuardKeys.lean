import FileDelivery.Proofs.ClaimsSafe
import Mathlib.Data.List.Basic
import Mathlib.Data.List.TakeWhile

namespace FileDelivery.Proofs.GuardKeys
open FileDelivery.Library FileDelivery.Library.Runs FileDelivery.Control
open FileDelivery.Control.IdempotencyGuard FileDelivery.Control.RedisClients
open FileDelivery.Proofs.ClaimsSafe

/-- Every maximal run of characters that a key part may not contain has become one underscore. -/
inductive Replaced : Text → Text → Prop
  | nil : Replaced [] []
  | kept (hc : keyChar c = true) (h : Replaced t u) : Replaced (c :: t) (c :: u)
  | run (hne : run ≠ []) (hrun : ∀ c ∈ run, keyChar c = false)
      (hend : ∀ c ∈ t.head?, keyChar c = true) (h : Replaced t u) : Replaced (run ++ t) ('_' :: u)

theorem squeeze_run (hrun : ∀ c ∈ run, keyChar c = false) :
    squeeze true (run ++ t) = squeeze true t := by
  induction run with
  | nil => rfl
  | cons c rest ih =>
    have hc := hrun c List.mem_cons_self
    simp only [List.cons_append, squeeze, hc, Bool.false_eq_true, if_false, if_true]
    exact ih (fun d hd => hrun d (List.mem_cons_of_mem _ hd))

/-- Behind a run it makes no difference that there was one. -/
theorem squeeze_end (hend : ∀ c ∈ t.head?, keyChar c = true) : squeeze true t = squeeze false t := by
  cases t with
  | nil => rfl
  | cons c rest =>
    have hc := hend c rfl
    simp only [squeeze, hc, if_true]

theorem Replaced.squeeze_eq (h : Replaced t u) : squeeze false t = u := by
  induction h with
  | nil => rfl
  | kept hc _ ih => simp only [squeeze, hc, if_true, ih]
  | @run run t u hne hrun hend _ ih =>
    cases run with
    | nil => exact absurd rfl hne
    | cons c rest =>
      have hc := hrun c List.mem_cons_self
      have hrest := squeeze_run (t := t) (fun d hd => hrun d (List.mem_cons_of_mem _ hd))
      simp only [List.cons_append, squeeze, hc, Bool.false_eq_true, if_false, hrest,
        squeeze_end hend, ih]

theorem replaced_squeeze (t : Text) : Replaced t (squeeze false t) := by
  induction hn : t.length using Nat.strongRecOn generalizing t with
  | ind n ih =>
    cases t with
    | nil => exact .nil
    | cons c rest =>
      cases hc : keyChar c with
      | true =>
        have hrest := ih rest.length (by simp [← hn]) rest rfl
        simp only [squeeze, hc, if_true]
        exact .kept hc hrest
      | false =>
        -- The run ends where the next character is one to keep.
        have hsplit := List.takeWhile_append_dropWhile (p := (! keyChar ·)) (l := c :: rest)
        have hrun : ∀ d ∈ (c :: rest).takeWhile (! keyChar ·), keyChar d = false := by
          intro d hd
          simpa using List.mem_takeWhile_imp hd
        have hend : ∀ d ∈ ((c :: rest).dropWhile (! keyChar ·)).head?, keyChar d = true := by
          intro d hd
          have := List.head?_dropWhile_not (! keyChar ·) (c :: rest)
          rw [hd] at this
          simpa using this
        have hne : (c :: rest).takeWhile (! keyChar ·) ≠ [] := by simp [hc]
        have hlt : ((c :: rest).dropWhile (! keyChar ·)).length < n := by
          have := (List.dropWhile_suffix (l := rest) (! keyChar ·)).length_le
          simp only [List.dropWhile_cons, hc, Bool.not_false, if_true, ← hn, List.length_cons]
          omega
        have hbelow := ih _ hlt _ rfl
        have hreplaced := Replaced.run hne hrun hend hbelow
        rw [hsplit] at hreplaced
        rwa [hreplaced.squeeze_eq]

/-- Two identities agree in what is left of them: outer blanks removed, every other run of
characters that a key may not contain replaced, and only the first 128 characters kept. -/
def Alike (a b : Text) : Prop :=
  ∃ u v, Replaced (strip a) u ∧ Replaced (strip b) v ∧ u.take 128 = v.take 128

theorem alike_iff : Alike a b ↔
    (squeeze false (strip a)).take 128 = (squeeze false (strip b)).take 128 := by
  constructor
  · intro h
    obtain ⟨u, v, hu, hv, he⟩ := h
    rwa [hu.squeeze_eq, hv.squeeze_eq]
  · intro he
    exact ⟨_, _, replaced_squeeze _, replaced_squeeze _, he⟩

theorem alphanum_ranges (c : Char) : c.isAlphanum =
    (decide (c.val ≥ 65 ∧ c.val ≤ 90) || decide (c.val ≥ 97) && decide (c.val ≤ 122) ||
      decide (c.val ≥ 48) && decide (c.val ≤ 57)) := rfl

theorem key_not_space (hc : keyChar c = true) : isSpace c = false := by
  have hcases : c.isAlphanum = true ∨ c = '_' ∨ c = '.' ∨ c = ':' ∨ c = '-' := by
    simpa [keyChar, or_assoc] using hc
  rcases hcases with ha | rfl | rfl | rfl | rfl
  · simp only [alphanum_ranges, Bool.or_eq_true, Bool.and_eq_true, decide_eq_true_eq,
      UInt32.le_iff_toNat_le, ge_iff_le] at ha
    simp only [isSpace, Bool.or_eq_false_iff, Bool.and_eq_false_iff,
      decide_eq_false_iff_not, beq_eq_false_iff_ne]
    simp at ha
    omega
  · decide
  · decide
  · decide
  · decide

theorem mem_dropWhile_of {p : Char → Bool} {t : Text} (hc : c ∈ t) (hp : p c = false) :
    c ∈ t.dropWhile p := by
  rw [← List.takeWhile_append_dropWhile (p := p) (l := t)] at hc
  rcases List.mem_append.mp hc with hc | hc
  · have := List.mem_takeWhile_imp hc
    simp [hp] at this
  · exact hc

theorem mem_strip (hc : c ∈ t) (hs : isSpace c = false) : c ∈ strip t := by
  unfold strip
  rw [List.mem_reverse]
  exact mem_dropWhile_of (List.mem_reverse.mpr (mem_dropWhile_of hc hs)) hs

theorem dropWhile_none {p : Char → Bool} {t : Text} (h : ∀ c ∈ t, p c = false) :
    t.dropWhile p = t := by
  cases t with
  | nil => rfl
  | cons c rest => simp [h c List.mem_cons_self]

theorem strip_plain (h : ∀ c ∈ t, keyChar c = true) : strip t = t := by
  have hs : ∀ c ∈ t, isSpace c = false := fun c hc => key_not_space (h c hc)
  unfold strip
  rw [dropWhile_none hs, dropWhile_none (fun c hc => hs c (List.mem_reverse.mp hc)),
    List.reverse_reverse]

theorem squeeze_plain (h : ∀ c ∈ t, keyChar c = true) : squeeze false t = t := by
  induction t with
  | nil => rfl
  | cons c rest ih =>
    have hc := h c List.mem_cons_self
    simp only [squeeze, hc, if_true]
    rw [ih (fun d hd => h d (List.mem_cons_of_mem _ hd))]

/-- Nothing is left of a text only if nothing was there. -/
theorem squeeze_nonempty (h : t ≠ []) : squeeze false t ≠ [] := by
  cases t with
  | nil => exact absurd rfl h
  | cons c rest =>
    simp only [squeeze]
    split <;> simp

/-- The colon of an identity is left in any case. -/
theorem safe_identity (r : GuardedRequest) :
    _safe_key_part r.identity = (squeeze false (strip r.identity)).take 128 := by
  have hmem : ':' ∈ r.identity := by simp [GuardedRequest.identity]
  have hstrip : strip r.identity ≠ [] := List.ne_nil_of_mem (mem_strip hmem (by decide))
  have hleft : (squeeze false (strip r.identity)).take 128 ≠ [] := by
    simp [squeeze_nonempty hstrip]
  unfold _safe_key_part
  simp only
  rw [if_neg hleft]

theorem safe_operation (op : GuardedOperation) : _safe_key_part op.name = op.name := by
  cases op <;> decide

theorem guard_key_eq (r : GuardedRequest) : r.guard_key = "idempotency:v1:".toList ++
    r.operation.name ++ [':'] ++ (squeeze false (strip r.identity)).take 128 := by
  have ho := safe_operation r.operation
  have hi := safe_identity r
  unfold GuardedRequest.guard_key _guard_key
  rw [ho, hi]

theorem name_length (op : GuardedOperation) : op.name.length = 11 := by
  cases op <;> decide

theorem name_inj (op other : GuardedOperation) (h : op.name = other.name) : op = other := by
  revert h
  cases op <;> cases other <;> decide

/-- The name of the operation can be told from what follows it. -/
theorem joined_iff (scheme : Text) (op other : GuardedOperation) (a b : Text) :
    scheme ++ op.name ++ [':'] ++ a = scheme ++ other.name ++ [':'] ++ b ↔ op = other ∧ a = b := by
  constructor
  · intro h
    simp only [List.append_assoc, List.append_cancel_left_eq] at h
    obtain ⟨hname, hrest⟩ := List.append_inj h (by rw [name_length, name_length])
    exact ⟨name_inj op other hname, List.append_cancel_left hrest⟩
  · intro h
    obtain ⟨rfl, rfl⟩ := h
    rfl

/-- Two requests have one guard key just where their operations are equal and their identities
are alike. -/
theorem guard_key_iff (r q : GuardedRequest) :
    r.guard_key = q.guard_key ↔ r.operation = q.operation ∧ Alike r.identity q.identity := by
  have hjoined := joined_iff "idempotency:v1:".toList r.operation q.operation
  rw [guard_key_eq, guard_key_eq, hjoined, alike_iff]

/-- A request whose key part is its identity, from which the tenant can be read off. -/
structure Plain (r : GuardedRequest) : Prop where
  tenant : ∀ c ∈ r.tenant_id, keyChar c = true ∧ c ≠ ':'
  key : ∀ c ∈ r.key, keyChar c = true
  short : r.tenant_id.length + 1 + r.key.length ≤ 128

theorem Plain.left (h : Plain r) : (squeeze false (strip r.identity)).take 128 = r.identity := by
  have hall : ∀ c ∈ r.identity, keyChar c = true := by
    intro c hc
    simp only [GuardedRequest.identity, List.mem_append, List.mem_singleton] at hc
    rcases hc with (hc | rfl) | hc
    · exact (h.tenant c hc).1
    · decide
    · exact h.key c hc
  have hlen : r.identity.length ≤ 128 := by
    have := h.short
    simp [GuardedRequest.identity]
    omega
  rw [strip_plain hall, squeeze_plain hall, List.take_of_length_le hlen]

theorem Plain.before_colon (h : Plain r) : r.identity.takeWhile (· ≠ ':') = r.tenant_id := by
  have hall : ∀ c ∈ r.tenant_id, (decide (c ≠ ':')) = true := by
    intro c hc
    simpa using (h.tenant c hc).2
  unfold GuardedRequest.identity
  rw [List.append_assoc, List.takeWhile_append_of_pos hall]
  simp

/-- Plain requests are told apart. -/
theorem Plain.alike_eq (hr : Plain r) (hq : Plain q) (hop : r.operation = q.operation)
    (h : Alike r.identity q.identity) : r = q := by
  rw [alike_iff, hr.left, hq.left] at h
  have htenant : r.tenant_id = q.tenant_id := by rw [← hr.before_colon, ← hq.before_colon, h]
  simp only [GuardedRequest.identity, htenant, List.append_assoc, List.append_cancel_left_eq] at h
  cases r
  cases q
  simp_all

/-- A lease and a request never ask for the same key. -/
theorem lease_key_ne (resource : Text) (r : GuardedRequest) :
    RedisLease._lease_key resource ≠ r.guard_key := by
  intro h
  have hlease : (RedisLease._lease_key resource).head? = some 'l' := rfl
  have hguard : r.guard_key.head? = some 'i' := rfl
  rw [h, hguard] at hlease
  exact absurd (Option.some.inj hlease) (by decide)

/-- Each claim is at the key of what it was asked for. -/
def Keyed (s : State) : Prop := ∀ t ∈ s.claims, t.claim.key = t.owner.key

theorem follow_keyed {claims : List Tracked} (h : ∀ t ∈ claims, t.claim.key = t.owner.key)
    (hf : ∀ t, (f t).claim = t.claim ∧ (f t).owner = t.owner) :
    ∀ t ∈ Claims.follow token f claims, t.claim.key = t.owner.key := by
  intro t ht
  rcases Claims.mem_follow ht with ⟨ht, _⟩ | ⟨u, hu, _, rfl⟩
  · exact h t ht
  · rw [(hf u).1, (hf u).2]
    exact h u hu

theorem step_keyed (hk : Keyed s) (h : step s a = some s') : Keyed s' := by
  cases a with
  | acquire purpose ttl_seconds token =>
    obtain ⟨⟨redis, claim⟩, hacquire, rfl⟩ := Option.map_eq_some_iff.mp h
    intro t ht
    rcases List.mem_append.mp ht with ht | ht
    · exact hk t ht
    · rw [List.mem_singleton.mp ht]
      exact (acquire_spec hacquire).2.1
  | refresh token ttl_seconds =>
    obtain ⟨t, _, h⟩ := Option.bind_eq_some_iff.mp h
    cases howner : t.owner with
    | lease resource =>
      simp only [howner, Option.some.injEq] at h
      subst h
      apply follow_keyed hk
      intro t
      unfold Claims.Tracked.refreshed
      split <;> exact ⟨rfl, rfl⟩
    | request r => simp [howner] at h
  | release token =>
    obtain ⟨t, _, rfl⟩ := Option.map_eq_some_iff.mp h
    exact follow_keyed hk (fun _ => ⟨rfl, rfl⟩)
  | pass milliseconds =>
    cases h
    exact hk

theorem run_keyed (h : Run step Fresh (State.start now) s) : Keyed s := by
  apply h.invariant Keyed
  · intro t ht
    cases ht
  · intro _ _ _ hk _ hstep
    exact step_keyed hk hstep

/-- A request is answered with a conflict just where an alike request with its operation holds a
claim. -/
theorem refused_iff (hsound : Sound s) (hk : Keyed s)
    (h : RedisClients.acquire s ttl_seconds token (.request r) = some (redis, claim)) :
    claim.acquired = false ↔ ∃ t ∈ s.claims, t.Holds s.now ∧ ∃ q, t.owner = .request q ∧
      q.operation = r.operation ∧ Alike q.identity r.identity := by
  have hacquired := congrArg Prod.snd (acquire_spec h).1
  simp only at hacquired
  rw [hacquired, Claims.setIfAbsent_refused]
  constructor
  · intro h
    obtain ⟨holder, hg⟩ := h
    obtain ⟨t, ht, hh, hkey, _⟩ := hsound.held _ _ hg
    rw [hk t ht] at hkey
    cases howner : t.owner with
    | lease resource =>
      rw [howner] at hkey
      exact absurd hkey (lease_key_ne resource r)
    | request q =>
      rw [howner] at hkey
      exact ⟨t, ht, hh, q, howner, (guard_key_iff q r).mp hkey⟩
  · intro h
    obtain ⟨t, ht, hh, q, howner, halike⟩ := h
    have hkey : t.claim.key = r.guard_key := by
      rw [hk t ht, howner]
      exact (guard_key_iff q r).mpr halike
    refine ⟨t.claim.token, ?_⟩
    show Claims.get s.redis s.now r.guard_key = _
    rw [← hkey]
    exact (hsound.holds_iff ht).mp hh

/-- Guard keys tell requests apart up to what is left of their identities, and completely where
these are plain; a request is refused just while one with its key holds a claim. -/
theorem guard_blocks_alike :
    (∀ r q : GuardedRequest,
      r.guard_key = q.guard_key ↔ r.operation = q.operation ∧ Alike r.identity q.identity) ∧
    (∀ r q : GuardedRequest, Plain r → Plain q → (r.guard_key = q.guard_key ↔ r = q)) ∧
    ∀ now s, Run step Fresh (State.start now) s → ∀ r ttl_seconds token redis claim,
      RedisClients.acquire s ttl_seconds token (.request r) = some (redis, claim) →
      (claim.acquired = false ↔ ∃ t ∈ s.claims, t.Holds s.now ∧ ∃ q, t.owner = .request q ∧
        q.operation = r.operation ∧ Alike q.identity r.identity) ∧
      (Plain r → (∀ t ∈ s.claims, ∀ q, t.owner = .request q → Plain q) → claim.acquired = false →
        ∃ t ∈ s.claims, t.Holds s.now ∧ t.owner = .request r) := by
  refine ⟨guard_key_iff, ?_, ?_⟩
  · intro r q hr hq
    constructor
    · intro h
      obtain ⟨hop, halike⟩ := (guard_key_iff r q).mp h
      exact hr.alike_eq hq hop halike
    · intro heq
      subst heq
      rfl
  · intro now s hrun r ttl_seconds token redis claim hacquire
    have hrefused := refused_iff (run_sound hrun) (run_keyed hrun) hacquire
    refine ⟨hrefused, ?_⟩
    intro hr hplain hfalse
    obtain ⟨t, ht, hh, q, howner, hop, halike⟩ := hrefused.mp hfalse
    rw [(hplain t ht q howner).alike_eq hr hop halike] at howner
    exact ⟨t, ht, hh, howner⟩

/-- Two tenants whose requests read the same around the colon: the one blocks the other. -/
theorem tenants_collide :
    (¬∀ r q : GuardedRequest, r.guard_key = q.guard_key → r = q) ∧
    ¬∀ now s, Run step Fresh (State.start now) s → ∀ r ttl_seconds token redis claim,
      RedisClients.acquire s ttl_seconds token (.request r) = some (redis, claim) →
      claim.acquired = false → ∃ t ∈ s.claims, t.Holds s.now ∧ t.owner = .request r := by
  constructor
  · intro h
    have := h ⟨.create_task, "hq", "a:b"⟩ ⟨.create_task, "hq:a", "b"⟩ (by decide)
    exact absurd this (by decide)
  · intro h
    have hrun : ∃ s, Run step Fresh (State.start 0) s ∧
        (s.claims.map (·.owner) = [.request ⟨.create_task, "hq", "a b"⟩] ∧
          (RedisClients.acquire s 60 "y" (.request ⟨.create_task, "hq", "a_b"⟩)).any
            (fun result => result.2.acquired == false) = true) :=
      replay_reaches step Fresh (State.start 0)
        [.acquire (.request ⟨.create_task, "hq", "a b"⟩) 60 "x"] (by decide)
    obtain ⟨s, hrun, howners, hrefused⟩ := hrun
    obtain ⟨⟨redis, claim⟩, hacquire, hfalse⟩ := (Option.any_eq_true _ _).mp hrefused
    obtain ⟨t, ht, _, howner⟩ := h 0 s hrun _ _ _ redis claim hacquire (by simpa using hfalse)
    have hmem := List.mem_map_of_mem (f := (·.owner)) ht
    rw [howners, howner] at hmem
    exact absurd hmem (by decide)

end FileDelivery.Proofs.GuardKeys
