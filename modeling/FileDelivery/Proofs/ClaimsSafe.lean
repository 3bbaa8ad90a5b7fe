import FileDelivery.Control.RedisClients
import FileDelivery.Library.Runs

namespace FileDelivery.Proofs.ClaimsSafe
open FileDelivery.Library FileDelivery.Library.Runs FileDelivery.Control
open FileDelivery.Control.RedisClients

/-- Redis holds the claims that clients hold, and no others. -/
abbrev Sound (s : State) : Prop := Claims.Sound s.now s.redis s.claims

theorem acquire_spec (h : RedisClients.acquire s ttl_seconds token purpose = some (redis, claim)) :
    (redis, claim.acquired) =
        Claims.setIfAbsent s.redis s.now (purpose.key) token (1000 * ttl_seconds) ∧
      claim.key = purpose.key ∧ claim.token = token := by
  have hset : ∀ key result, (Redis.setNxEx s.redis s.now key token ttl_seconds) = some result →
      result = Claims.setIfAbsent s.redis s.now key token (1000 * ttl_seconds) := by
    intro key result hr
    unfold Redis.setNxEx at hr
    split at hr
    · cases hr
    · exact (Option.some.inj hr).symm
  cases purpose with
  | lease resource =>
    obtain ⟨result, hr, he⟩ := Option.map_eq_some_iff.mp h
    cases he
    exact ⟨hset _ _ hr, rfl, rfl⟩
  | request r =>
    obtain ⟨result, hr, he⟩ := Option.map_eq_some_iff.mp h
    cases he
    exact ⟨hset _ _ hr, rfl, rfl⟩

/-- What a client does to a claim that it has asked for. -/
theorem found {s : State} {t : Tracked} (h : s.claims.find? (·.claim.token == token) = some t) :
    t ∈ s.claims ∧ t.claim.token = token :=
  ⟨List.mem_of_find?_eq_some h, by simpa using List.find?_some h⟩

theorem step_sound (hsound : Sound s) (hfresh : Fresh s a) (h : step s a = some s') : Sound s' := by
  cases a with
  | acquire purpose ttl_seconds token =>
    obtain ⟨⟨redis, claim⟩, hacquire, rfl⟩ := Option.map_eq_some_iff.mp h
    obtain ⟨hset, hkey, htoken⟩ := acquire_spec hacquire
    have hgrant := hsound.acquire purpose (purpose.key) (1000 * ttl_seconds) hfresh
    rw [← hset, ← hkey, ← htoken] at hgrant
    exact hgrant
  | refresh token ttl_seconds =>
    obtain ⟨t, hfind, h⟩ := Option.bind_eq_some_iff.mp h
    obtain ⟨ht, rfl⟩ := found hfind
    cases howner : t.owner with
    | lease resource =>
      simp only [howner, Option.some.injEq] at h
      subst h
      exact hsound.refresh ht (1000 * ttl_seconds)
    | request r => simp [howner] at h
  | release token =>
    obtain ⟨t, hfind, rfl⟩ := Option.map_eq_some_iff.mp h
    obtain ⟨ht, rfl⟩ := found hfind
    cases t.owner with
    | lease resource => exact hsound.release ht
    | request r => exact hsound.release ht
  | pass milliseconds =>
    cases h
    exact hsound.pass (Nat.le_add_right _ _)

theorem run_sound (h : Run step Fresh (State.start now) s) : Sound s :=
  h.invariant Sound (Claims.Sound.start now) (fun _ _ _ hs hf hstep => step_sound hs hf hstep)

/-- What clients can rely on at one moment. -/
structure Safe (s : State) : Prop where
  exclusive : ∀ t ∈ s.claims, ∀ u ∈ s.claims, t.Holds s.now → u.Holds s.now →
    t.claim.key = u.claim.key → t = u
  /-- A late call of a former holder, or of one who never was the holder. -/
  late : ∀ t ∈ s.claims, ¬t.Holds s.now → ∀ a,
    (a = .release t.claim.token ∨ ∃ ttl_seconds, a = .refresh t.claim.token ttl_seconds) →
    ∀ s', step s a = some s' →
      s'.now = s.now ∧ s'.redis = s.redis ∧ ∀ u ∈ s.claims, u.Holds s.now → u ∈ s'.claims
  refused : ∀ claim : Claims.Claim Text Text, claim.acquired = false → ∀ ttl_seconds,
    RedisLease.refresh s.redis s.now ttl_seconds claim = (s.redis, false) ∧
    RedisLease.release s.redis s.now claim = s.redis ∧
    RedisIdempotencyGuard.release s.redis s.now claim = s.redis
  refreshed : ∀ t ∈ s.claims, ∀ ttl_seconds,
    (RedisLease.refresh s.redis s.now ttl_seconds t.claim).2 = true ↔ t.Holds s.now
  holds_key : ∀ t ∈ s.claims,
    t.Holds s.now ↔ Claims.get s.redis s.now t.claim.key = some t.claim.token

theorem late_release (hsound : Sound s) (ht : t ∈ s.claims) (hn : ¬t.Holds s.now) :
    Claims.release s.redis s.now t.claim = s.redis := by
  rw [hsound.release_eq ht, if_neg hn]

theorem late_refresh (hsound : Sound s) (ht : t ∈ s.claims) (hn : ¬t.Holds s.now)
    (ttl_seconds : Nat) :
    RedisLease.refresh s.redis s.now ttl_seconds t.claim = (s.redis, false) := by
  unfold RedisLease.refresh
  rw [hsound.refresh_eq ht, if_neg hn]

theorem sound_safe (hsound : Sound s) : Safe s where
  exclusive := fun t ht u hu hht hhu hk => hsound.exclusive ht hu hht hhu hk
  late := by
    intro t ht hn a ha s' hstep
    have hothers : ∀ f, ∀ u ∈ s.claims, u.Holds s.now →
        u ∈ Claims.follow t.claim.token f s.claims := by
      intro f u hu hhu
      apply Claims.mem_follow_ne hu
      intro he
      exact hn (hsound.token_inj hu ht he ▸ hhu)
    rcases ha with rfl | ⟨ttl_seconds, rfl⟩
    · obtain ⟨u, hfind, rfl⟩ := Option.map_eq_some_iff.mp hstep
      obtain ⟨hu, he⟩ := found hfind
      obtain rfl := hsound.token_inj hu ht he
      refine ⟨rfl, ?_, hothers _⟩
      cases u.owner with
      | lease resource => exact late_release hsound hu hn
      | request r => exact late_release hsound hu hn
    · obtain ⟨u, hfind, h⟩ := Option.bind_eq_some_iff.mp hstep
      obtain ⟨hu, he⟩ := found hfind
      obtain rfl := hsound.token_inj hu ht he
      cases howner : u.owner with
      | lease resource =>
        simp only [howner, Option.some.injEq] at h
        subst h
        exact ⟨rfl, congrArg Prod.fst (late_refresh hsound hu hn ttl_seconds), hothers _⟩
      | request r => simp [howner] at h
  refused := by
    intro claim hc ttl_seconds
    refine ⟨?_, ?_, ?_⟩
    · simp [RedisLease.refresh, Claims.refresh, hc]
    · simp [RedisLease.release, Claims.release, hc]
    · simp [RedisIdempotencyGuard.release, Claims.release, hc]
  refreshed := by
    intro t ht ttl_seconds
    unfold RedisLease.refresh
    rw [hsound.refresh_eq ht]
    split
    · rename_i hh
      simp [hh]
    · rename_i hn
      simp [hn]
  holds_key := fun t ht => hsound.holds_iff ht

/-- In every interleaving of clients with the passage of time, a key has one holder at most, late
calls do no harm, and a refresh tells the truth. -/
theorem claims_safe (now : Nat) (s : State) (h : Run step Fresh (State.start now) s) : Safe s :=
  sound_safe (run_sound h)

/-- A lease expires, another client takes it, and the first one refreshes and releases too late. -/
theorem late_holder_safe :
    ∃ s, Run step Fresh (State.start 0) s ∧
      s.claims.map (fun t => (t.claim.acquired, t.released, decide (t.Holds s.now))) =
        [(true, true, false), (true, false, true), (false, false, false)] ∧
      Safe s := by
  obtain ⟨s, hrun, hs⟩ := replay_reaches step Fresh (State.start 0)
    (p := fun s => s.claims.map (fun t => (t.claim.acquired, t.released, decide (t.Holds s.now))) =
      [(true, true, false), (true, false, true), (false, false, false)])
    [.acquire (.lease "apply:1") 30 "a", .pass 30000, .acquire (.lease "apply:1") 30 "b",
      .refresh "a" 30, .release "a", .acquire (.lease "apply:1") 30 "c", .pass 29999] (by decide)
  exact ⟨s, hrun, hs, claims_safe 0 s hrun⟩

end FileDelivery.Proofs.ClaimsSafe
