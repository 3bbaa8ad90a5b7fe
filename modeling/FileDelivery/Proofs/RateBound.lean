import FileDelivery.Library.Rows
import FileDelivery.Library.Runs
import FileDelivery.Library.Windows
import FileDelivery.Worker.Limiter

namespace FileDelivery.Proofs.RateBound
open FileDelivery.Library FileDelivery.Library.Runs FileDelivery.Library.Windows
open FileDelivery.Worker.Limiter
open FileDelivery.Control (Text)

/-- A granted call on a key. -/
def counts (key : Text) (d : Call) : Bool := d.key == key && d.granted

/-- The granted calls on a key in the window that starts at an instant. -/
def granted (width : Nat) (calls : List Call) (key : Text) (start : Nat) : Nat :=
  calls.countP (fun d => counts key d && decide (Within width start d.time))

/-- The bounds that a limiter keeps. -/
structure Bounded (limit width : Nat) (s : State) : Prop where
  window : ∀ c ∈ s.calls, c.created = true → granted width s.calls c.key c.time ≤ limit
  interval : ∀ key a b, b ≤ a + width →
    s.calls.countP (fun d => counts key d && decide (a ≤ d.time ∧ d.time ≤ b)) ≤ 2 * limit
  denied : ∀ before d after, s.calls = before ++ d :: after → d.granted = false →
    ∃ c ∈ before, c.key = d.key ∧ c.created = true ∧ Within width c.time d.time ∧
      granted width before d.key c.time = limit
  expiry : ∀ key counter, s.redis key = some counter →
    ∃ c ∈ s.calls, c.key = key ∧ c.created = true ∧ counter.expiry = some (c.time + width)

variable {limit width : Nat} {s s' : State} {l : RedisLimiter} {key : Text} {c d : Call}
  {calls : List Call} {counter : Counter}

/-- What Redis holds at a key, and the call that has created it. -/
structure Current (limit width : Nat) (calls : List Call) (key : Text) (counter : Counter)
    (c : Call) : Prop where
  mem : c ∈ calls
  same : c.key = key
  created : c.created = true
  expiry : counter.expiry = some (c.time + width)
  before : ∀ d ∈ calls, d.key = key → d.time < c.time + width
  last : ∀ d ∈ calls, d.key = key → d.created = true → d.time ≤ c.time
  value : 0 < counter.value
  counted : granted width calls key c.time = min counter.value limit

/-- The invariant of the limiter. -/
structure Kept (limit width : Nat) (s : State) : Prop where
  past : ∀ d ∈ s.calls, d.time ≤ s.now
  absent : ∀ key, s.redis key = none → ∀ d ∈ s.calls, d.key ≠ key
  current : ∀ key counter, s.redis key = some counter →
    ∃ c, Current limit width s.calls key counter c
  apart : ∀ c ∈ s.calls, ∀ d ∈ s.calls, c.key = d.key → c.created = true → d.created = true →
    c.time < d.time → c.time + width ≤ d.time
  covered : ∀ d ∈ s.calls, ∃ c ∈ s.calls, c.key = d.key ∧ c.created = true ∧
    Within width c.time d.time
  window : ∀ c ∈ s.calls, c.created = true → granted width s.calls c.key c.time ≤ limit
  denied : ∀ before d after, s.calls = before ++ d :: after → d.granted = false →
    ∃ c ∈ before, c.key = d.key ∧ c.created = true ∧ Within width c.time d.time ∧
      granted width before d.key c.time = limit

/-- The value at one key. -/
def put (redis : Redis) (key : Text) (counter : Counter) : Redis :=
  fun k => if k = key then some counter else redis k

theorem incr_fresh {redis : Redis} (h : redis.get now key = none) :
    redis.incr now key = (put redis key ⟨1, none⟩, 1) := by
  simp only [Redis.incr, h]
  rfl

theorem incr_live {redis : Redis} (h : redis.get now key = some counter) :
    redis.incr now key = (put redis key { counter with value := counter.value + 1 },
      counter.value + 1) := by
  simp only [Redis.incr, h]
  rfl

theorem pexpire_put (redis : Redis) (now : Nat) (key : Text) (value milliseconds : Nat) :
    (put redis key ⟨value, none⟩).pexpire now key milliseconds =
      put redis key ⟨value, some (now + milliseconds)⟩ := by
  funext k
  by_cases hk : k = key <;> simp [Redis.pexpire, Redis.get, put, hk, Counter.live]

/-- A call on a key that Redis does not hold creates it, with its expiry. -/
theorem allow_fresh (h : s.redis.get s.now (l.redisKey key) = none) :
    l.Allow s.redis s.now key =
      (put s.redis (l.redisKey key) ⟨1, some (s.now + l.windowMilliseconds)⟩, .ok ()) := by
  have hlimit := l.limit_pos
  have hle : ¬((1 : Nat) : Int) > l.limit := by omega
  simp only [RedisLimiter.Allow, fixedWindowScript, incr_fresh h, if_true, pexpire_put, if_neg hle]
  simp

/-- A call on a key that Redis holds is granted up to the limit, and leaves the expiry. -/
theorem allow_live (h : s.redis.get s.now (l.redisKey key) = some counter)
    (hpos : 0 < counter.value) :
    ∃ result, l.Allow s.redis s.now key = (put s.redis (l.redisKey key)
        { counter with value := counter.value + 1 }, result) ∧
      result.isOk = decide (counter.value + 1 ≤ l.limit.toNat) := by
  have hlimit := l.limit_pos
  have hne : counter.value + 1 ≠ 1 := by omega
  simp only [RedisLimiter.Allow, fixedWindowScript, incr_live h, if_neg hne]
  by_cases hle : ((counter.value + 1 : Nat) : Int) > l.limit
  · refine ⟨_, by rw [if_pos hle], ?_⟩
    have hgt : ¬counter.value + 1 ≤ l.limit.toNat := by omega
    simp [hgt, Except.isOk, Except.toBool]
  · refine ⟨_, by rw [if_neg hle], ?_⟩
    have hle' : counter.value + 1 ≤ l.limit.toNat := by omega
    simp [hle', Except.isOk, Except.toBool]

/-- What a step may do: time passes, or a call opens a window or counts in the one that is open. -/
inductive Move (limit width : Nat) (s : State) : State → Prop
  | passed (n : Nat) : Move limit width s { s with now := s.now + n }
  | opened (d : Call) (hget : s.redis.get s.now d.key = none) (htime : d.time = s.now)
      (hcreated : d.created = true) (hres : d.granted = true) :
      Move limit width s
        ⟨put s.redis d.key ⟨1, some (s.now + width)⟩, s.now, s.calls ++ [d]⟩
  | counted (d : Call) (counter : Counter) (hget : s.redis.get s.now d.key = some counter)
      (htime : d.time = s.now) (hcreated : d.created = false)
      (hres : d.granted = decide (counter.value + 1 ≤ limit)) :
      Move limit width s ⟨put s.redis d.key { counter with value := counter.value + 1 }, s.now,
        s.calls ++ [d]⟩

theorem get_some {redis : Redis} (h : redis.get now key = some counter) :
    redis key = some counter ∧ counter.live now = true :=
  Option.filter_eq_some_iff.mp h

theorem get_none {redis : Redis} (h : redis.get now key = none) (hk : redis key = some counter) :
    counter.live now = false := by
  simpa [Redis.get, hk] using h

theorem step_moves (h : Kept l.limit.toNat l.windowMilliseconds s) {a : Action}
    (hs : step l s a = some s') : Move l.limit.toNat l.windowMilliseconds s s' := by
  cases a with
  | pass n =>
    cases hs
    exact .passed n
  | allow worker key =>
    cases hget : s.redis.get s.now (l.redisKey key) with
    | none =>
      simp only [step, allow_fresh hget, hget, Option.isNone_none] at hs
      cases hs
      exact .opened ⟨worker, l.redisKey key, s.now, true, .ok ()⟩ hget rfl rfl rfl
    | some counter =>
      obtain ⟨c, hc⟩ := h.current _ counter (get_some hget).1
      obtain ⟨result, hallow, hok⟩ := allow_live hget hc.value
      simp only [step, hallow, hget, Option.isNone_some] at hs
      cases hs
      exact .counted ⟨worker, l.redisKey key, s.now, false, result⟩ counter hget rfl rfl hok

theorem granted_append (width : Nat) (calls : List Call) (key : Text) (start : Nat) (d : Call) :
    granted width (calls ++ [d]) key start = granted width calls key start +
      (counts key d && decide (Within width start d.time)).toNat := by
  simp only [granted, List.countP_append, List.countP_singleton]
  cases counts key d && decide (Within width start d.time) <;> rfl

/-- A call does not count on another key, or in a window that is over. -/
theorem granted_same {start : Nat} (h : d.key = key → ¬Within width start d.time) :
    granted width (calls ++ [d]) key start = granted width calls key start := by
  have hfalse : (counts key d && decide (Within width start d.time)) = false := by
    by_cases hk : d.key = key
    · simp [h hk]
    · simp [counts, hk]
  rw [granted_append, hfalse]
  rfl

/-- Nothing is granted in a window before its first call. -/
theorem granted_none {start : Nat} (h : ∀ d ∈ calls, d.key = key → d.time < start) :
    granted width calls key start = 0 := by
  apply List.countP_eq_zero.mpr
  intro d hd hc
  simp only [counts, Bool.and_eq_true, beq_iff_eq, decide_eq_true_eq] at hc
  have := h d hd hc.1.1
  have := hc.2.1
  omega

/-- What is known of the refused calls, once another call has returned. -/
theorem denied_append {p : List Call → Call → Prop}
    (h : ∀ before d after, calls = before ++ d :: after → d.granted = false → p before d)
    (hnew : d.granted = false → p calls d) :
    ∀ before e after, calls ++ [d] = before ++ e :: after → e.granted = false → p before e := by
  intro before e after he hg
  rcases List.eq_nil_or_concat after with rfl | ⟨after', x, rfl⟩
  · obtain ⟨rfl, hd⟩ := List.append_inj' he rfl
    cases hd
    exact hnew hg
  · rw [List.concat_eq_append, ← List.cons_append, ← List.append_assoc] at he
    obtain ⟨rfl, _⟩ := List.append_inj' he rfl
    exact h before e after' rfl hg

/-- Another key after a call. -/
theorem Current.other (h : Current limit width calls key counter c) (hne : d.key ≠ key) :
    Current limit width (calls ++ [d]) key counter c := by
  refine ⟨List.mem_append_left _ h.mem, h.same, h.created, h.expiry, ?_, ?_, h.value, ?_⟩
  · exact Rows.append_all h.before (fun hk => absurd hk hne)
  · exact Rows.append_all h.last (fun hk => absurd hk hne)
  · rw [granted_same (fun hk => absurd hk hne)]
    exact h.counted

/-- The keys that Redis does not hold after a call. -/
theorem Kept.absent_put (h : Kept limit width s) (counter : Counter) (key : Text)
    (hkey : put s.redis d.key counter key = none) : ∀ e ∈ s.calls ++ [d], e.key ≠ key := by
  have hne : key ≠ d.key := by
    intro heq
    subst heq
    simp [put] at hkey
  exact Rows.append_all (h.absent key (by simpa [put, hne] using hkey)) (Ne.symm hne)

/-- All calls on a key that Redis does not hold any more are a window ago. -/
theorem Kept.over (h : Kept limit width s) (hget : s.redis.get s.now key = none) (hc : c ∈ s.calls)
    (hk : c.key = key) : c.time < s.now ∧ (c.created = true → c.time + width ≤ s.now) := by
  cases hredis : s.redis key with
  | none => exact absurd hk (h.absent key hredis c hc)
  | some counter =>
    obtain ⟨c', hcur⟩ := h.current key counter hredis
    have hdead := get_none hget hredis
    have hle : c'.time + width ≤ s.now := by simpa [Counter.live, hcur.expiry] using hdead
    have := hcur.before c hc hk
    refine ⟨by omega, ?_⟩
    intro hcreated
    have := hcur.last c hc hk hcreated
    omega

theorem opened_kept (hlimit : 0 < limit) (hwidth : 0 < width) (h : Kept limit width s)
    (hget : s.redis.get s.now d.key = none) (htime : d.time = s.now) (hcreated : d.created = true)
    (hres : d.granted = true) : Kept limit width
      ⟨put s.redis d.key ⟨1, some (s.now + width)⟩, s.now, s.calls ++ [d]⟩ := by
  have hd : d ∈ s.calls ++ [d] := List.mem_append_right _ List.mem_cons_self
  have hself : Within width d.time d.time := ⟨Nat.le_refl _, Nat.lt_add_of_pos_right hwidth⟩
  have hone : granted width (s.calls ++ [d]) d.key d.time = 1 := by
    rw [granted_append, granted_none (fun e he hk => htime ▸ (h.over hget he hk).1)]
    simp [counts, hres, hself]
  refine ⟨Rows.append_all h.past (Nat.le_of_eq htime), h.absent_put _, ?_, ?_, ?_, ?_, ?_⟩
  · intro key counter hkey
    by_cases hk : key = d.key
    · subst hk
      obtain rfl : (⟨1, some (s.now + width)⟩ : Counter) = counter := by simpa [put] using hkey
      refine ⟨d, hd, rfl, hcreated, by rw [htime], ?_, ?_, Nat.one_pos, ?_⟩
      · refine Rows.append_all (fun e he hk => ?_) (fun _ => by omega)
        have := (h.over hget he hk).1
        omega
      · refine Rows.append_all (fun e he _ _ => ?_) (fun _ _ => Nat.le_refl _)
        have := h.past e he
        omega
      · rw [hone]
        exact (Nat.min_eq_left hlimit).symm
    · obtain ⟨c, hc⟩ := h.current key counter (by simpa [put, hk] using hkey)
      exact ⟨c, hc.other (Ne.symm hk)⟩
  · refine Rows.append_all (fun c hc => Rows.append_all (h.apart c hc) ?_) (Rows.append_all ?_ ?_)
    · intro hk hcc _ _
      have := (h.over hget hc hk).2 hcc
      omega
    · intro e he _ _ _ hlt
      have := h.past e he
      omega
    · intro _ _ _ hlt
      omega
  · refine Rows.append_all (fun e he => ?_) ⟨d, hd, rfl, hcreated, hself⟩
    obtain ⟨c, hc, hrest⟩ := h.covered e he
    exact ⟨c, List.mem_append_left _ hc, hrest⟩
  · refine Rows.append_all (fun c hc hcc => ?_) (fun _ => ?_)
    · rw [granted_same]
      · exact h.window c hc hcc
      · intro hk hw
        have := (h.over hget hc hk.symm).2 hcc
        have := hw.2
        omega
    · rw [hone]
      exact hlimit
  · refine denied_append h.denied (fun hno => ?_)
    rw [hres] at hno
    cases hno

theorem counted_kept (h : Kept limit width s) (hget : s.redis.get s.now d.key = some counter)
    (htime : d.time = s.now) (hcreated : d.created = false)
    (hres : d.granted = decide (counter.value + 1 ≤ limit)) : Kept limit width
      ⟨put s.redis d.key { counter with value := counter.value + 1 }, s.now, s.calls ++ [d]⟩ := by
  obtain ⟨hredis, hlive⟩ := get_some hget
  obtain ⟨c, hcur⟩ := h.current d.key counter hredis
  have hbefore : d.time < c.time + width := by
    have : s.now < c.time + width := by simpa [Counter.live, hcur.expiry] using hlive
    omega
  have hpast := h.past c hcur.mem
  have hin : Within width c.time d.time := ⟨by omega, hbefore⟩
  have hnot : ¬d.created = true := by simp [hcreated]
  have hcount : granted width (s.calls ++ [d]) d.key c.time = min (counter.value + 1) limit := by
    rw [granted_append, hcur.counted]
    have hnew : (counts d.key d && decide (Within width c.time d.time)) =
        decide (counter.value + 1 ≤ limit) := by
      simp [counts, hres, hin]
    rw [hnew]
    by_cases hle : counter.value + 1 ≤ limit <;> simp [hle] <;> omega
  refine ⟨Rows.append_all h.past (Nat.le_of_eq htime), h.absent_put _, ?_, ?_, ?_, ?_, ?_⟩
  · intro key counter' hkey
    by_cases hk : key = d.key
    · subst hk
      obtain rfl : { counter with value := counter.value + 1 } = counter' := by
        simpa [put] using hkey
      exact ⟨c, List.mem_append_left _ hcur.mem, hcur.same, hcur.created, hcur.expiry,
        Rows.append_all hcur.before (fun _ => hbefore),
        Rows.append_all hcur.last (fun _ hdc => absurd hdc hnot), Nat.succ_pos _, hcount⟩
    · obtain ⟨c', hc'⟩ := h.current key counter' (by simpa [put, hk] using hkey)
      exact ⟨c', hc'.other (Ne.symm hk)⟩
  · refine Rows.append_all (fun c' hc => Rows.append_all (h.apart c' hc) ?_) ?_
    · intro _ _ hdc _
      exact absurd hdc hnot
    · intro _ _ _ hdc
      exact absurd hdc hnot
  · refine Rows.append_all (fun e he => ?_) ?_
    · obtain ⟨c', hc', hrest⟩ := h.covered e he
      exact ⟨c', List.mem_append_left _ hc', hrest⟩
    · exact ⟨c, List.mem_append_left _ hcur.mem, hcur.same, hcur.created, hin⟩
  · refine Rows.append_all (fun c' hc hcc => ?_) (fun hdc => absurd hdc hnot)
    by_cases hsame : c'.key = d.key ∧ c'.time = c.time
    · rw [hsame.1, hsame.2, hcount]
      exact Nat.min_le_right _ _
    · rw [granted_same]
      · exact h.window c' hc hcc
      · -- An earlier window of the key is over.
        intro hk hw
        have hle := hcur.last c' hc hk.symm hcc
        have hlt : c'.time < c.time := Nat.lt_of_le_of_ne hle (fun he => hsame ⟨hk.symm, he⟩)
        have := h.apart c' hc c hcur.mem (hk.symm.trans hcur.same.symm) hcc hcur.created hlt
        have := hw.2
        omega
  · refine denied_append h.denied (fun hno => ?_)
    rw [hres, decide_eq_false_iff_not] at hno
    refine ⟨c, hcur.mem, hcur.same, hcur.created, hin, ?_⟩
    rw [hcur.counted]
    omega

theorem move_kept (hlimit : 0 < limit) (hwidth : 0 < width) (h : Kept limit width s)
    (hm : Move limit width s s') : Kept limit width s' := by
  cases hm with
  | passed n =>
    exact { h with past := fun d hd => Nat.le_trans (h.past d hd) (Nat.le_add_right _ _) }
  | opened d hget htime hcreated hres => exact opened_kept hlimit hwidth h hget htime hcreated hres
  | counted d counter hget htime hcreated hres => exact counted_kept h hget htime hcreated hres

theorem initial_kept (limit width now : Nat) : Kept limit width (initial now) := by
  constructor <;> simp [initial]

theorem run_kept (hwidth : 0 < l.windowMilliseconds) (h : Run (step l) Free (initial now) s) :
    Kept l.limit.toNat l.windowMilliseconds s := by
  have hlimit := l.limit_pos
  refine h.invariant (Kept l.limit.toNat l.windowMilliseconds) (initial_kept _ _ _) ?_
  intro _ _ _ hk _ hs
  exact move_kept (by omega) hwidth hk (step_moves hk hs)

/-- The windows of a key. -/
theorem Kept.fixed (h : Kept limit width s) (key : Text) :
    Fixed Call.time (counts key) width limit
      (fun start => ∃ c ∈ s.calls, c.key = key ∧ c.created = true ∧ c.time = start) s.calls := by
  refine ⟨?_, ?_, ?_⟩
  · intro _ _ h hr hlt
    obtain ⟨c, hc, hck, hcc, rfl⟩ := h
    obtain ⟨d, hd, hdk, hdc, rfl⟩ := hr
    exact h.apart c hc d hd (hck.trans hdk.symm) hcc hdc hlt
  · intro e he hcounts
    obtain ⟨c, hc, hk, hcc, hw⟩ := h.covered e he
    have hkey : e.key = key := by
      simp only [counts, Bool.and_eq_true, beq_iff_eq] at hcounts
      exact hcounts.1
    exact ⟨c.time, ⟨c, hc, hk.trans hkey, hcc, rfl⟩, hw⟩
  · intro _ h
    obtain ⟨c, hc, rfl, hcc, rfl⟩ := h
    exact h.window c hc hcc

theorem Kept.bounded (h : Kept limit width s) : Bounded limit width s where
  window := h.window
  interval key _ _ hab := (h.fixed key).interval hab
  denied := h.denied
  expiry key counter hkey := by
    obtain ⟨c, hc⟩ := h.current key counter hkey
    exact ⟨c, hc.mem, hc.same, hc.created, hc.expiry⟩

/-- With a window of `m` milliseconds, whatever the workers call and when, the limiter keeps its
bounds. -/
theorem rate_bounded (l : RedisLimiter) (m now : Nat) (hm : l.window = 1000000 * m) (s : State)
    (h : Run (step l) Free (initial now) s) : Bounded l.limit.toNat m s := by
  have hpos := l.window_pos
  have hwidth : l.windowMilliseconds = m := by
    have hdiv : l.window / 1000000 = m := by omega
    simp only [RedisLimiter.windowMilliseconds, hdiv]
    rw [if_neg (by omega)]
    omega
  have hkept := run_kept (by omega) h
  rw [hwidth] at hkept
  exact hkept.bounded

def twoPerMillisecond : RedisLimiter where
  limit := 2
  window := 1000000
  keyPrefix := "limiter".toList
  limit_pos := by decide
  window_pos := by decide

/-- Two workers are granted two calls, refused a third, and granted one when the window is over. -/
theorem third_waits : ∃ s, Run (step twoPerMillisecond) Free (initial 5) s ∧
    s.calls.map Call.granted = [true, true, false, true] ∧ Bounded 2 1 s := by
  obtain ⟨s, hrun, hcalls⟩ := replay_reaches (step twoPerMillisecond) Free
    (p := fun s => s.calls.map Call.granted = [true, true, false, true]) (initial 5)
    [.allow 0 [], .allow 1 [], .allow 0 [], .pass 1, .allow 1 []] (by decide +kernel)
  exact ⟨s, hrun, hcalls, rate_bounded twoPerMillisecond 1 5 rfl s hrun⟩

end FileDelivery.Proofs.RateBound
