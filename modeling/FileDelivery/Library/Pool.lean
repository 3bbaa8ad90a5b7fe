import FileDelivery.Library.Runs
import Mathlib.Algebra.GroupWithZero.Nat
import Mathlib.Algebra.Order.Group.Nat
import Mathlib.Data.List.Forall2

namespace FileDelivery.Library.Pool
open FileDelivery.Library.Runs

/-- What a pool runs once for each job, in steps that depend on what its surroundings answer. -/
structure Routine (α κ γ ρ : Type*) where
  start : κ
  step : α → κ → γ → Option κ
  result : κ → Option ρ

/-- Where the routine of a job is: at its end it writes its result into its slot, gives its token
back and signs off. -/
inductive Stage (κ ρ : Type*) where
  | running (k : κ)
  | written (r : ρ)
  | released (r : ρ)
  | done (r : ρ)
  deriving DecidableEq, Repr

/-- Where the loop is that starts the routines. -/
inductive Loop where
  /-- About to count the next job, or to wait where there is none. -/
  | counting
  /-- The job is counted, and waits for a token. -/
  | sending
  | starting
  | waiting
  | returned
  deriving DecidableEq, Repr

structure State (κ ρ : Type*) where
  loop : Loop
  /-- The routines that the loop waits for. -/
  counter : Nat
  /-- The tokens that are taken. -/
  tokens : Nat
  routines : List (Stage κ ρ)
  slots : List ρ
  deriving DecidableEq, Repr

inductive Action (γ : Type*) where
  | loop
  | work (i : Nat) (answer : γ)
  | write (i : Nat)
  | release (i : Nat)
  | finish (i : Nat)
  deriving DecidableEq, Repr

variable {α κ γ ρ : Type*}

def initial (zero : ρ) (jobs : Nat) : State κ ρ := ⟨.counting, 0, 0, [], List.replicate jobs zero⟩

def State.move (s : State κ ρ) (i : Nat) (stage : Stage κ ρ) : State κ ρ :=
  { s with routines := s.routines.set i stage }

/-- The loop counts a job, takes a token and starts the routine. -/
def advance (start : κ) (capacity jobs : Nat) (s : State κ ρ) : Option (State κ ρ) :=
  match s.loop with
  | .counting =>
    if s.routines.length < jobs then some { s with loop := .sending, counter := s.counter + 1 }
    else some { s with loop := .waiting }
  | .sending =>
    if s.tokens < capacity then some { s with loop := .starting, tokens := s.tokens + 1 } else none
  | .starting => some { s with loop := .counting, routines := s.routines ++ [.running start] }
  | .waiting => if s.counter = 0 then some { s with loop := .returned } else none
  | .returned => none

def step (R : Routine α κ γ ρ) (capacity : Nat) (jobs : List α) (s : State κ ρ) :
    Action γ → Option (State κ ρ)
  | .loop => advance R.start capacity jobs.length s
  | .work i answer =>
    match jobs[i]?, s.routines[i]? with
    | some job, some (.running k) => (R.step job k answer).map (fun k => s.move i (.running k))
    | _, _ => none
  | .write i =>
    match s.routines[i]? with
    | some (.running k) =>
      (R.result k).map (fun r => { s.move i (.written r) with slots := s.slots.set i r })
    | _ => none
  | .release i =>
    match s.routines[i]? with
    | some (.written r) =>
      if 0 < s.tokens then some { s.move i (.released r) with tokens := s.tokens - 1 } else none
    | _ => none
  | .finish i =>
    match s.routines[i]? with
    | some (.released r) =>
      if 0 < s.counter then some { s.move i (.done r) with counter := s.counter - 1 } else none
    | _ => none

variable {R : Routine α κ γ ρ} {capacity : Nat} {jobs : List α} {s s' : State κ ρ} {a : Action γ}

/-- What a step of a pool may do. -/
inductive Move (R : Routine α κ γ ρ) (capacity : Nat) (jobs : List α) (s : State κ ρ) :
    Action γ → State κ ρ → Prop
  | counted (hl : s.loop = .counting) (h : s.routines.length < jobs.length) :
      Move R capacity jobs s .loop { s with loop := .sending, counter := s.counter + 1 }
  | through (hl : s.loop = .counting) (h : jobs.length ≤ s.routines.length) :
      Move R capacity jobs s .loop { s with loop := .waiting }
  | sent (hl : s.loop = .sending) (h : s.tokens < capacity) :
      Move R capacity jobs s .loop { s with loop := .starting, tokens := s.tokens + 1 }
  | started (hl : s.loop = .starting) :
      Move R capacity jobs s .loop
        { s with loop := .counting, routines := s.routines ++ [.running R.start] }
  | returned (hl : s.loop = .waiting) (h : s.counter = 0) :
      Move R capacity jobs s .loop { s with loop := .returned }
  | worked (i : Nat) (job : α) (k k' : κ) (answer : γ) (hj : jobs[i]? = some job)
      (hr : s.routines[i]? = some (.running k)) (h : R.step job k answer = some k') :
      Move R capacity jobs s (.work i answer) (s.move i (.running k'))
  | written (i : Nat) (k : κ) (r : ρ) (hr : s.routines[i]? = some (.running k))
      (h : R.result k = some r) :
      Move R capacity jobs s (.write i) { s.move i (.written r) with slots := s.slots.set i r }
  | released (i : Nat) (r : ρ) (hr : s.routines[i]? = some (.written r)) (h : 0 < s.tokens) :
      Move R capacity jobs s (.release i) { s.move i (.released r) with tokens := s.tokens - 1 }
  | finished (i : Nat) (r : ρ) (hr : s.routines[i]? = some (.released r)) (h : 0 < s.counter) :
      Move R capacity jobs s (.finish i) { s.move i (.done r) with counter := s.counter - 1 }

theorem step_moves (h : step R capacity jobs s a = some s') : Move R capacity jobs s a s' := by
  cases a with
  | loop =>
    simp only [step, advance] at h
    split at h
    · rename_i hl
      split at h
      · rename_i hlt
        cases h
        exact .counted hl hlt
      · rename_i hge
        cases h
        exact .through hl (by omega)
    · rename_i hl
      split at h
      · rename_i hlt
        cases h
        exact .sent hl hlt
      · cases h
    · rename_i hl
      cases h
      exact .started hl
    · rename_i hl
      split at h
      · rename_i hzero
        cases h
        exact .returned hl hzero
      · cases h
    · cases h
  | work i answer =>
    simp only [step] at h
    split at h
    · rename_i job k hj hr
      obtain ⟨k', hk, rfl⟩ := Option.map_eq_some_iff.mp h
      exact .worked i job k k' answer hj hr hk
    · cases h
  | write i =>
    simp only [step] at h
    split at h
    · rename_i k hr
      obtain ⟨r, hres, rfl⟩ := Option.map_eq_some_iff.mp h
      exact .written i k r hr hres
    · cases h
  | release i =>
    simp only [step] at h
    split at h
    · rename_i r hr
      split at h
      · rename_i hpos
        cases h
        exact .released i r hr hpos
      · cases h
    · cases h
  | finish i =>
    simp only [step] at h
    split at h
    · rename_i r hr
      split at h
      · rename_i hpos
        cases h
        exact .finished i r hr hpos
      · cases h
    · cases h

/-- The routine has a token. -/
def Stage.holds : Stage κ ρ → Bool
  | .running _ | .written _ => true
  | _ => false

/-- The loop waits for the routine. -/
def Stage.live : Stage κ ρ → Bool
  | .done _ => false
  | _ => true

/-- What the routine has written. -/
def Stage.value : Stage κ ρ → Option ρ
  | .running _ => none
  | .written r | .released r | .done r => some r

/-- What the loop has counted and not started. -/
def Loop.counted : Loop → Nat
  | .sending | .starting => 1
  | _ => 0

/-- The tokens that the loop has taken for a routine that is not started. -/
def Loop.taken : Loop → Nat
  | .starting => 1
  | _ => 0

structure Sound (capacity jobs : Nat) (s : State κ ρ) : Prop where
  counter : s.counter = s.routines.countP Stage.live + s.loop.counted
  tokens : s.tokens = s.routines.countP Stage.holds + s.loop.taken
  bound : s.tokens ≤ capacity
  begun : s.routines.length + s.loop.counted ≤ jobs
  all : s.loop = .waiting ∨ s.loop = .returned → s.routines.length = jobs
  ended : s.loop = .returned → s.counter = 0
  slots : s.slots.length = jobs
  own : ∀ (i : Nat) (stage : Stage κ ρ) (r : ρ), s.routines[i]? = some stage → stage.value = some r →
    s.slots[i]? = some r

theorem initial_sound (zero : ρ) (capacity jobs : Nat) :
    Sound capacity jobs (initial zero jobs : State κ ρ) := by
  constructor <;> simp [initial, Loop.counted, Loop.taken]

theorem countP_set {σ : Type*} {l : List σ} {i : Nat} {a : σ} (h : l[i]? = some a) (p : σ → Bool)
    (b : σ) : (l.set i b).countP p + (p a).toNat = l.countP p + (p b).toNat := by
  induction l generalizing i with
  | nil => cases h
  | cons x l ih =>
    cases i with
    | zero =>
      obtain rfl : x = a := by simpa using h
      cases hx : p x <;> cases hb : p b <;> simp [hx, hb]
    | succ i =>
      have := ih (i := i) (by simpa using h)
      simp only [List.set_cons_succ, List.countP_cons]
      omega

/-- A routine moves on, and settles with the loop and with the other routines. -/
theorem moved_sound {n i counter tokens : Nat} {stage stage' : Stage κ ρ} {slots : List ρ}
    (h : Sound capacity n s) (hr : s.routines[i]? = some stage)
    (hcounter : counter + stage.live.toNat = s.counter + stage'.live.toNat)
    (htokens : tokens + stage.holds.toNat = s.tokens + stage'.holds.toNat)
    (hless : counter ≤ s.counter ∧ tokens ≤ s.tokens) (hlen : slots.length = n)
    (hslots : ∀ j, j ≠ i → slots[j]? = s.slots[j]?)
    (hnew : ∀ r, stage'.value = some r → slots[i]? = some r) :
    Sound capacity n ⟨s.loop, counter, tokens, s.routines.set i stage', slots⟩ := by
  have hlive := countP_set hr Stage.live stage'
  have hholds := countP_set hr Stage.holds stage'
  have hc := h.counter
  have ht := h.tokens
  refine ⟨?_, ?_, Nat.le_trans hless.2 h.bound, ?_, ?_, ?_, hlen, ?_⟩
  · simp only
    omega
  · simp only
    omega
  · simpa using h.begun
  · simpa using h.all
  · intro hl
    have := h.ended hl
    simp only
    omega
  · intro j st r hj hv
    by_cases hji : j = i
    · subst hji
      rw [List.getElem?_set_self (List.getElem?_eq_some_iff.mp hr).1] at hj
      cases hj
      exact hnew r hv
    · rw [List.getElem?_set_ne (Ne.symm hji)] at hj
      rw [hslots j hji]
      exact h.own j st r hj hv

theorem move_sound (h : Sound capacity jobs.length s) (hm : Move R capacity jobs s a s') :
    Sound capacity jobs.length s' := by
  have hcounter := h.counter
  have htokens := h.tokens
  have hbegun := h.begun
  cases hm with
  | counted hl hlt =>
    simp only [hl, Loop.counted, Loop.taken] at hcounter htokens hbegun
    refine ⟨?_, htokens, h.bound, hlt, by simp, by simp, h.slots, h.own⟩
    simp only [Loop.counted]
    omega
  | through hl hge =>
    simp only [hl, Loop.counted, Loop.taken] at hcounter htokens hbegun
    refine ⟨hcounter, htokens, h.bound, hbegun, fun _ => ?_, by simp, h.slots, h.own⟩
    exact Nat.le_antisymm hbegun hge
  | sent hl hlt =>
    simp only [hl, Loop.counted, Loop.taken] at hcounter htokens hbegun
    refine ⟨hcounter, ?_, hlt, hbegun, by simp, by simp, h.slots, h.own⟩
    simp only [Loop.taken]
    omega
  | started hl =>
    simp only [hl, Loop.counted, Loop.taken] at hcounter htokens hbegun
    refine ⟨?_, ?_, h.bound, ?_, by simp, by simp, h.slots, ?_⟩
    · simp [Loop.counted, Stage.live, hcounter]
    · simp [Loop.taken, Stage.holds, htokens]
    · simpa [Loop.counted] using hbegun
    · intro i st r hi hv
      rw [List.getElem?_append] at hi
      split at hi
      · exact h.own i st r hi hv
      · obtain rfl := List.mem_singleton.mp (List.mem_of_getElem? hi)
        cases hv
  | returned hl hzero =>
    simp only [hl, Loop.counted, Loop.taken] at hcounter htokens hbegun
    exact ⟨hcounter, htokens, h.bound, hbegun, fun _ => h.all (.inl hl), fun _ => hzero, h.slots,
      h.own⟩
  | worked i job k k' answer hj hr hk =>
    exact moved_sound h hr rfl rfl ⟨Nat.le_refl _, Nat.le_refl _⟩ h.slots (fun _ _ => rfl) nofun
  | written i k r hr hres =>
    refine moved_sound h hr rfl rfl ⟨Nat.le_refl _, Nat.le_refl _⟩ (by simpa using h.slots)
      (fun j hj => List.getElem?_set_ne (Ne.symm hj)) ?_
    intro r' hv
    cases hv
    have hlt := (List.getElem?_eq_some_iff.mp hr).1
    exact List.getElem?_set_self (by rw [h.slots]; omega)
  | released i r hr hpos =>
    have hback : s.tokens - 1 + 1 = s.tokens := Nat.sub_add_cancel hpos
    exact moved_sound h hr rfl hback ⟨Nat.le_refl _, Nat.sub_le _ _⟩ h.slots (fun _ _ => rfl)
      (fun r' hv => h.own i _ r' hr hv)
  | finished i r hr hpos =>
    have hback : s.counter - 1 + 1 = s.counter := Nat.sub_add_cancel hpos
    exact moved_sound h hr hback rfl ⟨Nat.sub_le _ _, Nat.le_refl _⟩ h.slots (fun _ _ => rfl)
      (fun r' hv => h.own i _ r' hr hv)

theorem run_sound {ok : State κ ρ → Action γ → Prop} {zero : ρ}
    (h : Run (step R capacity jobs) ok (initial zero jobs.length) s) : Sound capacity jobs.length s :=
  h.invariant (Sound capacity jobs.length) (initial_sound zero capacity jobs.length)
    (fun _ _ _ hs _ hn => move_sound hs (step_moves hn))

/-- No more routines hold a token than there are tokens. -/
theorem Sound.holds_le {n : Nat} (h : Sound capacity n s) : s.routines.countP Stage.holds ≤ capacity := by
  have := h.tokens
  have := h.bound
  omega

/-- Once the pool is through, each slot has what the routine of its job has written. -/
theorem Sound.all_done {n : Nat} (h : Sound capacity n s) (hl : s.loop = .returned) :
    s.routines = s.slots.map .done := by
  have hcounter := h.counter
  rw [h.ended hl] at hcounter
  have hnone : ∀ stage ∈ s.routines, stage.live = false := by
    have hzero : s.routines.countP Stage.live = 0 := by omega
    simpa using List.countP_eq_zero.mp hzero
  apply List.ext_getElem
  · rw [List.length_map, h.slots, h.all (.inr hl)]
  · intro i hi hi'
    have hdead := hnone _ (List.getElem_mem hi)
    have hget : s.routines[i]? = some s.routines[i] := List.getElem?_eq_getElem hi
    cases hst : s.routines[i] with
    | done r =>
      have hslot := h.own i _ r hget (by rw [hst]; rfl)
      obtain ⟨_, hr⟩ := List.getElem?_eq_some_iff.mp hslot
      rw [List.getElem_map, hr]
    | running k => simp [hst, Stage.live] at hdead
    | written r => simp [hst, Stage.live] at hdead
    | released r => simp [hst, Stage.live] at hdead

/-- A condition on the answers that the routines get. -/
def Answered (good : α → κ → γ → Prop) (jobs : List α) (s : State κ ρ) : Action γ → Prop
  | .work i answer => ∀ job ∈ jobs[i]?, ∀ k, s.routines[i]? = some (.running k) → good job k answer
  | _ => True

/-- A routine meets one property while it runs, and its result another one. -/
def Stage.Meets (p : κ → Prop) (q : ρ → Prop) : Stage κ ρ → Prop
  | .running k => p k
  | .written r | .released r | .done r => q r

/-- What holds of each routine by itself holds of the routines in a pool. -/
theorem run_meets {good : α → κ → γ → Prop} {p : α → κ → Prop} {q : α → ρ → Prop} {zero : ρ}
    (hstart : ∀ job, p job R.start)
    (hstep : ∀ job k a k', p job k → good job k a → R.step job k a = some k' → p job k')
    (hresult : ∀ job k r, p job k → R.result k = some r → q job r)
    (h : Run (step R capacity jobs) (Answered good jobs) (initial zero jobs.length) s) :
    ∀ (i : Nat) (stage : Stage κ ρ) (job : α), s.routines[i]? = some stage → jobs[i]? = some job →
      stage.Meets (p job) (q job) := by
  have moved : ∀ {s : State κ ρ} {i : Nat} {stage : Stage κ ρ},
      (∀ (j : Nat) (st : Stage κ ρ) (job : α), s.routines[j]? = some st → jobs[j]? = some job →
        st.Meets (p job) (q job)) →
      (∀ job, jobs[i]? = some job → stage.Meets (p job) (q job)) →
      ∀ (j : Nat) (st : Stage κ ρ) (job : α), (s.routines.set i stage)[j]? = some st →
        jobs[j]? = some job → st.Meets (p job) (q job) := by
    intro s i stage hall hnew j st job hj hjob
    rw [List.getElem?_set] at hj
    split at hj
    · rename_i hij
      split at hj
      · cases hj
        exact hnew job (hij ▸ hjob)
      · cases hj
    · exact hall j st job hj hjob
  refine h.invariant (fun s => ∀ (i : Nat) (stage : Stage κ ρ) (job : α),
    s.routines[i]? = some stage → jobs[i]? = some job → stage.Meets (p job) (q job)) ?_ ?_
  · simp [initial]
  · intro s a s' hall hok hn
    cases step_moves hn with
    | counted | through | sent | returned => exact hall
    | started =>
      intro i st job hi hjob
      rw [List.getElem?_append] at hi
      split at hi
      · exact hall i st job hi hjob
      · obtain rfl := List.mem_singleton.mp (List.mem_of_getElem? hi)
        exact hstart job
    | worked i job k k' answer hj hr hk =>
      refine moved hall (fun job' hjob => ?_)
      obtain rfl := Option.some.inj (hj.symm.trans hjob)
      exact hstep job k answer k' (hall i _ job hr hj) (hok job hj k hr) hk
    | written i k r hr hres =>
      exact moved hall (fun job hjob => hresult job k r (hall i _ job hr hjob) hres)
    | released i r hr =>
      have hold : ∀ job, jobs[i]? = some job → q job r := fun job => hall i (.written r) job hr
      exact moved hall hold
    | finished i r hr =>
      have hold : ∀ job, jobs[i]? = some job → q job r := fun job => hall i (.released r) job hr
      exact moved hall hold

/-- What is collected is one result for each job, in the order of the jobs. -/
theorem run_results {good : α → κ → γ → Prop} {p : α → κ → Prop} {q : α → ρ → Prop} {zero : ρ}
    (hstart : ∀ job, p job R.start)
    (hstep : ∀ job k a k', p job k → good job k a → R.step job k a = some k' → p job k')
    (hresult : ∀ job k r, p job k → R.result k = some r → q job r)
    (h : Run (step R capacity jobs) (Answered good jobs) (initial zero jobs.length) s)
    (hl : s.loop = .returned) : List.Forall₂ q jobs s.slots := by
  have hs := run_sound h
  have hdone := hs.all_done hl
  refine List.forall₂_iff_get.mpr ⟨hs.slots.symm, ?_⟩
  intro i hi hi'
  refine run_meets hstart hstep hresult h i (.done s.slots[i]) jobs[i] ?_
    (List.getElem?_eq_getElem hi)
  simp [hdone, hi']

section Ends
variable (rank : κ → Nat)

/-- The steps that a routine has before it. -/
def Stage.left : Stage κ ρ → Nat
  | .running k => rank k + 3
  | .written _ => 2
  | .released _ => 1
  | .done _ => 0

def Loop.left : Loop → Nat
  | .counting => 2
  | .sending | .waiting => 1
  | .starting | .returned => 0

def left (R : Routine α κ γ ρ) (jobs : Nat) (s : State κ ρ) : Nat :=
  (s.routines.map (Stage.left rank)).sum + (jobs - s.routines.length) * (rank R.start + 6) +
    s.loop.left

theorem sum_set {σ : Type*} {l : List σ} {i : Nat} {a : σ} (h : l[i]? = some a) (w : σ → Nat) (b : σ) :
    ((l.set i b).map w).sum + w a = (l.map w).sum + w b := by
  induction l generalizing i with
  | nil => cases h
  | cons x l ih =>
    cases i with
    | zero =>
      obtain rfl : x = a := by simpa using h
      simp only [List.set_cons_zero, List.map_cons, List.sum_cons]
      omega
    | succ i =>
      have := ih (i := i) (by simpa using h)
      simp only [List.set_cons_succ, List.map_cons, List.sum_cons]
      omega

theorem moved_left {stage stage' : Stage κ ρ} (hr : s.routines[i]? = some stage)
    (hlt : stage'.left rank < stage.left rank) {counter tokens n : Nat} {slots : List ρ} :
    left rank R n ⟨s.loop, counter, tokens, s.routines.set i stage', slots⟩ < left rank R n s := by
  have := sum_set hr (Stage.left rank) stage'
  simp only [left, List.length_set]
  omega

/-- Every step of a pool brings it closer to its end, if every step of a routine does so for the
routine. -/
theorem move_left (hrank : ∀ job k a k', R.step job k a = some k' → rank k' < rank k)
    (h : Sound capacity jobs.length s) (hm : Move R capacity jobs s a s') :
    left rank R jobs.length s' < left rank R jobs.length s := by
  cases hm with
  | counted hl => simp [left, hl, Loop.left]
  | through hl => simp [left, hl, Loop.left]
  | sent hl => simp [left, hl, Loop.left]
  | returned hl => simp [left, hl, Loop.left]
  | started hl =>
    have hbegun := h.begun
    simp only [hl, Loop.counted] at hbegun
    obtain ⟨rest, hrest⟩ : ∃ rest, jobs.length - s.routines.length = rest + 1 :=
      ⟨jobs.length - s.routines.length - 1, by omega⟩
    have hrest' : jobs.length - (s.routines.length + 1) = rest := by omega
    simp only [left, hl, Loop.left, hrest, hrest', List.map_append, List.map_cons, List.map_nil,
      List.sum_append, List.sum_cons, List.sum_nil, List.length_append, List.length_cons,
      List.length_nil, Stage.left, Nat.zero_add, Nat.add_mul]
    omega
  | worked i job k k' answer hj hr hk =>
    refine moved_left rank hr ?_
    exact Nat.add_lt_add_right (hrank job k answer k' hk) 3
  | written i k r hr => exact moved_left rank hr (by simp only [Stage.left]; omega)
  | released i r hr => exact moved_left rank hr (Nat.lt_succ_self _)
  | finished i r hr => exact moved_left rank hr (Nat.lt_succ_self _)

/-- No schedule goes on for ever. -/
theorem pool_ends (hrank : ∀ job k a k', R.step job k a = some k' → rank k' < rank k) (zero : ρ) :
    Acc (fun t s => ∃ a, step R capacity jobs s a = some t) (initial zero jobs.length) := by
  refine acc_of_measure (Sound capacity jobs.length) (left rank R jobs.length) ?_
    (initial_sound zero capacity jobs.length)
  intro s a t hs hn
  exact ⟨move_sound hs (step_moves hn), move_left rank hrank hs (step_moves hn)⟩

end Ends

/-- A routine that holds a token can go on. -/
theorem holder_goes_on {good : α → κ → γ → Prop}
    (hgoes : ∀ job k, (R.result k).isSome ∨ ∃ a k', good job k a ∧ R.step job k a = some k')
    (h : Sound capacity jobs.length s) {i : Nat} {stage : Stage κ ρ}
    (hr : s.routines[i]? = some stage) (hh : stage.holds = true) :
    ∃ a t, Answered good jobs s a ∧ step R capacity jobs s a = some t := by
  have hlt := (List.getElem?_eq_some_iff.mp hr).1
  have hbegun := h.begun
  cases stage with
  | running k =>
    have hj : jobs[i]? = some jobs[i] := List.getElem?_eq_getElem (by omega)
    rcases hgoes jobs[i] k with hres | ⟨a, k', hgood, hk⟩
    · obtain ⟨r, hres⟩ := Option.isSome_iff_exists.mp hres
      exact ⟨.write i, _, trivial, by simp only [step, hr, hres]; rfl⟩
    · refine ⟨.work i a, s.move i (.running k'), ?_, by simp only [step, hj, hr, hk]; rfl⟩
      intro job hjob k'' hr'
      obtain rfl := Option.some.inj (hj.symm.trans hjob)
      rw [hr] at hr'
      cases hr'
      exact hgood
  | written r =>
    have hpos : 0 < s.tokens := by
      have := h.tokens
      have : 0 < s.routines.countP Stage.holds :=
        List.countP_pos_iff.mpr ⟨_, List.mem_of_getElem? hr, hh⟩
      omega
    exact ⟨.release i, _, trivial, by simp only [step, hr, if_pos hpos]; rfl⟩
  | released r => cases hh
  | done r => cases hh

/-- Until it is through, a pool has a step that it can take. -/
theorem goes_on {good : α → κ → γ → Prop}
    (hgoes : ∀ job k, (R.result k).isSome ∨ ∃ a k', good job k a ∧ R.step job k a = some k')
    (hcap : 0 < capacity) (h : Sound capacity jobs.length s) (hl : s.loop ≠ .returned) :
    ∃ a t, Answered good jobs s a ∧ step R capacity jobs s a = some t := by
  have hcounter := h.counter
  have htokens := h.tokens
  cases hloop : s.loop with
  | counting =>
    by_cases hlt : s.routines.length < jobs.length
    · exact ⟨.loop, _, trivial, by simp only [step, advance, hloop, if_pos hlt]; rfl⟩
    · exact ⟨.loop, _, trivial, by simp only [step, advance, hloop, if_neg hlt]; rfl⟩
  | sending =>
    by_cases hlt : s.tokens < capacity
    · exact ⟨.loop, _, trivial, by simp only [step, advance, hloop, if_pos hlt]; rfl⟩
    · -- Every token is taken, so some routine holds one.
      rw [hloop] at htokens
      have hpos : 0 < s.routines.countP Stage.holds := by
        simp only [Loop.taken] at htokens
        omega
      obtain ⟨stage, hmem, hh⟩ := List.countP_pos_iff.mp hpos
      obtain ⟨i, hi⟩ := List.getElem?_of_mem hmem
      exact holder_goes_on hgoes h hi hh
  | starting => exact ⟨.loop, _, trivial, by simp only [step, advance, hloop]; rfl⟩
  | waiting =>
    by_cases hzero : s.counter = 0
    · exact ⟨.loop, _, trivial, by simp only [step, advance, hloop, if_pos hzero]; rfl⟩
    · rw [hloop] at hcounter
      have hpos : 0 < s.routines.countP Stage.live := by
        simp only [Loop.counted] at hcounter
        omega
      obtain ⟨stage, hmem, hlive⟩ := List.countP_pos_iff.mp hpos
      obtain ⟨i, hi⟩ := List.getElem?_of_mem hmem
      cases stage with
      | released r =>
        exact ⟨.finish i, _, trivial, by simp only [step, hi, if_pos (Nat.pos_of_ne_zero hzero)]; rfl⟩
      | done r => cases hlive
      | running k => exact holder_goes_on hgoes h hi rfl
      | written r => exact holder_goes_on hgoes h hi rfl
  | returned => exact absurd hloop hl

end FileDelivery.Library.Pool
