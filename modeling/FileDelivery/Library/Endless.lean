import FileDelivery.Library.Runs
import Mathlib.Order.Monotone.Basic
import Mathlib.Order.WellFounded

namespace FileDelivery.Library.Endless
open FileDelivery.Library.Runs

/-- A run of a partial transition function that never stops, from a state that it can reach. -/
structure EndlessRun (step : σ → α → Option σ) (start : σ) (states : ℕ → σ) (actions : ℕ → α) :
    Prop where
  begin : Run step Free start (states 0)
  steps : ∀ n, step (states n) (actions n) = some (states (n + 1))

variable {σ α β : Type*} {step : σ → α → Option σ} {start : σ} {states : ℕ → σ} {actions : ℕ → α}

theorem EndlessRun.reaches (h : EndlessRun step start states actions) (n : ℕ) :
    Run step Free start (states n) := by
  induction n with
  | zero => exact h.begin
  | succ n ih => exact .tail ih trivial (h.steps n)

/-- A sequence with one more element before it. -/
def prepend (x : β) (later : ℕ → β) : ℕ → β
  | 0 => x
  | n + 1 => later n

theorem EndlessRun.cons (h : EndlessRun step start states actions) {s : σ} {a : α}
    (hs : Run step Free start s) (ha : step s a = some (states 0)) :
    EndlessRun step start (prepend s states) (prepend a actions) := by
  refine ⟨hs, fun n => ?_⟩
  cases n with
  | zero => exact ha
  | succ n => exact h.steps n

/-- A list of actions that can be carried out, with an endless run after it. -/
theorem EndlessRun.after (h : EndlessRun step start states actions) {s : σ} (first : List α)
    (hs : Run step Free start s) (hfirst : replay step Free s first = some (states 0)) :
    ∃ states' actions', EndlessRun step start states' actions' ∧ states' 0 = s ∧
      (∀ n, states' (first.length + n) = states n) ∧
      ∀ (n : ℕ) (hn : n < first.length), actions' n = first[n] := by
  induction first generalizing s with
  | nil =>
    cases hfirst
    exact ⟨states, actions, h, rfl, fun n => by rw [List.length_nil, Nat.zero_add], by intro n hn; cases hn⟩
  | cons a first ih =>
    rw [replay, if_pos (show Free s a from trivial)] at hfirst
    obtain ⟨t, ht, hfirst⟩ := Option.bind_eq_some_iff.mp hfirst
    obtain ⟨states', actions', hendless, hzero, hlater, htaken⟩ := ih (hs.tail trivial ht) hfirst
    refine ⟨_, _, hendless.cons hs (hzero ▸ ht), rfl, fun n => ?_, fun n hn => ?_⟩
    · rw [List.length_cons, Nat.add_right_comm]
      exact hlater n
    · cases n with
      | zero => rfl
      | succ n => exact htaken n (Nat.lt_of_succ_lt_succ hn)

/-- What never rises in a well-founded order falls finitely often. -/
theorem finitely_lowered [Preorder β] [WellFoundedLT β] (value : ℕ → β)
    (hle : ∀ n, value (n + 1) ≤ value n) : ∃ n, ∀ m, n ≤ m → ¬value (m + 1) < value m := by
  have hanti : Antitone value := antitone_nat_of_succ_le hle
  obtain ⟨_, ⟨n, rfl⟩, hleast⟩ :=
    (wellFounded_lt (α := β)).has_min (Set.range value) ⟨value 0, 0, rfl⟩
  refine ⟨n, fun m hm hlt => ?_⟩
  exact hleast (value (m + 1)) ⟨m + 1, rfl⟩ (hlt.trans_le (hanti hm))

/-- Actions that lower a measure which no other action raises are taken finitely often. -/
theorem EndlessRun.finitely_often [Preorder β] [WellFoundedLT β] (h : EndlessRun step start states actions)
    (measure : σ → β) (mine : α → Prop)
    (hle : ∀ s a t, Run step Free start s → step s a = some t → measure t ≤ measure s)
    (hlt : ∀ s a t, Run step Free start s → mine a → step s a = some t → measure t < measure s) :
    ∃ n, ∀ m, n ≤ m → ¬mine (actions m) := by
  obtain ⟨n, hn⟩ := finitely_lowered (fun n => measure (states n))
    (fun n => hle _ _ _ (h.reaches n) (h.steps n))
  exact ⟨n, fun m hm ha => hn m hm (hlt _ _ _ (h.reaches m) ha (h.steps m))⟩

/-- Who takes finitely many actions, and is given another one as long as he is there, goes. -/
theorem leaves {mine : α → Prop} {there : σ → Prop} (hoften : ∃ n, ∀ m, n ≤ m → ¬mine (actions m))
    (hfair : ∀ n, there (states n) → ∃ m, n ≤ m ∧ mine (actions m)) (n : ℕ) :
    ∃ m, n ≤ m ∧ ¬there (states m) := by
  by_contra hstays
  push Not at hstays
  obtain ⟨last, hlast⟩ := hoften
  obtain ⟨m, hm, hmine⟩ := hfair (max n last) (hstays _ (le_max_left _ _))
  exact hlast m ((le_max_right _ _).trans hm) hmine

end FileDelivery.Library.Endless
