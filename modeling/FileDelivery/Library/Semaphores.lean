import Mathlib.Data.List.Count
import Mathlib.Order.Nat

namespace FileDelivery.Library.Semaphores

/-- How far someone has got into two semaphores, the one inside the other. -/
inductive Gate where
  | outside
  /-- He holds the outer one and waits for the inner one. -/
  | between
  | inside
  deriving DecidableEq, Repr

def Gate.enter : Gate → Gate
  | .outside => .between
  | _ => .inside

/-- How many permits he still waits for. -/
def Gate.wants : Gate → ℕ
  | .outside => 2
  | .between => 1
  | .inside => 0

structure Limits where
  outer : Int
  inner : Int
  deriving DecidableEq, Repr

variable {α : Type*} {limits : Limits} {gate : α → Gate} {active : List α} {a : α}

/-- There is a permit for someone, where `active` are those that have not left. -/
def mayEnter (limits : Limits) (gate : α → Gate) (active : List α) (a : α) : Bool :=
  match gate a with
  | .outside => (active.countP (gate · ≠ .outside) : Int) < limits.outer
  | .between => (active.countP (gate · = .inside) : Int) < limits.inner
  | .inside => false

theorem wants_enter (h : mayEnter limits gate active a = true) : (gate a).enter.wants < (gate a).wants := by
  unfold mayEnter at h
  cases hg : gate a with
  | inside =>
    rw [hg] at h
    cases h
  | _ => simp [Gate.enter, Gate.wants]

/-- Where both semaphores have permits at all, those that wait never wait for each other. -/
theorem someone_goes_on (houter : 0 < limits.outer) (hinner : 0 < limits.inner) (ha : a ∈ active) :
    ∃ b ∈ active, gate b = .inside ∨ mayEnter limits gate active b = true := by
  by_cases hinside : ∃ b ∈ active, gate b = .inside
  · obtain ⟨b, hb, hg⟩ := hinside
    exact ⟨b, hb, .inl hg⟩
  push Not at hinside
  by_cases hbetween : ∃ b ∈ active, gate b = .between
  · obtain ⟨b, hb, hg⟩ := hbetween
    refine ⟨b, hb, .inr ?_⟩
    have hnone : active.countP (gate · = .inside) = 0 := by
      simpa [List.countP_eq_zero] using hinside
    rw [mayEnter, hg]
    simp only [hnone, decide_eq_true_eq]
    omega
  · push Not at hbetween
    have houtside : ∀ b ∈ active, gate b = .outside := by
      intro b hb
      cases hg : gate b with
      | outside => rfl
      | between => exact absurd hg (hbetween b hb)
      | inside => exact absurd hg (hinside b hb)
    refine ⟨a, ha, .inr ?_⟩
    have hnone : active.countP (gate · ≠ .outside) = 0 := by
      simpa [List.countP_eq_zero] using houtside
    rw [mayEnter, houtside a ha]
    simp only [hnone, decide_eq_true_eq]
    omega

end FileDelivery.Library.Semaphores
