import Mathlib.Data.List.TakeWhile

namespace FileDelivery.Library.Segments

variable {α : Type*} [DecidableEq α] {sep x y : α} {trace segment older : List α}

/-- How often `x` occurs before the first `sep`. -/
def since (sep x : α) (trace : List α) : Nat := (trace.takeWhile (· ≠ sep)).count x

/-- A stretch without `sep` contains `x` once at most. -/
def Spaced (sep x : α) (trace : List α) : Prop :=
  ∀ newer segment older, trace = newer ++ segment ++ older → sep ∉ segment → segment.count x ≤ 1

@[simp] theorem since_sep : since sep x (sep :: trace) = 0 := by simp [since]

theorem since_hit (h : x ≠ sep) : since sep x (x :: trace) = since sep x trace + 1 := by
  simp [since, h]

theorem since_other (hs : y ≠ sep) (hx : y ≠ x) : since sep x (y :: trace) = since sep x trace := by
  simp [since, hs, hx]

/-- A stretch without `sep` at the front is part of what `since` counts. -/
theorem count_le_since (h : sep ∉ segment) : segment.count x ≤ since sep x (segment ++ older) := by
  have hall : ∀ y ∈ segment, decide (y ≠ sep) = true := by
    intro y hy
    have : y ≠ sep := fun he => h (he ▸ hy)
    simpa using this
  rw [since, List.takeWhile_append_of_pos hall, List.count_append]
  omega

theorem spaced_nil : Spaced sep x ([] : List α) := by
  intro newer segment older he _
  have : segment = [] := by
    have := (List.append_eq_nil_iff.mp he.symm).1
    exact (List.append_eq_nil_iff.mp this).2
  simp [this]

/-- A trace stays spaced as long as its newest stretch does. -/
theorem spaced_cons (h : Spaced sep x trace) (hnew : since sep x (y :: trace) ≤ 1) :
    Spaced sep x (y :: trace) := by
  intro newer segment older he hsep
  cases newer with
  | nil =>
    rw [List.nil_append] at he
    have : segment.count x ≤ since sep x (segment ++ older) := count_le_since hsep
    rw [← he] at this
    omega
  | cons z newer =>
    simp only [List.cons_append, List.cons.injEq] at he
    exact h newer segment older he.2 hsep

end FileDelivery.Library.Segments
