import Mathlib.Data.List.Perm.Basic

namespace FileDelivery.Library.FirstMatch

variable {α β : Type*} {f : α → Option β} {l : List α}

/-- The elements of a list that match at all match alike. -/
def Unanimous (f : α → Option β) (l : List α) : Prop :=
  ∀ a ∈ l, ∀ b ∈ l, ∀ x y, f a = some x → f b = some y → x = y

/-- An element that matches can be moved to the front. -/
theorem front (ha : a ∈ l) (hf : f a = some x) : ∃ l' : List α, l'.Perm l ∧ l'.findSome? f = some x := by
  obtain ⟨before, after, rfl⟩ := List.append_of_mem ha
  exact ⟨a :: (before ++ after), List.perm_middle.symm, by simp [hf]⟩

/-- Where all that match agree, the first match does not depend on the order. -/
theorem Unanimous.perm {l' : List α} (h : Unanimous f l) (hp : l'.Perm l) : l'.findSome? f = l.findSome? f := by
  cases hl : l.findSome? f with
  | none =>
    rw [List.findSome?_eq_none_iff] at hl ⊢
    intro a ha
    exact hl a (hp.mem_iff.mp ha)
  | some x =>
    obtain ⟨a, ha, hx⟩ := List.exists_of_findSome?_eq_some hl
    cases hl' : l'.findSome? f with
    | none => exact absurd (List.findSome?_eq_none_iff.mp hl' a (hp.mem_iff.mpr ha)) (by simp [hx])
    | some y =>
      obtain ⟨b, hb, hy⟩ := List.exists_of_findSome?_eq_some hl'
      rw [h b (hp.mem_iff.mp hb) a ha y x hy hx]

/-- The first match is the same in every order of the list just where all that match agree. -/
theorem perm_iff : (∀ l' : List α, l'.Perm l → l'.findSome? f = l.findSome? f) ↔ Unanimous f l := by
  constructor
  · intro h a ha b hb x y hx hy
    obtain ⟨first, hfirst, hx⟩ := front ha hx
    obtain ⟨second, hsecond, hy⟩ := front hb hy
    rw [h first hfirst] at hx
    rw [h second hsecond] at hy
    exact Option.some.inj (hx.symm.trans hy)
  · intro h l' hp
    exact h.perm hp

end FileDelivery.Library.FirstMatch
