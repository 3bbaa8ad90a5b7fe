import Mathlib.Logic.Basic

namespace FileDelivery.Library.Fallible

/-- A sequence of fallible calls succeeds where each of them does. -/
theorem bind_ok {x : Except ε α} {f : α → Except ε β} :
    x.bind f = .ok r ↔ ∃ a, x = .ok a ∧ f a = .ok r := by
  cases x with
  | error e => simp [Except.bind]
  | ok a => simp [Except.bind]

theorem map_ok {x : Except ε α} {f : α → β} : x.map f = .ok r ↔ ∃ a, x = .ok a ∧ f a = r := by
  cases x with
  | error e => simp [Except.map]
  | ok a => simp [Except.map]

theorem ok_of_any {x : Except ε α} {p : α → Bool} (h : x.toOption.any p = true) :
    ∃ a, x = .ok a ∧ p a = true := by
  cases x with
  | error e => cases h
  | ok a => exact ⟨a, rfl, h⟩

/-- Where a list of calls succeeds, each call does, and its value is among the results. -/
theorem mapM_mem {f : α → Option β} {l : List α} (h : l.mapM f = some l') (hx : x ∈ l) :
    ∃ y ∈ l', f x = some y := by
  induction l generalizing l' with
  | nil => cases hx
  | cons a l ih =>
    simp only [List.mapM_cons, Option.bind_eq_bind, Option.bind_eq_some_iff] at h
    obtain ⟨b, hb, rest, hrest, he⟩ := h
    cases he
    rcases List.mem_cons.mp hx with rfl | hx
    · exact ⟨b, List.mem_cons_self, hb⟩
    · obtain ⟨y, hy, hf⟩ := ih hrest hx
      exact ⟨y, List.mem_cons_of_mem _ hy, hf⟩

theorem mapM_eq_map {f : α → Option β} {l : List α} (h : l.mapM f = some l') (d : β) :
    l' = l.map (fun x => (f x).getD d) := by
  induction l generalizing l' with
  | nil =>
    cases h
    rfl
  | cons a l ih =>
    simp only [List.mapM_cons, Option.bind_eq_bind, Option.bind_eq_some_iff] at h
    obtain ⟨b, hb, rest, hrest, he⟩ := h
    cases he
    rw [List.map_cons, ← ih hrest, hb, Option.getD_some]

theorem mapM_some {f : α → Option β} {l : List α} (h : ∀ x ∈ l, ∃ y, f x = some y) :
    ∃ l', l.mapM f = some l' := by
  induction l with
  | nil => exact ⟨[], rfl⟩
  | cons a l ih =>
    obtain ⟨b, hb⟩ := h a List.mem_cons_self
    obtain ⟨rest, hrest⟩ := ih (fun x hx => h x (List.mem_cons_of_mem _ hx))
    exact ⟨b :: rest, by simp [List.mapM_cons, hb, hrest]⟩

end FileDelivery.Library.Fallible
