import Mathlib.Data.List.Basic

namespace FileDelivery.Library.Lexical

variable {α : Type*} {sep : α} {segments more : List (List α)}

/-- A list of segments that a separated text can be taken apart into again. -/
def Segmented (sep : α) (segments : List (List α)) : Prop := ∀ s ∈ segments, s ≠ [] ∧ sep ∉ s

theorem Segmented.filter (h : Segmented sep segments) (p : List α → Bool) :
    Segmented sep (segments.filter p) := fun s hs => h s (List.mem_of_mem_filter hs)

theorem joined_append (hs : segments ≠ []) (hm : more ≠ []) :
    [sep].intercalate (segments ++ more) =
      [sep].intercalate segments ++ sep :: [sep].intercalate more := by
  induction segments with
  | nil => exact absurd rfl hs
  | cons s segments ih =>
    cases segments with
    | nil =>
      obtain ⟨m, more, rfl⟩ := List.exists_cons_of_ne_nil hm
      simp [List.intercalate, List.intersperse]
    | cons r segments =>
      have := ih (by simp)
      simp only [List.intercalate, List.cons_append, List.intersperse_cons_cons, List.flatten_cons] at this ⊢
      rw [this]
      simp

theorem joined_cons (s : List α) (hm : more ≠ []) :
    [sep].intercalate (s :: more) = s ++ sep :: [sep].intercalate more := by
  have := @joined_append α sep [s] more (by simp) hm
  simpa [List.intercalate] using this

variable [DecidableEq α]

theorem not_mem_splitOn {text s : List α} (h : s ∈ text.splitOn sep) : sep ∉ s := by
  induction text generalizing s with
  | nil =>
    have : s = [] := by simpa [List.splitOn_nil] using h
    simp [this]
  | cons c text ih =>
    rw [List.splitOn_cons_eq_if_modifyHead] at h
    split at h
    · rcases List.mem_cons.mp h with rfl | h
      · simp
      · exact ih h
    · rename_i hc
      have hc : sep ≠ c := fun he => hc (by simp [he])
      cases hs : text.splitOn sep with
      | nil => exact absurd hs (List.splitOn_ne_nil sep text)
      | cons first rest =>
        rw [hs, List.modifyHead_cons] at h
        rcases List.mem_cons.mp h with rfl | h
        · simpa [hc] using ih (hs ▸ List.mem_cons_self)
        · exact ih (hs ▸ List.mem_cons_of_mem _ h)

/-- The non-empty segments of a text are segmented. -/
theorem segmented_splitOn (text : List α) :
    Segmented sep ((text.splitOn sep).filter (· ≠ [])) := by
  intro s hs
  obtain ⟨hm, hne⟩ := List.mem_filter.mp hs
  exact ⟨by simpa using hne, not_mem_splitOn hm⟩

/-- Joined segments come apart again. -/
theorem splitOn_joined (h : Segmented sep segments) (hne : segments ≠ []) :
    ([sep].intercalate segments).splitOn sep = segments :=
  List.splitOn_intercalate sep (fun s hs => (h s hs).2) hne

theorem joined_ne_nil (h : Segmented sep segments) (hne : segments ≠ []) :
    [sep].intercalate segments ≠ [] := by
  intro he
  have hs := splitOn_joined h hne
  rw [he, List.splitOn_nil] at hs
  exact (h [] (hs ▸ List.mem_singleton.mpr rfl)).1 rfl

/-- A joined text comes apart into what its segments come apart into. -/
theorem splitOn_joined_flat (hne : segments ≠ []) :
    ([sep].intercalate segments).splitOn sep = segments.flatMap (·.splitOn sep) := by
  induction segments with
  | nil => exact absurd rfl hne
  | cons s segments ih =>
    by_cases hs : segments = []
    · subst hs
      simp [List.intercalate]
    · rw [joined_cons s hs, List.splitOn_append_cons_self, ih hs, List.flatMap_cons]

end FileDelivery.Library.Lexical
