import Mathlib.Logic.Function.Basic
import Mathlib.Data.List.Basic

namespace FileDelivery.Library.Offsets

/-- A reader of partitioned logs: the next offset of each partition, and the places
it has read and still holds, in the order of reading. -/
structure Reader where
  position : Nat → Nat
  held : List (Nat × Nat)

/-- Read on in partition `p`. -/
def Reader.read (r : Reader) (p : Nat) : Reader :=
  ⟨Function.update r.position p (r.position p + 1), r.held ++ [(p, r.position p)]⟩

/-- Below each committed offset everything is done. -/
def Passed (done : Nat → Nat → Prop) (committed : Nat → Nat) : Prop :=
  ∀ p o, o < committed p → done p o

/-- Below the positions everything is done or still held, and what is held of one
partition is held in the order of the offsets. -/
structure Accounted (done : Nat → Nat → Prop) (r : Reader) : Prop where
  accounted : ∀ p o, o < r.position p → done p o ∨ (p, o) ∈ r.held
  below : ∀ x ∈ r.held, x.2 < r.position x.1
  ordered : r.held.Pairwise (fun a b => a.1 = b.1 → a.2 < b.2)

/-- The reader is past the place `x`, and what it holds of that partition comes later. -/
structure Behind (x : Nat × Nat) (r : Reader) : Prop where
  past : x.2 < r.position x.1
  later : ∀ y ∈ r.held, y.1 = x.1 → x.2 < y.2

/-- A commit of the place `x` moves its partition behind it. -/
def commit (committed : Nat → Nat) (x : Nat × Nat) : Nat → Nat :=
  Function.update committed x.1 (x.2 + 1)

theorem Passed.mono (h : Passed done committed) (hd : ∀ p o, o < committed p → done p o → done' p o) :
    Passed done' committed :=
  fun p o ho => hd p o ho (h p o ho)

theorem Accounted.mono (h : Accounted done r)
    (hd : ∀ p o, o < r.position p → done p o → done' p o) : Accounted done' r :=
  ⟨fun p o ho => (h.accounted p o ho).imp_left (hd p o ho), h.below, h.ordered⟩

/-- A reader resumes at the committed offsets. -/
theorem Accounted.resume (h : Passed done committed) : Accounted done ⟨committed, []⟩ :=
  ⟨fun p o ho => .inl (h p o ho), by simp, .nil⟩

theorem Accounted.read (h : Accounted done r) (p : Nat) : Accounted done (r.read p) := by
  obtain ⟨position, held⟩ := r
  refine ⟨?_, ?_, ?_⟩
  · intro q o ho
    by_cases hq : q = p
    · subst hq
      simp only [Reader.read, Function.update_self] at ho
      rcases Nat.lt_or_eq_of_le (Nat.le_of_lt_succ ho) with hlt | heq
      · exact (h.accounted q o hlt).imp_right (List.mem_append_left _)
      · exact .inr (List.mem_append_right _ (by simp [heq]))
    · simp only [Reader.read, Function.update_of_ne hq] at ho
      exact (h.accounted q o ho).imp_right (List.mem_append_left _)
  · intro x hx
    simp only [Reader.read, List.mem_append, List.mem_singleton] at hx
    by_cases hq : x.1 = p
    · subst hq
      simp only [Reader.read, Function.update_self]
      rcases hx with hx | hx
      · exact Nat.lt_succ_of_lt (h.below x hx)
      · rw [hx]
        exact Nat.lt_succ_self _
    · simp only [Reader.read, Function.update_of_ne hq]
      rcases hx with hx | hx
      · exact h.below x hx
      · exact absurd (congrArg Prod.fst hx) hq
  · refine List.pairwise_append.mpr ⟨h.ordered, by simp, ?_⟩
    intro a ha b hb hab
    rw [List.mem_singleton.mp hb] at hab ⊢
    have := h.below a ha
    rwa [hab] at this

/-- What is done need not be held any longer. -/
theorem Accounted.release (h : Accounted done ⟨position, held⟩) (hs : held'.Sublist held)
    (hd : ∀ x ∈ held, x ∉ held' → done x.1 x.2) : Accounted done ⟨position, held'⟩ := by
  refine ⟨?_, fun x hx => h.below x (hs.subset hx), h.ordered.sublist hs⟩
  intro p o ho
  rcases h.accounted p o ho with h | h
  · exact .inl h
  · by_cases hx : (p, o) ∈ held'
    · exact .inr hx
    · exact .inl (hd _ h hx)

/-- The commit of a done place is harmless if it is the first held one of its
partition. -/
theorem Accounted.commit (h : Accounted done r) (hp : Passed done committed) (hx : x ∈ r.held)
    (hdone : done x.1 x.2) (hfirst : ∀ y ∈ r.held, y.1 = x.1 → x.2 ≤ y.2) :
    Passed done (commit committed x) := by
  intro p o ho
  by_cases hpx : p = x.1
  · subst hpx
    simp only [Offsets.commit, Function.update_self] at ho
    rcases Nat.lt_or_eq_of_le (Nat.le_of_lt_succ ho) with hlt | heq
    · rcases h.accounted x.1 o (Nat.lt_trans hlt (h.below x hx)) with h | h
      · exact h
      · exact absurd (hfirst _ h rfl) (Nat.not_le.mpr hlt)
    · exact heq ▸ hdone
  · simp only [Offsets.commit, Function.update_of_ne hpx] at ho
    exact hp p o ho

/-- The head of what is held comes first. -/
theorem Accounted.head_first (h : Accounted done ⟨position, x :: held⟩) :
    ∀ y ∈ x :: held, y.1 = x.1 → x.2 ≤ y.2 := by
  intro y hy hp
  rcases List.mem_cons.mp hy with rfl | hy
  · exact Nat.le_refl _
  · exact Nat.le_of_lt (List.rel_of_pairwise_cons h.ordered hy hp.symm)

/-- A reader that resumes behind the committed offsets is behind what they passed. -/
theorem Behind.resume (h : x.2 < committed x.1) : Behind x ⟨committed, []⟩ :=
  ⟨h, by simp⟩

theorem Behind.read (h : Behind x r) (p : Nat) : Behind x (r.read p) := by
  refine ⟨?_, ?_⟩
  · by_cases hp : x.1 = p
    · subst hp
      simp only [Reader.read, Function.update_self]
      exact Nat.lt_succ_of_lt h.past
    · simp only [Reader.read, Function.update_of_ne hp]
      exact h.past
  · intro y hy hx
    rcases List.mem_append.mp hy with hy | hy
    · exact h.later y hy hx
    · obtain rfl := List.mem_singleton.mp hy
      obtain rfl : p = x.1 := hx
      exact h.past

theorem Behind.release (h : Behind x ⟨position, held⟩) (hs : held' ⊆ held) :
    Behind x ⟨position, held'⟩ :=
  ⟨h.past, fun y hy => h.later y (hs hy)⟩

/-- Who lets go of the first place that it holds is behind it. -/
theorem Accounted.let_go (h : Accounted done ⟨position, x :: held⟩) : Behind x ⟨position, held⟩ :=
  ⟨h.below x List.mem_cons_self, fun _ hy hp => List.rel_of_pairwise_cons h.ordered hy hp.symm⟩

/-- A commit by a reader that is behind a place does not bring that place back. -/
theorem Behind.commit (h : Behind x r) (hc : x.2 < committed x.1) (hy : y ∈ r.held) :
    x.2 < Offsets.commit committed y x.1 := by
  by_cases hp : x.1 = y.1
  · simp only [Offsets.commit, hp, Function.update_self]
    exact Nat.lt_succ_of_lt (h.later y hy hp.symm)
  · simp only [Offsets.commit, Function.update_of_ne hp]
    exact hc

end FileDelivery.Library.Offsets
