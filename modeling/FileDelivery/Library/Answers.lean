import FileDelivery.Library.Groups

namespace FileDelivery.Library.Answers
open FileDelivery.Library.Offsets FileDelivery.Library.Groups

/-- Every place that is new in a list, the newest first, comes after all earlier ones of its
partition. -/
def Ascending : List (Nat × Nat) → Prop
  | [] => True
  | x :: earlier => Ascending earlier ∧ (x ∈ earlier ∨ ∀ y ∈ earlier, y.1 = x.1 → y.2 < x.2)

/-- Then the first occurrences of a partition come in the order of the offsets. -/
theorem Ascending.first {p o o' : Nat} {places : List (Nat × Nat)} (h : Ascending places)
    (hx : (p, o) ∈ places) (hy : (p, o') ∈ places) (hlt : o < o') :
    places.reverse.idxOf (p, o) < places.reverse.idxOf (p, o') := by
  induction places with
  | nil => cases hx
  | cons z earlier ih =>
    obtain ⟨hearlier, hz⟩ := h
    rw [List.reverse_cons, List.idxOf_append, List.idxOf_append]
    by_cases hx' : (p, o) ∈ earlier
    · rw [if_pos (List.mem_reverse.mpr hx')]
      split
      · rename_i hy'
        exact ih hearlier hx' (List.mem_reverse.mp hy')
      · exact Nat.lt_of_lt_of_le (List.idxOf_lt_length_of_mem (List.mem_reverse.mpr hx'))
          (Nat.le_add_left _ _)
    · -- The smaller one is new, so the larger one would have to be smaller.
      rcases List.mem_cons.mp hx with rfl | hx
      · rcases List.mem_cons.mp hy with he | hy'
        · cases he
          exact absurd hlt (Nat.lt_irrefl _)
        · rcases hz with hold | hnew
          · exact absurd hold hx'
          · exact absurd (hnew _ hy' rfl) (Nat.not_lt.mpr (Nat.le_of_lt hlt))
      · exact absurd hx hx'

/-- A group that answers what it reads, or sets it aside; the newest first. -/
structure State where
  group : Group
  answered : List (Nat × Nat)
  skipped : List (Nat × Nat)

/-- The place is dealt with. -/
def State.Seen (s : State) (x : Nat × Nat) : Prop := x ∈ s.answered ∨ x ∈ s.skipped

/-- Members move, but let go only of what is dealt with, unless they leave; what they hold first they
may answer. -/
inductive Step (owner : Nat → Nat) (s : State) : State → Prop
  | move (w : Nat) {committed : Nat → Nat} {r : Option Reader}
      (moves : Move (fun p => owner p = w) s.group.committed (s.group.members w) committed r)
      (keeps : ∀ q q', s.group.members w = some q → r = some q' →
        ∀ x ∈ q.held, x ∈ q'.held ∨ s.Seen x) :
      Step owner s { s with group := ⟨committed, Function.update s.group.members w r⟩ }
  | answer (w : Nat) {position : Nat → Nat} {x : Nat × Nat} {held : List (Nat × Nat)}
      (has : s.group.members w = some ⟨position, x :: held⟩) (valid : x ∉ s.skipped) :
      Step owner s { s with answered := x :: s.answered }
  | skip {x : Nat × Nat} (unanswered : x ∉ s.answered) : Step owner s { s with skipped := x :: s.skipped }

abbrev Steps (owner : Nat → Nat) := Relation.ReflTransGen (Step owner)

/-- What has been passed is dealt with, in hand, or left behind for good, and nothing is answered
before what precedes it, unless that is left behind. -/
structure Orderly (owner : Nat → Nat) (s : State) : Prop where
  in_order : InOrder owner s.group
  passed : ∀ p o r, s.group.members (owner p) = some r → o < r.position p →
    s.Seen (p, o) ∨ (p, o) ∈ r.held ∨ Settled owner (p, o) s.group
  answered : ∀ p o o', (p, o) ∈ s.answered → o' < o →
    s.Seen (p, o') ∨ Settled owner (p, o') s.group
  apart : ∀ x ∈ s.answered, x ∉ s.skipped
  ascending : Ascending s.answered

variable {owner : Nat → Nat} {s s' : State}

theorem empty_orderly (owner committed : Nat → Nat) : Orderly owner ⟨empty committed, [], []⟩ :=
  ⟨empty_in_order owner committed, by simp [empty], by simp, by simp, trivial⟩

/-- A place that a member is past once it has moved was passed before, or is in its hands. -/
theorem Move.passed {mine : Nat → Prop} {committed committed' : Nat → Nat} {r : Option Reader}
    {q' : Reader} {p o : Nat} (h : Move mine committed r committed' (some q')) (ho : o < q'.position p) :
    (r = none ∧ committed' = committed ∧ q' = ⟨committed, []⟩) ∨ ∃ q, r = some q ∧
      (o < q.position p ∨ (p, o) ∈ q'.held) := by
  cases h with
  | join => exact .inl ⟨rfl, rfl, rfl⟩
  | @read c q assigned =>
    refine .inr ⟨q, rfl, ?_⟩
    by_cases hp : p = c
    · subst hp
      simp only [Reader.read, Function.update_self] at ho
      rcases Nat.lt_or_eq_of_le (Nat.le_of_lt_succ ho) with hlt | heq
      · exact .inl hlt
      · exact .inr (List.mem_append_right _ (by simp [heq]))
    · simp only [Reader.read, Function.update_of_ne hp] at ho
      exact .inl ho
  | release => exact .inr ⟨_, rfl, .inl ho⟩
  | commit => exact .inr ⟨_, rfl, .inl ho⟩

theorem move_orderly {w : Nat} {committed : Nat → Nat} {r : Option Reader} (h : Orderly owner s)
    (moves : Move (fun p => owner p = w) s.group.committed (s.group.members w) committed r)
    (keeps : ∀ q q', s.group.members w = some q → r = some q' → ∀ x ∈ q.held, x ∈ q'.held ∨ s.Seen x) :
    Orderly owner { s with group := ⟨committed, Function.update s.group.members w r⟩ } := by
  have hstep : Groups.Step owner s.group ⟨committed, Function.update s.group.members w r⟩ := .move w moves
  have still : ∀ x, Settled owner x s.group →
      Settled owner x ⟨committed, Function.update s.group.members w r⟩ :=
    fun x hx => hstep.settled h.in_order hx
  refine ⟨hstep.in_order h.in_order, ?_, ?_, h.apart, h.ascending⟩
  · intro p o q' hq' ho
    by_cases hw : owner p = w
    · subst hw
      obtain rfl : r = some q' := by simpa using hq'
      rcases Move.passed moves ho with ⟨_, rfl, rfl⟩ | ⟨q, hq, hpast⟩
      · refine .inr (.inr ⟨ho, ?_⟩)
        intro v hv
        obtain rfl : _ = v := by simpa using hv
        exact .resume ho
      · rcases hpast with hpast | hnew
        · rcases h.passed p o q hq hpast with hseen | hheld | hsettled
          · exact .inl hseen
          · exact (keeps q q' hq rfl _ hheld).elim (fun hin => .inr (.inl hin)) .inl
          · exact .inr (.inr (still _ hsettled))
        · exact .inr (.inl hnew)
    · simp only [Function.update_of_ne hw] at hq'
      exact (h.passed p o q' hq' ho).imp_right (Or.imp_right (still _))
  · intro p o o' ho hlt
    exact (h.answered p o o' ho hlt).imp_right (still _)

/-- What a member holds first of a partition may be answered next. -/
theorem answer_orderly {w : Nat} {position : Nat → Nat} {x : Nat × Nat} {held : List (Nat × Nat)}
    (h : Orderly owner s) (has : s.group.members w = some ⟨position, x :: held⟩) (valid : x ∉ s.skipped) :
    Orderly owner { s with answered := x :: s.answered } := by
  obtain ⟨hacc, hown⟩ := h.in_order w _ has
  obtain rfl : owner x.1 = w := hown x List.mem_cons_self
  have seen : ∀ y, s.Seen y → State.Seen { s with answered := x :: s.answered } y :=
    fun y hy => hy.imp_left (List.mem_cons_of_mem _)
  refine ⟨h.in_order, ?_, ?_, ?_, h.ascending, ?_⟩
  · intro p o r hr ho
    exact (h.passed p o r hr ho).imp_left (seen _)
  · intro p o o' ho hlt
    rcases List.mem_cons.mp ho with rfl | ho
    · have hbelow : o < position p := hacc.below (p, o) List.mem_cons_self
      rcases h.passed p o' _ has (Nat.lt_trans hlt hbelow) with hseen | hheld | hsettled
      · exact .inl (seen _ hseen)
      · exact absurd (hacc.head_first _ hheld rfl) (Nat.not_le.mpr hlt)
      · exact .inr hsettled
    · exact (h.answered p o o' ho hlt).imp_left (seen _)
  · intro y hy
    rcases List.mem_cons.mp hy with rfl | hy
    · exact valid
    · exact h.apart y hy
  · by_cases hx : x ∈ s.answered
    · exact .inl hx
    refine .inr (fun y hy hp => ?_)
    by_contra hle
    have hne : y.2 ≠ x.2 := fun he => hx (Prod.ext hp he ▸ hy)
    have hlt : x.2 < y.2 := by omega
    have hy' : (x.1, y.2) ∈ s.answered := hp ▸ hy
    rcases h.answered x.1 y.2 x.2 hy' hlt with (hseen | hseen) | hsettled
    · exact hx hseen
    · exact valid hseen
    · -- What is left behind is in nobody's hands.
      exact absurd ((hsettled.behind _ has).later x List.mem_cons_self rfl) (Nat.lt_irrefl _)

theorem skip_orderly {x : Nat × Nat} (h : Orderly owner s) (hnew : x ∉ s.answered) :
    Orderly owner { s with skipped := x :: s.skipped } := by
  have seen : ∀ y, s.Seen y → State.Seen { s with skipped := x :: s.skipped } y :=
    fun y hy => hy.imp_right (List.mem_cons_of_mem _)
  refine ⟨h.in_order, ?_, ?_, ?_, h.ascending⟩
  · intro p o r hr ho
    exact (h.passed p o r hr ho).imp_left (seen _)
  · intro p o o' ho hlt
    exact (h.answered p o o' ho hlt).imp_left (seen _)
  · intro y hy hskip
    rcases List.mem_cons.mp hskip with rfl | hskip
    · exact hnew hy
    · exact h.apart y hy hskip

theorem Step.orderly (h : Orderly owner s) (hs : Step owner s s') : Orderly owner s' := by
  cases hs with
  | move w moves keeps => exact move_orderly h moves keeps
  | answer w has valid => exact answer_orderly h has valid
  | skip hnew => exact skip_orderly h hnew

theorem steps_orderly (h : Orderly owner s) (hs : Steps owner s s') : Orderly owner s' := by
  induction hs with
  | refl => exact h
  | tail _ hstep ih => exact hstep.orderly ih

end FileDelivery.Library.Answers
