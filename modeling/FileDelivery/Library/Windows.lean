import Mathlib.Data.Nat.Find
import Mathlib.Data.List.Basic

namespace FileDelivery.Library.Windows

/-- An instant lies in the window of a width that starts at another one. -/
def Within (width start t : Nat) : Prop := start ≤ t ∧ t < start + width

instance (width start t : Nat) : Decidable (Within width start t) :=
  inferInstanceAs (Decidable (_ ∧ _))

/-- Windows of one width that do not overlap, with all of the events that count, and no more than a
limit of them in each. -/
structure Fixed (time : α → Nat) (counts : α → Bool) (width limit : Nat) (start : Nat → Prop)
    (events : List α) : Prop where
  apart : ∀ s s', start s → start s' → s < s' → s + width ≤ s'
  covered : ∀ e ∈ events, counts e = true → ∃ s, start s ∧ Within width s (time e)
  bounded : ∀ s, start s →
    events.countP (fun e => counts e && decide (Within width s (time e))) ≤ limit

variable {time : α → Nat} {counts : α → Bool} {width limit : Nat} {start : Nat → Prop}
  {events : List α}

theorem countP_or_le (p q : α → Bool) (l : List α) :
    l.countP (fun e => p e || q e) ≤ l.countP p + l.countP q := by
  induction l with
  | nil => simp
  | cons e l ih =>
    simp only [List.countP_cons]
    cases hp : p e <;> cases hq : q e <;> simp <;> omega

/-- No third window starts within a width of an instant of the first one. -/
theorem Fixed.next_unique (h : Fixed time counts width limit start events) (hw : Within width s t)
    (hs' : start s') (hle' : s + width ≤ s') (hb' : s' ≤ t + width)
    (hs'' : start s'') (hle'' : s + width ≤ s'') (hb'' : s'' ≤ t + width) : s' = s'' := by
  obtain ⟨_, hlt⟩ := hw
  rcases Nat.lt_trichotomy s' s'' with hbelow | heq | habove
  · have := h.apart s' s'' hs' hs'' hbelow
    omega
  · exact heq
  · have := h.apart s'' s' hs'' hs' habove
    omega

/-- An interval no longer than a window meets two windows at most. -/
theorem Fixed.interval (h : Fixed time counts width limit start events) {a b : Nat}
    (hab : b ≤ a + width) :
    events.countP (fun e => counts e && decide (a ≤ time e ∧ time e ≤ b)) ≤ 2 * limit := by
  classical
  by_cases hsome : ∃ s, start s ∧ ∃ e ∈ events, counts e = true ∧ (a ≤ time e ∧ time e ≤ b) ∧
      Within width s (time e)
  · -- The first window that has an event of the interval, and the next one.
    obtain ⟨hs, e, he, hc, hin, hw⟩ := Nat.find_spec hsome
    have hfirst := fun s hs => Nat.find_min' (m := s) hsome hs
    generalize Nat.find hsome = s at hs hw hfirst
    have hlater : ∀ e' ∈ events, counts e' = true → (a ≤ time e' ∧ time e' ≤ b) →
        ¬Within width s (time e') → ∃ s', start s' ∧ s + width ≤ s' ∧ Within width s' (time e') := by
      intro e' he' hc' hin' hnot
      obtain ⟨s', hs', hw'⟩ := h.covered e' he' hc'
      have hle := hfirst s' ⟨hs', e', he', hc', hin', hw'⟩
      have hne : s ≠ s' := fun heq => hnot (heq ▸ hw')
      exact ⟨s', hs', h.apart s s' hs hs' (by omega), hw'⟩
    by_cases hmore : ∃ e' ∈ events, counts e' = true ∧ (a ≤ time e' ∧ time e' ≤ b) ∧
        ¬Within width s (time e')
    · obtain ⟨e', he', hc', hin', hnot⟩ := hmore
      obtain ⟨s', hs', hss, hw'⟩ := hlater e' he' hc' hin' hnot
      have hboth : events.countP (fun e => counts e && decide (a ≤ time e ∧ time e ≤ b)) ≤
          events.countP (fun e => counts e && decide (Within width s (time e)) ||
            counts e && decide (Within width s' (time e))) := by
        apply List.countP_mono_left
        intro x hx hcx
        simp only [Bool.and_eq_true, decide_eq_true_eq] at hcx
        obtain ⟨hcx, hinx⟩ := hcx
        simp only [hcx, Bool.true_and, Bool.or_eq_true, decide_eq_true_eq]
        by_cases hwx : Within width s (time x)
        · exact .inl hwx
        · right
          obtain ⟨s'', hs'', hss'', hwx'⟩ := hlater x hx hcx hinx hwx
          have heq : s' = s'' := by
            have := hw'.1
            have := hwx'.1
            exact h.next_unique hw hs' hss (by omega) hs'' hss'' (by omega)
          exact heq ▸ hwx'
      have := countP_or_le (fun e => counts e && decide (Within width s (time e)))
        (fun e => counts e && decide (Within width s' (time e))) events
      have := h.bounded s hs
      have := h.bounded s' hs'
      omega
    · have hone : events.countP (fun e => counts e && decide (a ≤ time e ∧ time e ≤ b)) ≤
          events.countP (fun e => counts e && decide (Within width s (time e))) := by
        apply List.countP_mono_left
        intro x hx hcx
        simp only [Bool.and_eq_true, decide_eq_true_eq] at hcx ⊢
        refine ⟨hcx.1, ?_⟩
        by_contra hwx
        exact hmore ⟨x, hx, hcx.1, hcx.2, hwx⟩
      have := h.bounded s hs
      omega
  · have hnone : events.countP (fun e => counts e && decide (a ≤ time e ∧ time e ≤ b)) = 0 := by
      apply List.countP_eq_zero.mpr
      intro e he hc
      simp only [Bool.and_eq_true, decide_eq_true_eq] at hc
      obtain ⟨s, hs, hw⟩ := h.covered e he hc.1
      exact hsome ⟨s, hs, e, he, hc.1, hc.2, hw⟩
    omega

end FileDelivery.Library.Windows
