import Mathlib.Logic.Relation

namespace FileDelivery.Library.Runs

/-- A finite run of a partial transition function whose steps all meet `ok`, a
condition on the state before the step and on the action taken there. -/
inductive Run (step : σ → α → Option σ) (ok : σ → α → Prop) : σ → σ → Prop
  | refl (s : σ) : Run step ok s s
  | tail (before : Run step ok s t) (meets : ok t a) (next : step t a = some u) :
      Run step ok s u

/-- No condition on the steps. -/
def Free (_ : σ) (_ : α) : Prop := True

instance (s : σ) (a : α) : Decidable (Free s a) := .isTrue trivial

variable {σ α : Type*} {step : σ → α → Option σ} {ok : σ → α → Prop} {s t u : σ}

theorem Run.trans (hst : Run step ok s t) (htu : Run step ok t u) : Run step ok s u := by
  induction htu with
  | refl => exact hst
  | tail _ hm hn ih => exact .tail ih hm hn

/-- What holds at the start and survives each step that meets the condition
holds at the end. -/
theorem Run.invariant (h : Run step ok s t) (inv : σ → Prop) (hs : inv s)
    (hstep : ∀ t a u, inv t → ok t a → step t a = some u → inv u) : inv t := by
  induction h with
  | refl => exact hs
  | tail _ hm hn ih => exact hstep _ _ _ ih hm hn

/-- An invariant whose step lemma may use another one, already established for
every state that the run passes. -/
theorem Run.invariant_given (h : Run step ok s t) (inv base : σ → Prop)
    (hbase : ∀ t, Run step ok s t → base t) (hs : inv s)
    (hstep : ∀ t a u, base t → inv t → ok t a → step t a = some u → inv u) : inv t := by
  induction h with
  | refl => exact hs
  | tail hb hm hn ih => exact hstep _ _ _ (hbase _ hb) ih hm hn

/-- A run that meets a condition meets a weaker one. -/
theorem Run.mono {ok' : σ → α → Prop} (h : Run step ok s t) (hok : ∀ s a, ok s a → ok' s a) :
    Run step ok' s t := by
  induction h with
  | refl => exact .refl _
  | tail _ hm hn ih => exact .tail ih (hok _ _ hm) hn

theorem Run.free (h : Run step ok s t) : Run step Free s t := h.mono (fun _ _ _ => trivial)

/-- Where a property survives just the steps that meet the condition, and never comes back, the
end of a run shows whether its steps have met the condition. -/
theorem Run.meets_iff (h : Run step Free s t) (inv base : σ → Prop)
    (hbase : ∀ t, Run step Free s t → base t) (hs : inv s)
    (hstep : ∀ t a u, base t → step t a = some u → (inv u ↔ inv t ∧ ok t a)) :
    Run step ok s t ↔ inv t := by
  constructor
  · intro hok
    refine hok.invariant_given inv base (fun t ht => hbase t ht.free) hs ?_
    intro t a u hb hi ha hn
    exact (hstep t a u hb hn).mpr ⟨hi, ha⟩
  · intro hi
    induction h with
    | refl => exact .refl s
    | tail hrun _ hn ih =>
      obtain ⟨hbefore, ha⟩ := (hstep _ _ _ (hbase _ hrun) hn).mp hi
      exact .tail (ih hbefore) ha hn

/-- A run is one of another system, as each of its steps is a step there or changes nothing. -/
theorem Run.simulates {τ β : Type*} {step' : τ → β → Option τ} {ok' : τ → β → Prop}
    (h : Run step ok s t) (f : σ → τ) (hstep : ∀ s a t, ok s a → step s a = some t →
      f t = f s ∨ ∃ b, ok' (f s) b ∧ step' (f s) b = some (f t)) :
    Run step' ok' (f s) (f t) := by
  induction h with
  | refl => exact .refl _
  | tail _ hm hn ih =>
    rcases hstep _ _ _ hm hn with hsame | ⟨b, hb, hs⟩
    · rw [hsame]
      exact ih
    · exact .tail ih hb hs

/-- Where every state that is not done yet has a step that lowers a measure, some run gets done. -/
theorem Run.progress (inv done : σ → Prop) (measure : σ → Nat)
    (hstep : ∀ s, inv s → ¬done s → ∃ a t, ok s a ∧ step s a = some t ∧ inv t ∧ measure t < measure s)
    (hs : inv s) : ∃ t, Run step ok s t ∧ done t := by
  induction hn : measure s using Nat.strongRecOn generalizing s with
  | ind n ih =>
    by_cases hd : done s
    · exact ⟨s, .refl s, hd⟩
    · obtain ⟨a, t, ha, hst, ht, hlt⟩ := hstep s hs hd
      obtain ⟨u, hu, hdone⟩ := ih (measure t) (hn ▸ hlt) ht rfl
      have hfirst : Run step ok s t := .tail (.refl s) ha hst
      exact ⟨u, hfirst.trans hu, hdone⟩

/-- Where every step lowers a measure, no run goes on for ever. -/
theorem acc_of_measure (inv : σ → Prop) (measure : σ → Nat)
    (hstep : ∀ s a t, inv s → step s a = some t → inv t ∧ measure t < measure s) (hs : inv s) :
    Acc (fun t s => ∃ a, step s a = some t) s := by
  induction hn : measure s using Nat.strongRecOn generalizing s with
  | ind n ih =>
    refine ⟨_, ?_⟩
    rintro t ⟨a, hst⟩
    obtain ⟨ht, hlt⟩ := hstep s a t hs hst
    exact ih (measure t) (hn ▸ hlt) ht rfl

/-- Execute a list of actions, stopping where a step is disabled or its
condition fails. -/
def replay (step : σ → α → Option σ) (ok : σ → α → Prop) [∀ s a, Decidable (ok s a)] :
    σ → List α → Option σ
  | s, [] => some s
  | s, a :: as => if ok s a then (step s a).bind (replay step ok · as) else none

theorem Run.of_replay [∀ s a, Decidable (ok s a)]
    (h : replay step ok s as = some t) : Run step ok s t := by
  suffices ∀ r, Run step ok r s → Run step ok r t from this s (.refl s)
  induction as generalizing s with
  | nil =>
    intro r hr
    simp only [replay, Option.some.injEq] at h
    exact h ▸ hr
  | cons a as ih =>
    intro r hr
    simp only [replay] at h
    split at h
    · rename_i ha
      obtain ⟨u, hu, ht⟩ := Option.bind_eq_some_iff.mp h
      exact ih ht r (.tail hr ha hu)
    · cases h

/-- What holds where a list of actions ends holds in a state that a run reaches. -/
theorem replay_reaches (step : σ → α → Option σ) (ok : σ → α → Prop) [∀ s a, Decidable (ok s a)]
    {p : σ → Prop} [DecidablePred p] (s : σ) (as : List α)
    (h : (replay step ok s as).any (fun t => decide (p t)) = true) :
    ∃ t, Run step ok s t ∧ p t := by
  cases hr : replay step ok s as with
  | none => simp [hr] at h
  | some t => exact ⟨t, .of_replay hr, by simpa [hr] using h⟩

/-- The same where the condition is not decidable but holds of the actions wherever they are taken. -/
theorem replay_meets (step : σ → α → Option σ) {p : σ → Prop} [DecidablePred p] (s : σ) (as : List α)
    (hall : ∀ a ∈ as, ∀ s, ok s a)
    (h : (replay step Free s as).any (fun t => decide (p t)) = true) :
    ∃ t, Run step ok s t ∧ p t := by
  suffices ∀ r, Run step ok r s → ∃ t, Run step ok r t ∧ p t from this s (.refl s)
  induction as generalizing s with
  | nil =>
    intro r hr
    exact ⟨s, hr, by simpa [replay] using h⟩
  | cons a as ih =>
    intro r hr
    simp only [replay] at h
    split at h
    · cases hs : step s a with
      | none => simp [hs] at h
      | some u =>
        rw [hs] at h
        exact ih u (fun b hb => hall b (List.mem_cons_of_mem _ hb)) h r
          (.tail hr (hall a List.mem_cons_self s) hs)
    · cases h

end FileDelivery.Library.Runs
