import FileDelivery.Library.Runs
import Mathlib.Logic.Function.Basic

namespace FileDelivery.Library.Memo
open FileDelivery.Library.Runs

/-- Where a call is that looks a value up. -/
inductive Phase (ε ν : Type*) where
  | waiting
  /-- It has the lock, and its key is not in the table. -/
  | fetching
  /-- It still has the lock, and has what it is to keep. -/
  | fetched (value : ν)
  | found (value : ν)
  | failed (error : ε)
  | left
  deriving DecidableEq, Repr

/-- A table that its calls fill, one at a time. -/
structure Table (γ τ ε ν : Type*) where
  cache : τ → Option ν
  /-- The call that has the lock. -/
  holder : Option Nat
  calls : List (γ × Phase ε ν)
  /-- What fetches have returned, and for which calls. -/
  fetches : List (γ × ν)

inductive Action (γ ε ν : Type*) where
  | call (c : γ)
  /-- Takes the lock and looks; a call that finds its key gives the lock back. -/
  | look (i : Nat)
  | fetch (i : Nat) (answer : Except ε ν)
  | keep (i : Nat)
  | leave (i : Nat)

variable {γ τ ε ν : Type*}

def empty : Table γ τ ε ν := ⟨fun _ => none, none, [], []⟩

/-- The call goes on to a phase. -/
def Table.moved (t : Table γ τ ε ν) (i : Nat) (c : γ) (phase : Phase ε ν) : List (γ × Phase ε ν) :=
  t.calls.set i (c, phase)

def step [DecidableEq τ] (key : γ → τ) (t : Table γ τ ε ν) : Action γ ε ν → Option (Table γ τ ε ν)
  | .call c => some { t with calls := t.calls ++ [(c, .waiting)] }
  | .look i =>
    match t.holder, t.calls[i]? with
    | none, some (c, .waiting) =>
      match t.cache (key c) with
      | some v => some { t with calls := t.moved i c (.found v) }
      | none => some { t with holder := some i, calls := t.moved i c .fetching }
    | _, _ => none
  | .fetch i answer =>
    match t.calls[i]? with
    | some (c, .fetching) =>
      match answer with
      | .ok v => some { t with calls := t.moved i c (.fetched v), fetches := t.fetches ++ [(c, v)] }
      | .error e => some { t with holder := none, calls := t.moved i c (.failed e) }
    | _ => none
  | .keep i =>
    match t.calls[i]? with
    | some (c, .fetched v) =>
      some { t with
        cache := Function.update t.cache (key c) (some v)
        holder := none
        calls := t.moved i c (.found v) }
    | _ => none
  | .leave i =>
    match t.calls[i]? with
    | some (c, .found _) | some (c, .failed _) => some { t with calls := t.moved i c .left }
    | _ => none

/-- The value was fetched for a call with this key. -/
def Fetched (key : γ → τ) (t : Table γ τ ε ν) (k : τ) (v : ν) : Prop :=
  ∃ c, key c = k ∧ (c, v) ∈ t.fetches

/-- What a call has in hand. -/
def Phase.value : Phase ε ν → Option ν
  | .fetched v | .found v => some v
  | _ => none

/-- The call has the lock. -/
def Phase.locked : Phase ε ν → Bool
  | .fetching | .fetched _ => true
  | _ => false

/-- The table has fetched values only, each under the key that it was fetched for, and one call
at most has the lock. -/
structure Kept (key : γ → τ) (t : Table γ τ ε ν) : Prop where
  cached : ∀ k v, t.cache k = some v → Fetched key t k v
  inHand : ∀ c phase v, (c, phase) ∈ t.calls → phase.value = some v → Fetched key t (key c) v
  locked : ∀ i c phase, t.calls[i]? = some (c, phase) → phase.locked = true → t.holder = some i

variable {key : γ → τ} {t t' : Table γ τ ε ν} {a : Action γ ε ν} {c : γ} {phase : Phase ε ν}

theorem Fetched.mono (h : Fetched key t k v) (hsub : ∀ p ∈ t.fetches, p ∈ t'.fetches) :
    Fetched key t' k v := by
  obtain ⟨c, hc, hmem⟩ := h
  exact ⟨c, hc, hsub _ hmem⟩

theorem mem_moved (h : p ∈ t.moved i c phase) : p ∈ t.calls ∨ p = (c, phase) :=
  List.mem_or_eq_of_mem_set h

theorem moved_get (h : (t.moved i c phase)[j]? = some (d, other)) :
    t.calls[j]? = some (d, other) ∧ i ≠ j ∨ i = j ∧ d = c ∧ other = phase := by
  by_cases hij : i = j
  · subst hij
    obtain ⟨hlt, _⟩ := List.getElem?_eq_some_iff.mp h
    rw [Table.moved, List.length_set] at hlt
    rw [Table.moved, List.getElem?_set_self hlt] at h
    cases h
    exact .inr ⟨rfl, rfl, rfl⟩
  · rw [Table.moved, List.getElem?_set_ne hij] at h
    exact .inl ⟨h, hij⟩

theorem Kept.empty : Kept key (empty : Table γ τ ε ν) where
  cached _ _ h := by cases h
  inHand _ _ _ h := by cases h
  locked _ _ _ h := by cases h

/-- A call that moves on without the lock, with nothing new in hand. -/
theorem Kept.moved_free (h : Kept key t) (hvalue : ∀ v, phase.value = some v → Fetched key t (key c) v)
    (hfree : phase.locked = false) : Kept key { t with calls := t.moved i c phase } := by
  refine ⟨h.cached, fun d other v hmem hv => ?_, fun j d other hj hlocked => ?_⟩
  · rcases mem_moved hmem with hold | hnew
    · exact h.inHand d other v hold hv
    · cases hnew
      exact hvalue v hv
  · rcases moved_get hj with ⟨hold, _⟩ | ⟨_, _, rfl⟩
    · exact h.locked j d other hold hlocked
    · rw [hfree] at hlocked
      cases hlocked

/-- The holder gives the lock back. -/
theorem Kept.moved_unlock (h : Kept key t) (hi : t.calls[i]? = some (c, before))
    (hbefore : before.locked = true) (hvalue : ∀ v, phase.value = some v → Fetched key t (key c) v)
    (hfree : phase.locked = false) :
    Kept key { t with holder := none, calls := t.moved i c phase } := by
  refine ⟨h.cached, (h.moved_free (i := i) hvalue hfree).inHand, fun j d other hj hlocked => ?_⟩
  rcases moved_get hj with ⟨hold, hij⟩ | ⟨_, _, rfl⟩
  · have hme := h.locked i c before hi hbefore
    have hother := h.locked j d other hold hlocked
    exact absurd (Option.some.inj (hme.symm.trans hother)) hij
  · rw [hfree] at hlocked
    cases hlocked

variable [DecidableEq τ]

/-- What a step does, with what the call is before. -/
inductive Moves (key : γ → τ) (t : Table γ τ ε ν) : Action γ ε ν → Table γ τ ε ν → Prop
  | called (c : γ) : Moves key t (.call c) { t with calls := t.calls ++ [(c, .waiting)] }
  | hit (i : Nat) (c : γ) (v : ν) (hcall : t.calls[i]? = some (c, .waiting))
      (hcache : t.cache (key c) = some v) :
      Moves key t (.look i) { t with calls := t.moved i c (.found v) }
  | missed (i : Nat) (c : γ) (hfree : t.holder = none) (hcall : t.calls[i]? = some (c, .waiting)) :
      Moves key t (.look i) { t with holder := some i, calls := t.moved i c .fetching }
  | answered (i : Nat) (c : γ) (v : ν) (hcall : t.calls[i]? = some (c, .fetching)) :
      Moves key t (.fetch i (.ok v))
        { t with calls := t.moved i c (.fetched v), fetches := t.fetches ++ [(c, v)] }
  | refused (i : Nat) (c : γ) (e : ε) (hcall : t.calls[i]? = some (c, .fetching)) :
      Moves key t (.fetch i (.error e)) { t with holder := none, calls := t.moved i c (.failed e) }
  | kept (i : Nat) (c : γ) (v : ν) (hcall : t.calls[i]? = some (c, .fetched v)) :
      Moves key t (.keep i) { t with
        cache := Function.update t.cache (key c) (some v)
        holder := none
        calls := t.moved i c (.found v) }
  | left (i : Nat) (c : γ) (before : Phase ε ν) (hcall : t.calls[i]? = some (c, before)) :
      Moves key t (.leave i) { t with calls := t.moved i c .left }

theorem step_moves (hs : step key t a = some t') : Moves key t a t' := by
  cases a with
  | call c =>
    cases hs
    exact .called c
  | look i =>
    simp only [step] at hs
    split at hs
    · rename_i c hfree hcall
      split at hs
      · rename_i v hcache
        cases hs
        exact .hit i c v hcall hcache
      · cases hs
        exact .missed i c hfree hcall
    · cases hs
  | fetch i answer =>
    simp only [step] at hs
    split at hs
    · rename_i c hcall
      cases answer with
      | ok v =>
        cases hs
        exact .answered i c v hcall
      | error e =>
        cases hs
        exact .refused i c e hcall
    · cases hs
  | keep i =>
    simp only [step] at hs
    split at hs
    · rename_i c v hcall
      cases hs
      exact .kept i c v hcall
    · cases hs
  | leave i =>
    simp only [step] at hs
    split at hs
    · rename_i c v hcall
      cases hs
      exact .left i c _ hcall
    · rename_i c e hcall
      cases hs
      exact .left i c _ hcall
    · cases hs

theorem step_kept (h : Kept key t) (hs : step key t a = some t') : Kept key t' := by
  cases step_moves hs with
  | called c =>
    refine ⟨h.cached, fun d phase v hmem hv => ?_, fun i d phase hi hlocked => ?_⟩
    · rcases List.mem_append.mp hmem with hold | hnew
      · exact h.inHand d phase v hold hv
      · cases List.mem_singleton.mp hnew
        cases hv
    · rw [List.getElem?_append] at hi
      split at hi
      · exact h.locked i d phase hi hlocked
      · cases List.mem_singleton.mp (List.mem_of_getElem? hi)
        cases hlocked
  | hit i c v hcall hcache =>
    refine h.moved_free (fun w hw => ?_) rfl
    cases hw
    exact h.cached _ _ hcache
  | missed i c hfree hcall =>
    refine ⟨h.cached, fun d phase v hmem hv => ?_, fun j d phase hj hlocked => ?_⟩
    · rcases mem_moved hmem with hold | hnew
      · exact h.inHand d phase v hold hv
      · cases hnew
        cases hv
    · rcases moved_get hj with ⟨hold, _⟩ | ⟨hij, _⟩
      · cases hfree.symm.trans (h.locked j d phase hold hlocked)
      · exact congrArg some hij
  | answered i c v hcall =>
    have hmore : ∀ k w, Fetched key t k w →
        Fetched key { t with calls := t.moved i c (.fetched v), fetches := t.fetches ++ [(c, v)] } k w :=
      fun k w hw => hw.mono (fun p hp => List.mem_append_left _ hp)
    refine ⟨fun k w hw => hmore k w (h.cached k w hw), fun d phase w hmem hw => ?_,
      fun j d phase hj hlocked => ?_⟩
    · rcases mem_moved hmem with hold | hnew
      · exact hmore _ w (h.inHand d phase w hold hw)
      · cases hnew
        cases hw
        exact ⟨c, rfl, List.mem_append_right _ (List.mem_singleton_self _)⟩
    · rcases moved_get hj with ⟨hold, _⟩ | ⟨rfl, _⟩
      · exact h.locked j d phase hold hlocked
      · exact h.locked i c _ hcall rfl
  | refused i c e hcall => exact h.moved_unlock hcall rfl (fun v hv => by cases hv) rfl
  | kept i c v hcall =>
    have hfetched := h.inHand c _ v (List.mem_of_getElem? hcall) rfl
    have hrest : Kept key { t with holder := none, calls := t.moved i c (.found v) } := by
      refine h.moved_unlock hcall rfl (fun w hw => ?_) rfl
      cases hw
      exact hfetched
    refine ⟨fun k w hw => ?_, hrest.inHand, hrest.locked⟩
    by_cases hk : k = key c
    · subst hk
      simp only [Function.update_self, Option.some.injEq] at hw
      exact hw ▸ hfetched
    · simp only [Function.update_of_ne hk] at hw
      exact h.cached k w hw
  | left i c before hcall => exact h.moved_free (fun v hv => by cases hv) rfl

/-- A step makes one new call or leaves the calls there are. -/
theorem step_calls (hs : step key t a = some t') (h : (c, phase) ∈ t'.calls) :
    (∃ before, (c, before) ∈ t.calls) ∨ a = .call c := by
  have moved : ∀ i d before after, t.calls[i]? = some (d, before) →
      (c, phase) ∈ t.moved i d after → ∃ before, (c, before) ∈ t.calls := by
    intro i d before after hi hmem
    rcases mem_moved hmem with hold | hnew
    · exact ⟨phase, hold⟩
    · cases hnew
      exact ⟨before, List.mem_of_getElem? hi⟩
  cases step_moves hs with
  | called d =>
    rcases List.mem_append.mp h with hold | hnew
    · exact .inl ⟨phase, hold⟩
    · cases List.mem_singleton.mp hnew
      exact .inr rfl
  | hit i d v hcall hcache => exact .inl (moved i d _ _ hcall h)
  | missed i d hfree hcall => exact .inl (moved i d _ _ hcall h)
  | answered i d v hcall => exact .inl (moved i d _ _ hcall h)
  | refused i d e hcall => exact .inl (moved i d _ _ hcall h)
  | kept i d v hcall => exact .inl (moved i d _ _ hcall h)
  | left i d before hcall => exact .inl (moved i d _ _ hcall h)

/-- What has been fetched is what fetches have answered. -/
theorem step_fetches (hs : step key t a = some t') (h : (c, v) ∈ t'.fetches) :
    (c, v) ∈ t.fetches ∨ ∃ i, a = .fetch i (.ok v) ∧ t.calls[i]? = some (c, .fetching) := by
  cases step_moves hs with
  | answered i d w hcall =>
    rcases List.mem_append.mp h with hold | hnew
    · exact .inl hold
    · cases List.mem_singleton.mp hnew
      exact .inr ⟨i, rfl, hcall⟩
  | _ => exact .inl h

/-- In every run, what the table has was fetched for its key. -/
theorem run_kept (h : Run (step key) ok (empty : Table γ τ ε ν) t) : Kept key t :=
  h.invariant (Kept key) Kept.empty (fun _ _ _ hi _ hs => step_kept hi hs)

end FileDelivery.Library.Memo
