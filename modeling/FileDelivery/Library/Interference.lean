import FileDelivery.Library.Handlers
import Mathlib.Logic.Function.Basic

namespace FileDelivery.Library.Interference
open FileDelivery.Library.Handlers

section Machines
variable {σ α ο : Type*} (step : σ → α → Option (σ × ο))

/-- The actions one after the other, with what each of them answers. -/
def trace : σ → List α → Option (σ × List ο)
  | s, [] => some (s, [])
  | s, a :: actions =>
    (step s a).bind (fun (t, o) => (trace t actions).map (fun (u, answers) => (u, o :: answers)))

/-- The actions of one party, as it stands when each is taken, with their answers. -/
def purge (mine : σ → α → Bool) : σ → List α → List (α × ο)
  | _, [] => []
  | s, a :: actions =>
    match step s a with
    | none => []
    | some (t, o) => if mine s a then (a, o) :: purge mine t actions else purge mine t actions

/-- A party that others do not act upon, and whose own actions depend on what it sees alone: it
sees the same, and gets the same answers, where the others' actions are left out. -/
structure Separates (mine : σ → α → Bool) (inv : σ → Prop) (alike : σ → σ → Prop) : Prop where
  keeps : inv s → step s a = some (t, o) → inv t
  others : inv s → alike s u → mine s a = false → step s a = some (t, o) → alike t u
  own : inv s → inv u → alike s u → mine s a = true → step s a = some (t, o) →
    ∃ v, step u a = some (v, o) ∧ alike t v

variable {step}

theorem Separates.purged (h : Separates step mine inv alike) (hs : inv s) (hu : inv u)
    (hsu : alike s u) (hrun : trace step s actions = some (t, answers)) :
    ∃ v, trace step u ((purge step mine s actions).map (·.1)) =
        some (v, (purge step mine s actions).map (·.2)) ∧ alike t v := by
  induction actions generalizing s u answers with
  | nil =>
    obtain ⟨rfl, _⟩ := Prod.mk.inj (Option.some.inj hrun)
    exact ⟨u, rfl, hsu⟩
  | cons a actions ih =>
    obtain ⟨⟨s', o⟩, hstep, hrest⟩ := Option.bind_eq_some_iff.mp hrun
    obtain ⟨⟨t', rest⟩, htrace, he⟩ := Option.map_eq_some_iff.mp hrest
    obtain ⟨rfl, _⟩ := Prod.mk.inj he
    have hs' := h.keeps hs hstep
    simp only [purge, hstep]
    cases hmine : mine s a with
    | false => exact ih hs' hu (h.others hs hsu hmine hstep) htrace
    | true =>
      obtain ⟨v, hv, halike⟩ := h.own hs hu hsu hmine hstep
      obtain ⟨w, hw, hend⟩ := ih hs' (h.keeps hu hv) halike htrace
      refine ⟨w, ?_, hend⟩
      simp only [if_true, List.map_cons, trace, hv, Option.bind_some, hw, Option.map_some]

end Machines

section Calls
variable {σ ε α β : Type}

/-- From states with `P`, a call reads and writes only what the projection keeps. What it returns
meets `Q`. -/
structure Local (P : σ → Prop) (project : σ → σ) (x : Call σ ε α) (Q : α → Prop) : Prop where
  eq : ∀ s, P s → x (project s) = ((x s).1, project (x s).2)
  keeps : ∀ s, P s → P (x s).2
  result : ∀ s a, P s → (x s).1 = .ok a → Q a

variable {P : σ → Prop} {project : σ → σ} {x : Call σ ε α} {Q : α → Prop} {R : β → Prop}

theorem Local.pure {a : α} (h : Q a) : Local P project (pure a : Call σ ε α) Q :=
  ⟨fun _ _ => rfl, fun _ hs => hs, fun _ _ _ he => Except.ok.inj he ▸ h⟩

theorem Local.raise (e : ε) : Local P project (.raise e : Call σ ε α) Q :=
  ⟨fun _ _ => rfl, fun _ hs => hs, fun _ _ _ he => nomatch he⟩

theorem Local.ofExcept {f : σ → Except ε α} (h : ∀ s, P s → f (project s) = f s)
    (hq : ∀ s a, P s → f s = .ok a → Q a) : Local P project (.ofExcept f) Q :=
  ⟨fun s hs => by simp only [Call.ofExcept, h s hs], fun _ hs => hs, hq⟩

theorem Local.get {f : σ → α} (h : ∀ s, P s → f (project s) = f s) (hq : ∀ s, P s → Q (f s)) :
    Local P project (.get f : Call σ ε α) Q :=
  ⟨fun s hs => by simp only [Call.get, h s hs], fun _ hs => hs,
    fun s _ hs he => Except.ok.inj he ▸ hq s hs⟩

theorem Local.modify {f : σ → σ} (h : ∀ s, P s → f (project s) = project (f s))
    (hp : ∀ s, P s → P (f s)) : Local P project (.modify f : Call σ ε Unit) (fun _ => True) :=
  ⟨fun s hs => by simp only [Call.modify, h s hs], hp, fun _ _ _ _ => trivial⟩

theorem bind_ok {f : α → Call σ ε β} (h : x s = (.ok a, t)) : (x >>= f) s = f a t := by
  simp only [Bind.bind, Call.bind, h]

theorem bind_error {f : α → Call σ ε β} (h : x s = (.error e, t)) : (x >>= f) s = (.error e, t) := by
  simp only [Bind.bind, Call.bind, h]

/-- The three parts at one state. -/
theorem Local.of_at {y : Call σ ε β} (h : ∀ s, P s → y (project s) = ((y s).1, project (y s).2) ∧
    P (y s).2 ∧ ∀ b, (y s).1 = .ok b → R b) : Local P project y R :=
  ⟨fun s hs => (h s hs).1, fun s hs => (h s hs).2.1, fun s b hs he => (h s hs).2.2 b he⟩

theorem Local.bind {f : α → Call σ ε β} (hx : Local P project x Q)
    (hf : ∀ a, Q a → Local P project (f a) R) : Local P project (x >>= f) R := by
  refine .of_at (fun s hs => ?_)
  have heq := hx.eq s hs
  have hkeeps := hx.keeps s hs
  cases hr : x s with
  | mk result t =>
    rw [hr] at heq hkeeps
    cases result with
    | ok a =>
      have hfa := hf a (hx.result s a hs (by rw [hr]))
      rw [bind_ok hr, bind_ok heq]
      exact ⟨hfa.eq t hkeeps, hfa.keeps t hkeeps, fun b he => hfa.result t b hkeeps he⟩
    | error e =>
      rw [bind_error hr, bind_error heq]
      exact ⟨rfl, hkeeps, fun _ he => nomatch he⟩

theorem Local.onError {handler : ε → Call σ ε Unit} (hx : Local P project x Q)
    (hh : ∀ e, Local P project (handler e) (fun _ => True)) :
    Local P project (x.onError handler) Q := by
  refine .of_at (fun s hs => ?_)
  have heq := hx.eq s hs
  have hkeeps := hx.keeps s hs
  have hresult := hx.result s
  simp only [Call.onError]
  rw [heq]
  cases hr : x s with
  | mk result t =>
    rw [hr] at hkeeps hresult
    cases result with
    | ok a => exact ⟨rfl, hkeeps, fun b he => hresult b hs he⟩
    | error e =>
      have hraise := (hh e).bind (fun _ _ => Local.raise (Q := Q) e)
      exact ⟨hraise.eq t hkeeps, hraise.keeps t hkeeps, fun b he => hraise.result t b hkeeps he⟩

theorem Local.andFinally {last : Call σ ε Unit} (hx : Local P project x Q)
    (hlast : Local P project last (fun _ => True)) : Local P project (x.andFinally last) Q := by
  refine .of_at (fun s hs => ?_)
  have heq := hx.eq s hs
  have hkeeps := hx.keeps s hs
  have hresult := hx.result s
  simp only [Call.andFinally]
  rw [heq]
  cases hr : x s with
  | mk result t =>
    rw [hr] at hkeeps hresult
    have hend : Local P project (fun s => (result, s)) Q :=
      ⟨fun _ _ => rfl, fun _ h => h, fun _ b _ he => hresult b hs he⟩
    have hboth := hlast.bind (fun _ _ => hend)
    exact ⟨hboth.eq t hkeeps, hboth.keeps t hkeeps, fun b he => hboth.result t b hkeeps he⟩

end Calls

section Stores
variable {κ β : Type*} {p : κ → Prop} {store : κ → Option β} {k : κ}

open Classical in
/-- The part of a store under the keys with `p`. -/
noncomputable def restrict (p : κ → Prop) (store : κ → Option β) : κ → Option β :=
  fun k => if p k then store k else none

theorem restrict_at (h : p k) : restrict p store k = store k := if_pos h

theorem restrict_off (h : ¬p k) : restrict p store k = none := if_neg h

/-- A write under a key that the kept ones come to include. -/
theorem update_restrict_more [DecidableEq κ] {q : κ → Prop} (hk : q k) (h : ∀ j, j ≠ k → (p j ↔ q j))
    (v : Option β) :
    Function.update (restrict p store) k v = restrict q (Function.update store k v) := by
  funext j
  by_cases hj : j = k
  · subst hj
    rw [Function.update_self, restrict_at hk, Function.update_self]
  · simp only [Function.update_of_ne hj, restrict]
    by_cases hp : p j
    · rw [if_pos hp, if_pos ((h j hj).mp hp)]
    · rw [if_neg hp, if_neg (fun hq => hp ((h j hj).mpr hq))]

theorem update_restrict [DecidableEq κ] (h : p k) (v : Option β) :
    Function.update (restrict p store) k v = restrict p (Function.update store k v) :=
  update_restrict_more h (fun _ _ => .rfl) v

theorem restrict_update [DecidableEq κ] (h : ¬p k) (v : Option β) :
    restrict p (Function.update store k v) = restrict p store := by
  funext j
  by_cases hj : j = k
  · subst hj
    rw [restrict_off h, restrict_off h]
  · simp only [restrict, Function.update_of_ne hj]

/-- Keys that only ever hold nothing make no difference. -/
theorem restrict_congr {q : κ → Prop} (h : ∀ j, store j ≠ none → (p j ↔ q j)) :
    restrict p store = restrict q store := by
  funext j
  by_cases hj : store j = none
  · simp [restrict, hj]
  · by_cases hp : p j
    · rw [restrict_at hp, restrict_at ((h j hj).mp hp)]
    · rw [restrict_off hp, restrict_off (fun hq => hp ((h j hj).mpr hq))]

end Stores

end FileDelivery.Library.Interference
