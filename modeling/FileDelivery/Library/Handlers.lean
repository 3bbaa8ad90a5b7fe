import Mathlib.Logic.Basic

namespace FileDelivery.Library.Handlers

/-- A call on a state. What it has done stays done when it raises. -/
def Call (σ ε α : Type) : Type := σ → Except ε α × σ

variable {σ ε α β : Type}

namespace Call

protected def bind (x : Call σ ε α) (f : α → Call σ ε β) : Call σ ε β := fun s =>
  match x s with
  | (.ok a, s) => f a s
  | (.error e, s) => (.error e, s)

instance : Monad (Call σ ε) where
  pure a := fun s => (.ok a, s)
  bind := Call.bind

def raise (e : ε) : Call σ ε α := fun s => (.error e, s)

def ofExcept (f : σ → Except ε α) : Call σ ε α := fun s => (f s, s)

def get (f : σ → α) : Call σ ε α := fun s => (.ok (f s), s)

def modify (f : σ → σ) : Call σ ε Unit := fun s => (.ok (), f s)

/-- `except` with `raise` at its end. An exception of the handler takes the place of the first. -/
def onError (x : Call σ ε α) (handler : ε → Call σ ε Unit) : Call σ ε α := fun s =>
  match x s with
  | (.ok a, s) => (.ok a, s)
  | (.error e, s) => (handler e).bind (fun _ => raise e) s

/-- `finally`. -/
def andFinally (x : Call σ ε α) (last : Call σ ε Unit) : Call σ ε α := fun s =>
  match x s with
  | (result, s) => last.bind (fun _ s => (result, s)) s

end Call

/-- From a state with `P`, a call returns with `Q` or raises with `E`. -/
def Ends (P : σ → Prop) (x : Call σ ε α) (Q : α → σ → Prop) (E : ε → σ → Prop) : Prop :=
  ∀ s, P s → match x s with
    | (.ok a, s') => Q a s'
    | (.error e, s') => E e s'

variable {P P' : σ → Prop} {Q Q' : α → σ → Prop} {R : β → σ → Prop} {E E' : ε → σ → Prop}
  {x : Call σ ε α} {s s' : σ}

theorem Ends.ok (h : Ends P x Q E) (hs : P s) (hx : x s = (.ok a, s')) : Q a s' := by
  simpa [hx] using h s hs

theorem Ends.error (h : Ends P x Q E) (hs : P s) (hx : x s = (.error e, s')) : E e s' := by
  simpa [hx] using h s hs

/-- A call that cannot raise returns. -/
theorem Ends.returns (h : Ends P x Q (fun _ _ => False)) (hs : P s) :
    ∃ a s', x s = (.ok a, s') ∧ Q a s' := by
  cases hx : x s with
  | mk result s' =>
    cases result with
    | ok a => exact ⟨a, s', rfl, h.ok hs hx⟩
    | error e => exact (h.error hs hx).elim

/-- What holds on both ways out. -/
theorem Ends.final {R : σ → Prop} (h : Ends P x (fun _ => R) (fun _ => R)) (hs : P s) : R (x s).2 := by
  cases hx : x s with
  | mk result s' =>
    cases result with
    | ok a => exact h.ok hs hx
    | error e => exact h.error hs hx

theorem Ends.mono (h : Ends P x Q E) (hP : ∀ s, P' s → P s) (hQ : ∀ a s, Q a s → Q' a s)
    (hE : ∀ e s, E e s → E' e s) : Ends P' x Q' E' := by
  intro s hs
  cases hx : x s with
  | mk result s' =>
    cases result with
    | ok a => exact hQ a s' (h.ok (hP s hs) hx)
    | error e => exact hE e s' (h.error (hP s hs) hx)

/-- A fact about no state is a hypothesis. -/
theorem Ends.assuming {p : Prop} (h : p → Ends P x Q E) : Ends (fun s => p ∧ P s) x Q E :=
  fun s hs => h hs.1 s hs.2

theorem Ends.pure (h : ∀ s, P s → Q a s) : Ends P (pure a : Call σ ε α) Q E := h

theorem Ends.raise (h : ∀ s, P s → E e s) : Ends P (.raise e : Call σ ε α) Q E := h

theorem Ends.ofExcept {f : σ → Except ε α} (hok : ∀ s a, P s → f s = .ok a → Q a s)
    (herror : ∀ s e, P s → f s = .error e → E e s) : Ends P (.ofExcept f) Q E := by
  intro s hs
  simp only [Call.ofExcept]
  cases hf : f s with
  | ok a => exact hok s a hs hf
  | error e => exact herror s e hs hf

theorem Ends.get {f : σ → α} (h : ∀ s, P s → Q (f s) s) : Ends P (.get f : Call σ ε α) Q E := h

theorem Ends.modify {f : σ → σ} {Q : Unit → σ → Prop} (h : ∀ s, P s → Q () (f s)) :
    Ends P (.modify f : Call σ ε Unit) Q E := h

theorem Ends.bind {f : α → Call σ ε β} (hx : Ends P x Q E) (hf : ∀ a, Ends (Q a) (f a) R E) :
    Ends P (x >>= f) R E := by
  intro s hs
  simp only [Bind.bind, Call.bind]
  cases hr : x s with
  | mk result s' =>
    cases result with
    | ok a => exact hf a s' (hx.ok hs hr)
    | error e => exact hx.error hs hr

/-- The handler begins where the exception has left the state. -/
theorem Ends.onError {handler : ε → Call σ ε Unit} (hx : Ends P x Q E)
    (hh : ∀ e, Ends (E e) (handler e) (fun _ s => E' e s) E') : Ends P (x.onError handler) Q E' := by
  intro s hs
  simp only [Call.onError]
  cases hr : x s with
  | mk result s' =>
    cases result with
    | ok a => exact hx.ok hs hr
    | error e => exact (hh e).bind (fun _ => Ends.raise (fun _ h => h)) s' (hx.error hs hr)

/-- The last call runs on both ways out. -/
theorem Ends.andFinally {last : Call σ ε Unit} (hx : Ends P x Q E)
    (hok : ∀ a, Ends (Q a) last (fun _ s => Q' a s) E')
    (herror : ∀ e, Ends (E e) last (fun _ s => E' e s) E') : Ends P (x.andFinally last) Q' E' := by
  intro s hs
  simp only [Call.andFinally]
  cases hr : x s with
  | mk result s' =>
    cases result with
    | ok a => exact (hok a).bind (f := fun _ s => (.ok a, s)) (fun _ _ h => h) s' (hx.ok hs hr)
    | error e =>
      exact (herror e).bind (f := fun _ s => (.error e, s)) (fun _ _ h => h) s' (hx.error hs hr)

end FileDelivery.Library.Handlers
