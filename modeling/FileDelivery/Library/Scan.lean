import Mathlib.Logic.Basic

namespace FileDelivery.Library.Scan

variable {α ε : Type*} {refuse : List α → α → Option ε} {before rest : List α} {e : ε}

/-- A loop that stops at the first item that is refused, in view of the items before it. -/
def scan (refuse : List α → α → Option ε) : List α → List α → Except ε Unit
  | _, [] => .ok ()
  | before, a :: rest =>
    match refuse before a with
    | some e => .error e
    | none => scan refuse (before ++ [a]) rest

/-- None of the items is refused after those before it. -/
def Passes (refuse : List α → α → Option ε) (before rest : List α) : Prop :=
  ∀ earlier a later, rest = earlier ++ a :: later → refuse (before ++ earlier) a = none

theorem passes_nil : Passes refuse before [] := by
  intro earlier a later h
  simp at h

theorem passes_cons {a : α} : Passes refuse before (a :: rest) ↔
    refuse before a = none ∧ Passes refuse (before ++ [a]) rest := by
  constructor
  · intro h
    refine ⟨by simpa using h [] a rest rfl, fun earlier b later heq => ?_⟩
    simpa using h (a :: earlier) b later (by rw [heq, List.cons_append])
  · rintro ⟨hfirst, hrest⟩ earlier b later heq
    cases earlier with
    | nil =>
      obtain ⟨rfl, rfl⟩ := List.cons.inj heq
      simpa using hfirst
    | cons c earlier =>
      obtain ⟨rfl, rfl⟩ := List.cons.inj heq
      simpa using hrest earlier b later rfl

theorem passes_append {first second : List α} : Passes refuse before (first ++ second) ↔
    Passes refuse before first ∧ Passes refuse (before ++ first) second := by
  induction first generalizing before with
  | nil => simp [passes_nil]
  | cons a first ih => rw [List.cons_append, passes_cons, passes_cons, ih, List.append_assoc,
      List.singleton_append, and_assoc]

theorem passes_snoc {earlier : List α} {a : α} : Passes refuse before (earlier ++ [a]) ↔
    Passes refuse before earlier ∧ refuse (before ++ earlier) a = none := by
  rw [passes_append, passes_cons]
  simp [passes_nil]

theorem scan_ok_iff : scan refuse before rest = .ok () ↔ Passes refuse before rest := by
  induction rest generalizing before with
  | nil => exact ⟨fun _ => passes_nil, fun _ => rfl⟩
  | cons a rest ih =>
    rw [passes_cons, scan]
    cases h : refuse before a with
    | some e => simp
    | none => simpa using ih

/-- The loop fails with the first refusal. -/
theorem scan_error_iff : scan refuse before rest = .error e ↔
    ∃ earlier a later, rest = earlier ++ a :: later ∧ Passes refuse before earlier ∧
      refuse (before ++ earlier) a = some e := by
  induction rest generalizing before with
  | nil => simp [scan]
  | cons a rest ih =>
    rw [scan]
    cases h : refuse before a with
    | some x =>
      constructor
      · intro he
        cases he
        exact ⟨[], a, rest, rfl, passes_nil, by simpa using h⟩
      · rintro ⟨earlier, b, later, heq, hpass, hb⟩
        cases earlier with
        | nil =>
          obtain ⟨rfl, rfl⟩ := List.cons.inj heq
          rw [List.append_nil, h] at hb
          exact congrArg Except.error (Option.some.inj hb)
        | cons c earlier =>
          obtain ⟨rfl, rfl⟩ := List.cons.inj heq
          rw [passes_cons, h] at hpass
          cases hpass.1
    | none =>
      simp only [ih]
      constructor
      · rintro ⟨earlier, b, later, rfl, hpass, hb⟩
        exact ⟨a :: earlier, b, later, rfl, passes_cons.mpr ⟨h, hpass⟩, by simpa using hb⟩
      · rintro ⟨earlier, b, later, heq, hpass, hb⟩
        cases earlier with
        | nil =>
          obtain ⟨rfl, rfl⟩ := List.cons.inj heq
          rw [List.append_nil, h] at hb
          cases hb
        | cons c earlier =>
          obtain ⟨rfl, rfl⟩ := List.cons.inj heq
          exact ⟨earlier, b, later, rfl, (passes_cons.mp hpass).2, by simpa using hb⟩

end FileDelivery.Library.Scan
