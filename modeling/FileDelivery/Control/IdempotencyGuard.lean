import FileDelivery.Control.Text
import Mathlib.Logic.Function.Basic

namespace FileDelivery.Control.IdempotencyGuard
open FileDelivery.Control

/-- A character that `_KEY_PART_RE` leaves alone. -/
def keyChar (c : Char) : Bool :=
  c.isAlphanum || c == '_' || c == '.' || c == ':' || c == '-'

/-- Each run of other characters becomes one underscore. -/
def squeeze : Bool → Text → Text
  | _, [] => []
  | inRun, c :: rest =>
    if keyChar c then c :: squeeze false rest
    else if inRun then squeeze true rest
    else '_' :: squeeze true rest

def _safe_key_part (value : Text) : Text :=
  let compact := (squeeze false (strip value)).take 128
  if compact = [] then ['_'] else compact

def _guard_key (operation identity : Text) : Text :=
  "idempotency:v1:".toList ++ _safe_key_part operation ++ [':'] ++ _safe_key_part identity

/-- The keys that Redis holds, each with the token of its claim. -/
abbrev Store := Text → Option Nat

/-- SET NX; with the guard switched off every claim is granted and none is stored. -/
def acquire (enabled : Bool) (store : Store) (key : Text) (token : Nat) : Option Store :=
  if enabled then
    match store key with
    | none => some (Function.update store key (some token))
    | some _ => none
  else some store

/-- The release script: delete the key if it still holds the token. -/
def release (enabled : Bool) (store : Store) (key : Text) (token : Nat) : Store :=
  if enabled ∧ store key = some token then Function.update store key none else store

/-- A claim is granted where none is held, and is held then. -/
theorem acquire_some (h : acquire true store key token = some store') :
    store key = none ∧ store' key = some token ∧ ∀ k ≠ key, store' k = store k := by
  simp only [acquire, if_true] at h
  split at h
  · rename_i hnone
    cases h
    exact ⟨hnone, by simp, fun k hk => by simp [hk]⟩
  · cases h

/-- A release leaves the claims of other tokens alone. -/
theorem release_other (h : store k = some holder) (hne : holder ≠ token) :
    release enabled store key token k = some holder := by
  unfold release
  split
  · rename_i hmine
    have : k ≠ key := by
      rintro rfl
      rw [h] at hmine
      exact hne (Option.some.inj hmine.2)
    rw [Function.update_of_ne this, h]
  · exact h

example : _guard_key "upload_task" "hq:12" = ("idempotency:v1:upload_task:hq:12" : Text) := by
  decide
example : _safe_key_part " a b/c " = ("a_b_c" : Text) := by decide

end FileDelivery.Control.IdempotencyGuard
