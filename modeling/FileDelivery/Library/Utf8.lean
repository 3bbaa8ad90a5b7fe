import Mathlib.Data.List.Basic

namespace FileDelivery.Library.Utf8

/-- The character whose encoding the bytes begin with. -/
def decodeChar (bytes : List UInt8) : Option Char := bytes.toByteArray.utf8DecodeChar? 0

def replacement : Char := Char.ofNat 0xfffd

/-- The characters of the bytes after the next `n`. A byte at which no character begins stands for
one that is replaced. -/
def decodeFrom : Nat → List UInt8 → List Char
  | _, [] => []
  | n + 1, _ :: rest => decodeFrom n rest
  | 0, b :: rest =>
    match decodeChar (b :: rest) with
    | some c => c :: decodeFrom (c.utf8Size - 1) rest
    | none => replacement :: decodeFrom 0 rest

def decode (bytes : List UInt8) : List Char := decodeFrom 0 bytes

def encode (text : List Char) : List UInt8 := text.flatMap String.utf8EncodeChar

/-- The bytes are those of some text. -/
def Valid (bytes : List UInt8) : Prop := ∃ text, bytes = encode text

theorem decodeChar_append (c : Char) (rest : List UInt8) :
    decodeChar (String.utf8EncodeChar c ++ rest) = some c := by
  rw [decodeChar, List.toByteArray_append]
  exact ByteArray.utf8DecodeChar?_utf8EncodeChar_append

theorem decodeFrom_append (skipped rest : List UInt8) :
    decodeFrom skipped.length (skipped ++ rest) = decodeFrom 0 rest := by
  induction skipped with
  | nil => rfl
  | cons b skipped ih => exact ih

theorem decode_append (c : Char) (rest : List UInt8) :
    decode (String.utf8EncodeChar c ++ rest) = c :: decode rest := by
  have hchar := decodeChar_append c rest
  have hlen := String.length_utf8EncodeChar c
  cases hbytes : String.utf8EncodeChar c with
  | nil =>
    rw [hbytes, List.length_nil] at hlen
    have hpos := Char.utf8Size_pos c
    omega
  | cons b more =>
    rw [hbytes] at hchar
    rw [hbytes, List.length_cons] at hlen
    have hskip : c.utf8Size - 1 = more.length := by omega
    rw [List.cons_append] at hchar ⊢
    rw [decode, decodeFrom, hchar]
    simp only [hskip, decodeFrom_append]
    rfl

theorem decode_encode (text : List Char) : decode (encode text) = text := by
  induction text with
  | nil => rfl
  | cons c text ih =>
    rw [encode, List.flatMap_cons, decode_append]
    exact congrArg (c :: ·) ih

/-- Nothing of valid bytes is lost in their text. -/
theorem Valid.encode_decode {bytes : List UInt8} (h : Valid bytes) : encode (decode bytes) = bytes := by
  obtain ⟨text, rfl⟩ := h
  rw [decode_encode]

end FileDelivery.Library.Utf8
