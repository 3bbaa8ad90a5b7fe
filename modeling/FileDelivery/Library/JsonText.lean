import FileDelivery.Library.Json
import Mathlib.Data.List.Basic

namespace FileDelivery.Library.JsonText
open FileDelivery.Library.Json

/-- The four hexadecimal digits of a code unit. -/
def hex4 (n : Nat) : List Char :=
  [Nat.digitChar (n / 4096 % 16), Nat.digitChar (n / 256 % 16), Nat.digitChar (n / 16 % 16),
    Nat.digitChar (n % 16)]

/-- A code unit as an escape. -/
def unit (n : Nat) : List Char := '\\' :: 'u' :: hex4 n

/-- Characters with an escape of two characters, and its letter. -/
def letters : List (Char × Char) :=
  [('"', '"'), ('\\', '\\'), ('\n', 'n'), ('\r', 'r'), ('\t', 't'), (Char.ofNat 12, 'f'),
    (Char.ofNat 8, 'b')]

/-- What is not printable ASCII is escaped; beyond 16 bits as a surrogate pair. -/
def escape (c : Char) : List Char :=
  match letters.lookup c with
  | some letter => ['\\', letter]
  | none =>
    if 32 ≤ c.toNat ∧ c.toNat ≤ 126 then [c]
    else if c.toNat < 0x10000 then unit c.toNat
    else unit (0xd800 + (c.toNat - 0x10000) / 1024) ++ unit (0xdc00 + (c.toNat - 0x10000) % 1024)

def dumpString (s : String) : List Char := '"' :: (s.toList.flatMap escape ++ ['"'])

def dumpInt (n : Int) : List Char :=
  if n < 0 then '-' :: Nat.toDigits 10 n.natAbs else Nat.toDigits 10 n.natAbs

def separated (parts : List (List Char)) : List Char := [',', ' '].intercalate parts

mutual

def dumps : Value → List Char
  | .null => ['n', 'u', 'l', 'l']
  | .bool true => ['t', 'r', 'u', 'e']
  | .bool false => ['f', 'a', 'l', 's', 'e']
  | .num n => dumpInt n
  | .str s => dumpString s
  | .arr items => '[' :: (separated (dumpItems items) ++ [']'])
  | .obj members => '{' :: (separated (dumpMembers members) ++ ['}'])

def dumpItems : List Value → List (List Char)
  | [] => []
  | v :: items => dumps v :: dumpItems items

def dumpMembers : List (String × Value) → List (List Char)
  | [] => []
  | (name, v) :: members => (dumpString name ++ ':' :: ' ' :: dumps v) :: dumpMembers members

end

def blank (c : Char) : Bool := c == ' ' || c == '\t' || c == '\n' || c == '\r'

def skip (l : List Char) : List Char := l.dropWhile blank

def hexVal (c : Char) : Option Nat :=
  if c.isDigit then some (c.toNat - 48)
  else if 97 ≤ c.toNat ∧ c.toNat ≤ 102 then some (c.toNat - 87)
  else if 65 ≤ c.toNat ∧ c.toNat ≤ 70 then some (c.toNat - 55)
  else none

def readHex : List Char → Option (Nat × List Char)
  | a :: b :: c :: d :: rest => do
    some (4096 * (← hexVal a) + 256 * (← hexVal b) + 16 * (← hexVal c) + (← hexVal d), rest)
  | _ => none

/-- After the start of an escaped code unit. A surrogate without its partner is no character. -/
def readUnit (l : List Char) : Option (Char × List Char) := do
  let (n, rest) ← readHex l
  if 0xd800 ≤ n ∧ n < 0xdc00 then
    match rest with
    | '\\' :: 'u' :: low =>
      let (m, rest) ← readHex low
      if 0xdc00 ≤ m ∧ m < 0xe000 then
        some (Char.ofNat (0x10000 + (n - 0xd800) * 1024 + (m - 0xdc00)), rest)
      else none
    | _ => none
  else if 0xdc00 ≤ n ∧ n < 0xe000 then none
  else some (Char.ofNat n, rest)

/-- After a backslash. -/
def readEscape : List Char → Option (Char × List Char)
  | 'u' :: rest => readUnit rest
  | '/' :: rest => some ('/', rest)
  | letter :: rest => ((letters.find? (·.2 == letter)).map (·.1)).map (·, rest)
  | [] => none

/-- The next character of a string. -/
def readChar : List Char → Option (Char × List Char)
  | '\\' :: rest => readEscape rest
  | c :: rest => if c.toNat < 32 then none else some (c, rest)
  | [] => none

/-- The rest of a string of at most `n - 1` characters, up to its closing quote. -/
def readChars : Nat → List Char → Option (List Char × List Char)
  | 0, _ => none
  | _ + 1, '"' :: rest => some ([], rest)
  | n + 1, l => do
    let (c, rest) ← readChar l
    let (cs, rest) ← readChars n rest
    some (c :: cs, rest)

def readText (l : List Char) : Option (String × List Char) :=
  (readChars l.length l).map (fun r => (String.ofList r.1, r.2))

/-- The digits of a number: none after a leading zero. -/
def readDigits : List Char → List Char × List Char
  | '0' :: rest => (['0'], rest)
  | l => (l.takeWhile Char.isDigit, l.dropWhile Char.isDigit)

def readNat (l : List Char) : Option (Nat × List Char) :=
  match readDigits l with
  | ([], _) => none
  | (_, '.' :: _) | (_, 'e' :: _) | (_, 'E' :: _) => none
  | (digits, rest) => some (Nat.ofDigitChars 10 digits 0, rest)

/-- An integer; a number with a fraction or an exponent denotes no value. -/
def readNumber : List Char → Option (Int × List Char)
  | '-' :: rest => (readNat rest).map (fun r => (-(r.1 : Int), r.2))
  | l => (readNat l).map (fun r => ((r.1 : Int), r.2))

section Sequences
variable {α : Type*} (read : List Char → Option (α × List Char)) (close : Char)

/-- At least one element, and more after commas, up to the closing bracket. -/
def readMore : Nat → List Char → Option (List α × List Char)
  | 0, _ => none
  | n + 1, l => do
    let (a, rest) ← read (skip l)
    match skip rest with
    | c :: rest =>
      if c = close then some ([a], rest)
      else if c = ',' then
        let (as, rest) ← readMore n rest
        some (a :: as, rest)
      else none
    | [] => none

def readAll (l : List Char) : Option (List α × List Char) :=
  match skip l with
  | c :: rest => if c = close then some ([], rest) else readMore read close l.length l
  | [] => none

end Sequences

def readMember (read : List Char → Option (Value × List Char)) :
    List Char → Option ((String × Value) × List Char)
  | '"' :: l => do
    let (name, rest) ← readText l
    match skip rest with
    | ':' :: rest =>
      let (v, rest) ← read (skip rest)
      some ((name, v), rest)
    | _ => none
  | _ => none

/-- A value that is nested at most `n - 1` deep. -/
def readValue : Nat → List Char → Option (Value × List Char)
  | 0, _ => none
  | _ + 1, 'n' :: 'u' :: 'l' :: 'l' :: rest => some (.null, rest)
  | _ + 1, 't' :: 'r' :: 'u' :: 'e' :: rest => some (.bool true, rest)
  | _ + 1, 'f' :: 'a' :: 'l' :: 's' :: 'e' :: rest => some (.bool false, rest)
  | _ + 1, '"' :: rest => (readText rest).map (fun r => (.str r.1, r.2))
  | n + 1, '[' :: rest => (readAll (readValue n) ']' rest).map (fun r => (.arr r.1, r.2))
  | n + 1, '{' :: rest =>
    (readAll (readMember (readValue n)) '}' rest).map (fun r => (.obj r.1, r.2))
  | _ + 1, l => (readNumber l).map (fun r => (.num r.1, r.2))

def loads (l : List Char) : Option Value :=
  match readValue l.length (skip l) with
  | some (v, rest) => if skip rest = [] then some v else none
  | none => none

theorem hexVal_digitChar (h : d < 16) : hexVal (Nat.digitChar d) = some d := by
  have hall : ∀ d < 16, hexVal (Nat.digitChar d) = some d := by decide
  exact hall d h

theorem readHex_hex4 (h : n < 0x10000) (rest : List Char) :
    readHex (hex4 n ++ rest) = some (n, rest) := by
  have hmod : ∀ k, hexVal (Nat.digitChar (k % 16)) = some (k % 16) :=
    fun k => hexVal_digitChar (Nat.mod_lt k (by decide))
  simp only [hex4, List.cons_append, List.nil_append, readHex, hmod]
  simp only [Option.bind_eq_bind, Option.bind_some, Option.some.injEq, Prod.mk.injEq, and_true]
  omega

theorem not_surrogate (c : Char) : c.toNat < 0xd800 ∨ 0xe000 ≤ c.toNat ∧ c.toNat < 0x110000 := by
  have := c.valid
  simp only [UInt32.isValidChar, Nat.isValidChar] at this
  unfold Char.toNat
  omega

theorem readUnit_low (h : c.toNat < 0x10000) (rest : List Char) :
    readUnit (hex4 c.toNat ++ rest) = some (c, rest) := by
  have hc := not_surrogate c
  rw [readUnit, readHex_hex4 h, Option.bind_eq_bind, Option.bind_some]
  dsimp only
  rw [if_neg (by omega), if_neg (by omega), Char.ofNat_toNat]

/-- A pair of surrogates. -/
theorem readUnit_pair (hhigh : 0xd800 ≤ high ∧ high < 0xdc00) (hlow : 0xdc00 ≤ low ∧ low < 0xe000)
    (rest : List Char) : readUnit (hex4 high ++ (unit low ++ rest)) =
      some (Char.ofNat (0x10000 + (high - 0xd800) * 1024 + (low - 0xdc00)), rest) := by
  rw [readUnit, readHex_hex4 (Nat.lt_trans hhigh.2 (by decide)), Option.bind_eq_bind,
    Option.bind_some]
  dsimp only [unit, List.cons_append]
  rw [if_pos hhigh]
  simp only [readHex_hex4 (Nat.lt_trans hlow.2 (by decide)), Option.bind_some, if_pos hlow]

theorem readUnit_high (h : 0x10000 ≤ c.toNat) (rest : List Char) :
    readUnit (hex4 (0xd800 + (c.toNat - 0x10000) / 1024) ++
      (unit (0xdc00 + (c.toNat - 0x10000) % 1024) ++ rest)) = some (c, rest) := by
  have hc := not_surrogate c
  rw [readUnit_pair (by omega) (by omega)]
  have hback : 0x10000 + (0xd800 + (c.toNat - 0x10000) / 1024 - 0xd800) * 1024 +
      (0xdc00 + (c.toNat - 0x10000) % 1024 - 0xdc00) = c.toNat := by omega
  rw [hback, Char.ofNat_toNat]

theorem read_letter (h : (c, letter) ∈ letters) (rest : List Char) :
    readEscape (letter :: rest) = some (c, rest) := by
  simp only [letters, List.mem_cons, Prod.mk.injEq, List.not_mem_nil, or_false] at h
  rcases h with ⟨rfl, rfl⟩ | ⟨rfl, rfl⟩ | ⟨rfl, rfl⟩ | ⟨rfl, rfl⟩ | ⟨rfl, rfl⟩ | ⟨rfl, rfl⟩ | ⟨rfl, rfl⟩
  all_goals rfl

theorem mem_of_lookup {l : List (Char × Char)} (h : l.lookup c = some letter) :
    (c, letter) ∈ l := by
  obtain ⟨pre, post, rfl, _⟩ := List.lookup_eq_some_iff.mp h
  exact List.mem_append_right _ List.mem_cons_self

/-- An escape is read back as its character. -/
theorem readChar_escape (c : Char) (rest : List Char) :
    readChar (escape c ++ rest) = some (c, rest) := by
  unfold escape
  split
  · rename_i letter hletter
    exact read_letter (mem_of_lookup hletter) rest
  · rename_i hnone
    have hslash : c ≠ '\\' := by
      intro he
      subst he
      cases hnone
    split
    · rename_i hprint
      rw [List.singleton_append]
      unfold readChar
      split
      · rename_i heq
        cases heq
        exact absurd rfl hslash
      · rename_i heq
        cases heq
        rw [if_neg (by omega)]
      · rename_i heq
        cases heq
    · split
      · rename_i hlow
        exact readUnit_low hlow rest
      · rename_i hhigh
        rw [List.append_assoc]
        exact readUnit_high (by omega) rest

/-- No escape starts like the end of a string. -/
theorem escape_cons (c : Char) : ∃ x more, escape c = x :: more ∧ x ≠ '"' := by
  unfold escape
  split
  · exact ⟨_, _, rfl, by decide⟩
  · rename_i hnone
    split
    · refine ⟨c, [], rfl, ?_⟩
      intro he
      subst he
      cases hnone
    · split
      · exact ⟨_, _, rfl, by decide⟩
      · exact ⟨_, _, rfl, by decide⟩

theorem readChars_dump (l : List Char) (h : l.length < n) (rest : List Char) :
    readChars n (l.flatMap escape ++ '"' :: rest) = some (l, rest) := by
  induction l generalizing n with
  | nil =>
    obtain ⟨m, rfl⟩ := Nat.exists_eq_add_one_of_ne_zero (Nat.ne_of_gt h)
    rfl
  | cons c l ih =>
    obtain ⟨m, rfl⟩ := Nat.exists_eq_add_one_of_ne_zero (Nat.ne_of_gt (Nat.zero_lt_of_lt h))
    obtain ⟨x, more, heq, hx⟩ := escape_cons c
    have hread := readChar_escape c (l.flatMap escape ++ '"' :: rest)
    rw [heq, List.cons_append] at hread
    rw [List.flatMap_cons, List.append_assoc, heq, List.cons_append, readChars.eq_3 _ _ (by simp_all),
      hread]
    simp only [Option.bind_eq_bind, Option.bind_some, ih (Nat.lt_of_succ_lt_succ h)]

theorem length_le_escaped (l : List Char) : l.length ≤ (l.flatMap escape).length := by
  induction l with
  | nil => exact Nat.le_refl 0
  | cons c l ih =>
    obtain ⟨x, more, heq, _⟩ := escape_cons c
    rw [List.flatMap_cons, heq]
    simp only [List.length_cons, List.length_append]
    omega

theorem readText_dump (s : String) (rest : List Char) :
    readText (s.toList.flatMap escape ++ '"' :: rest) = some (s, rest) := by
  have hlen := length_le_escaped s.toList
  rw [readText, readChars_dump s.toList (by rw [List.length_append, List.length_cons]; omega)]
  simp

/-- What may follow a number. -/
def Ends (rest : List Char) : Prop :=
  ∀ c ∈ rest.head?, c.isDigit = false ∧ c ≠ '.' ∧ c ≠ 'e' ∧ c ≠ 'E'

theorem leading_zero (n : Nat) (h : (Nat.toDigits 10 n).head? = some '0') : n = 0 := by
  induction n using Nat.strongRecOn with
  | ind n ih =>
    by_cases hn : n < 10
    · rw [Nat.toDigits_of_lt_base hn] at h
      simpa using h
    · rw [Nat.toDigits_of_base_le (by decide) (by omega)] at h
      have hne : Nat.toDigits 10 (n / 10) ≠ [] := Nat.toDigits_ne_nil
      rw [List.head?_append_of_ne_nil _ hne] at h
      have := ih (n / 10) (by omega) h
      omega

theorem readDigits_dump (n : Nat) (h : Ends rest) :
    readDigits (Nat.toDigits 10 n ++ rest) = (Nat.toDigits 10 n, rest) := by
  have hdigits : ∀ c ∈ Nat.toDigits 10 n, c.isDigit = true :=
    fun c hc => Nat.isDigit_of_mem_toDigits (by decide) (by decide) hc
  have hrest : rest.takeWhile Char.isDigit = [] ∧ rest.dropWhile Char.isDigit = rest := by
    cases rest with
    | nil => exact ⟨rfl, rfl⟩
    | cons c rest =>
      have hc := (h c rfl).1
      exact ⟨List.takeWhile_cons_of_neg (by simp [hc]), List.dropWhile_cons_of_neg (by simp [hc])⟩
  by_cases hn : n = 0
  · subst hn
    rfl
  · rw [readDigits]
    · rw [List.takeWhile_append_of_pos hdigits, List.dropWhile_append_of_pos hdigits, hrest.1, hrest.2,
        List.append_nil]
    · intro more heq
      refine hn (leading_zero n ?_)
      rw [← List.head?_append_of_ne_nil _ Nat.toDigits_ne_nil, heq, List.head?_cons]

theorem readNat_dump (n : Nat) (h : Ends rest) :
    readNat (Nat.toDigits 10 n ++ rest) = some (n, rest) := by
  rw [readNat, readDigits_dump n h]
  split
  · rename_i heq
    exact absurd (Prod.mk.inj heq).1 Nat.toDigits_ne_nil
  · rename_i heq
    rw [(Prod.mk.inj heq).2] at h
    exact absurd rfl (h _ rfl).2.1
  · rename_i heq
    rw [(Prod.mk.inj heq).2] at h
    exact absurd rfl (h _ rfl).2.2.1
  · rename_i heq
    rw [(Prod.mk.inj heq).2] at h
    exact absurd rfl (h _ rfl).2.2.2
  · rename_i heq
    obtain ⟨rfl, rfl⟩ := Prod.mk.inj heq
    rw [Nat.ofDigitChars_ten_toDigits]

/-- The first character of a number. -/
theorem dumpInt_cons (n : Int) : ∃ c more, dumpInt n = c :: more ∧ (c = '-' ∨ c.isDigit = true) := by
  unfold dumpInt
  split
  · exact ⟨_, _, rfl, .inl rfl⟩
  · obtain ⟨c, more, heq⟩ := List.exists_cons_of_ne_nil (Nat.toDigits_ne_nil (n := n.natAbs) (b := 10))
    have hc : c ∈ Nat.toDigits 10 n.natAbs := heq ▸ List.mem_cons_self
    exact ⟨c, more, heq, .inr (Nat.isDigit_of_mem_toDigits (by decide) (by decide) hc)⟩

theorem readNumber_dump (n : Int) (h : Ends rest) :
    readNumber (dumpInt n ++ rest) = some (n, rest) := by
  unfold dumpInt
  split
  · rename_i hneg
    rw [List.cons_append, readNumber, readNat_dump _ h, Option.map_some]
    congr 2
    omega
  · rename_i hpos
    rw [readNumber, readNat_dump _ h, Option.map_some]
    · congr 2
      omega
    · intro more heq
      have hmem : '-' ∈ Nat.toDigits 10 n.natAbs := by
        have := congrArg List.head? heq
        rw [List.head?_append_of_ne_nil _ Nat.toDigits_ne_nil] at this
        exact List.mem_of_head? this
      exact absurd (Nat.isDigit_of_mem_toDigits (by decide) (by decide) hmem) (by decide)

@[simp] theorem separated_singleton (x : List Char) : separated [x] = x :=
  List.intercalate_singleton

theorem separated_cons (x y : List Char) (l : List (List Char)) :
    separated (x :: y :: l) = x ++ ',' :: ' ' :: separated (y :: l) := by
  rw [separated, List.intercalate_cons_cons, List.append_assoc]
  rfl

theorem length_separated (x y : List Char) (l : List (List Char)) :
    (separated (x :: y :: l)).length = x.length + 2 + (separated (y :: l)).length := by
  rw [separated_cons, List.length_append, List.length_cons, List.length_cons]
  omega

theorem length_le_separated (h : x ∈ parts) : x.length ≤ (separated parts).length := by
  induction parts with
  | nil => cases h
  | cons y parts ih =>
    cases parts with
    | nil =>
      have hx := List.mem_singleton.mp h
      exact Nat.le_of_eq (by rw [hx, separated_singleton])
    | cons z parts =>
      rw [length_separated]
      rcases List.mem_cons.mp h with rfl | h
      · omega
      · have := ih h
        omega

theorem count_le_separated (h : ∀ x ∈ parts, x ≠ []) : parts.length ≤ (separated parts).length := by
  induction parts with
  | nil => exact Nat.zero_le _
  | cons y parts ih =>
    cases parts with
    | nil =>
      rw [separated_singleton]
      exact List.length_pos_iff.mpr (h y List.mem_cons_self)
    | cons z parts =>
      have := ih (fun x hx => h x (List.mem_cons_of_mem _ hx))
      rw [length_separated, List.length_cons]
      omega

theorem skip_cons (h : blank c = false) (l : List Char) : skip (c :: l) = c :: l :=
  List.dropWhile_cons_of_neg (by simp [h])

section Sequences
variable {α : Type*} {read : List Char → Option (α × List Char)} {dump : α → List Char}
  {close : Char} {l : List α}

/-- Texts that a reader takes back, none of which starts with a blank or a bracket that closes. -/
structure Reads (read : List Char → Option (α × List Char)) (dump : α → List Char) (close : Char)
    (a : α) : Prop where
  back : ∀ rest, Ends rest → read (dump a ++ rest) = some (a, rest)
  start : ∃ c more, dump a = c :: more ∧ blank c = false ∧ c ≠ close

theorem Reads.skip (h : Reads read dump close a) (rest : List Char) :
    skip (dump a ++ rest) = dump a ++ rest := by
  obtain ⟨c, more, heq, hc, _⟩ := h.start
  rw [heq, List.cons_append, skip_cons hc]

theorem readMore_space (n : Nat) (text : List Char) :
    readMore read close n (' ' :: text) = readMore read close n text := by
  cases n with
  | zero => rfl
  | succ n =>
    have hskip : JsonText.skip (' ' :: text) = JsonText.skip text := rfl
    rw [readMore, readMore, hskip]

theorem readMore_dump (hclose : blank close = false ∧ close ≠ ',' ∧ ∀ rest, Ends (close :: rest))
    (h : ∀ a ∈ l, Reads read dump close a) (hne : l ≠ []) (hn : l.length ≤ n) (rest : List Char) :
    readMore read close n (separated (l.map dump) ++ close :: rest) = some (l, rest) := by
  induction l generalizing n with
  | nil => exact absurd rfl hne
  | cons a l ih =>
    have ha := h a List.mem_cons_self
    obtain ⟨m, rfl⟩ := Nat.exists_eq_add_one_of_ne_zero (n := n) (by
      rintro rfl
      cases hn)
    cases l with
    | nil =>
      rw [List.map_singleton, separated_singleton, readMore, ha.skip, ha.back _ (hclose.2.2 rest)]
      simp [skip_cons hclose.1]
    | cons b l =>
      have hb := h b (List.mem_cons_of_mem _ List.mem_cons_self)
      have hends : Ends (',' :: ' ' :: (separated ((b :: l).map dump) ++ close :: rest)) := by
        intro c hc
        cases hc
        decide
      have hmore := ih (fun x hx => h x (List.mem_cons_of_mem _ hx)) (by simp)
        (Nat.le_of_succ_le_succ hn)
      have hcomma : skip (',' :: ' ' :: (separated ((b :: l).map dump) ++ close :: rest)) =
          ',' :: ' ' :: (separated ((b :: l).map dump) ++ close :: rest) := skip_cons (by decide) _
      rw [List.map_cons, List.map_cons, separated_cons, ← List.map_cons, List.append_assoc,
        List.cons_append, List.cons_append, readMore, ha.skip, ha.back _ hends]
      simp only [Option.bind_eq_bind, Option.bind_some, hcomma, if_neg (Ne.symm hclose.2.1), if_true,
        readMore_space, hmore]

theorem readAll_dump (hclose : blank close = false ∧ close ≠ ',' ∧ ∀ rest, Ends (close :: rest))
    (h : ∀ a ∈ l, Reads read dump close a) (rest : List Char) :
    readAll read close (separated (l.map dump) ++ close :: rest) = some (l, rest) := by
  have hparts : ∀ x ∈ l.map dump, x ≠ [] := by
    intro x hx
    obtain ⟨a, ha, rfl⟩ := List.mem_map.mp hx
    obtain ⟨c, more, heq, _⟩ := (h a ha).start
    rw [heq]
    exact List.cons_ne_nil c more
  have hlen := count_le_separated hparts
  cases l with
  | nil =>
    have hnil : separated (([] : List α).map dump) = [] := rfl
    rw [hnil, List.nil_append, readAll, skip_cons hclose.1]
    exact if_pos rfl
  | cons a l =>
    obtain ⟨c, more, heq, hblank, hc⟩ := (h a List.mem_cons_self).start
    have hstart : ∃ tail, separated ((a :: l).map dump) = c :: tail := by
      cases l with
      | nil => exact ⟨more, by rw [List.map_singleton, separated_singleton, heq]⟩
      | cons b l =>
        rw [List.map_cons, List.map_cons, separated_cons, heq]
        exact ⟨_, rfl⟩
    obtain ⟨tail, htail⟩ := hstart
    have hread := readMore_dump (n := (separated ((a :: l).map dump) ++ close :: rest).length) hclose h
      (List.cons_ne_nil a l)
      (by rw [List.length_map] at hlen; rw [List.length_append]; omega) rest
    rw [htail, List.cons_append] at hread ⊢
    rw [readAll, skip_cons hblank]
    exact (if_neg hc).trans hread

end Sequences

def dumpMember (m : String × Value) : List Char := dumpString m.1 ++ ':' :: ' ' :: dumps m.2

theorem dumpItems_eq (items : List Value) : dumpItems items = items.map dumps := by
  induction items with
  | nil => rfl
  | cons v items ih => rw [dumpItems, ih, List.map_cons]

theorem dumpMembers_eq (members : List (String × Value)) :
    dumpMembers members = members.map dumpMember := by
  induction members with
  | nil => rfl
  | cons m members ih => rw [dumpMembers, ih, List.map_cons, dumpMember]

/-- The first character of a text. -/
theorem dumps_cons (v : Value) :
    ∃ c more, dumps v = c :: more ∧ blank c = false ∧ c ≠ ']' := by
  cases v with
  | null => exact ⟨_, _, rfl, by decide⟩
  | bool b => cases b <;> exact ⟨_, _, rfl, by decide⟩
  | num n =>
    obtain ⟨c, more, heq, hc⟩ := dumpInt_cons n
    refine ⟨c, more, heq, ?_, ?_⟩
    · rcases hc with rfl | hc
      · decide
      · rw [← Bool.not_eq_true]
        intro hb
        simp only [blank, Bool.or_eq_true, beq_iff_eq] at hb
        rcases hb with ((rfl | rfl) | rfl) | rfl
        all_goals exact absurd hc (by decide)
    · rintro rfl
      rcases hc with hc | hc
      · exact absurd hc (by decide)
      · exact absurd hc (by decide)
  | str s => exact ⟨_, _, rfl, by decide⟩
  | arr items => exact ⟨_, _, rfl, by decide⟩
  | obj members => exact ⟨_, _, rfl, by decide⟩

theorem ends_bracket (rest : List Char) : Ends (']' :: rest) ∧ Ends ('}' :: rest) := by
  constructor
  all_goals
    intro c hc
    cases hc
    decide

theorem readValue_number (n : Nat) (k : Int) (h : Ends rest) :
    readValue (n + 1) (dumpInt k ++ rest) = some (.num k, rest) := by
  obtain ⟨c, more, heq, hc⟩ := dumpInt_cons k
  have hread := readNumber_dump k h
  rw [heq, List.cons_append] at hread ⊢
  have hother : c ≠ 'n' ∧ c ≠ 't' ∧ c ≠ 'f' ∧ c ≠ '"' ∧ c ≠ '[' ∧ c ≠ '{' := by
    refine ⟨?_, ?_, ?_, ?_, ?_, ?_⟩
    all_goals
      rintro rfl
      revert hc
      decide
  rw [readValue, hread, Option.map_some]
  all_goals
    intros
    simp_all

theorem readValue_dumps (n : Nat) (v : Value) (hn : (dumps v).length ≤ n) (h : Ends rest) :
    readValue n (dumps v ++ rest) = some (v, rest) := by
  induction n generalizing v rest with
  | zero =>
    obtain ⟨c, more, heq, _⟩ := dumps_cons v
    rw [heq] at hn
    cases hn
  | succ n ih =>
    cases v with
    | null => rfl
    | bool b => cases b <;> rfl
    | num k => exact readValue_number n k h
    | str s =>
      simp only [dumps, dumpString, List.cons_append, List.append_assoc, List.nil_append, readValue,
        readText_dump, Option.map_some]
    | arr items =>
      have hread : ∀ v ∈ items, Reads (readValue n) dumps ']' v := by
        intro v hv
        have hlen := length_le_separated (List.mem_map_of_mem (f := dumps) hv)
        simp only [dumps, dumpItems_eq, List.length_cons, List.length_append] at hn
        exact ⟨fun rest hrest => ih v (by omega) hrest, dumps_cons v⟩
      simp only [dumps, dumpItems_eq, List.cons_append, List.append_assoc, List.nil_append, readValue]
      rw [readAll_dump ⟨by decide, by decide, fun rest => (ends_bracket rest).1⟩ hread, Option.map_some]
    | obj members =>
      have hread : ∀ m ∈ members, Reads (readMember (readValue n)) dumpMember '}' m := by
        intro m hm
        have hlen := length_le_separated (List.mem_map_of_mem (f := dumpMember) hm)
        simp only [dumps, dumpMembers_eq, List.length_cons, List.length_append] at hn
        simp only [dumpMember, List.length_append, List.length_cons] at hlen
        refine ⟨fun rest hrest => ?_, ⟨_, _, rfl, by decide⟩⟩
        obtain ⟨c, more, heq, hc, _⟩ := dumps_cons m.2
        have hback := ih m.2 (by omega) hrest
        have hcolon : skip (':' :: ' ' :: (dumps m.2 ++ rest)) = ':' :: ' ' :: (dumps m.2 ++ rest) :=
          skip_cons (by decide) _
        have hspace : skip (' ' :: (dumps m.2 ++ rest)) = dumps m.2 ++ rest := by
          rw [heq]
          exact skip_cons hc _
        simp only [dumpMember, dumpString, List.cons_append, List.append_assoc, List.nil_append,
          readMember, readText_dump, Option.bind_eq_bind, Option.bind_some, hcolon, hspace, hback]
      simp only [dumps, dumpMembers_eq, List.cons_append, List.append_assoc, List.nil_append, readValue]
      rw [readAll_dump ⟨by decide, by decide, fun rest => (ends_bracket rest).2⟩ hread, Option.map_some]

/-- What is written is read back. -/
theorem loads_dumps (v : Value) : loads (dumps v) = some v := by
  obtain ⟨c, more, heq, hc, _⟩ := dumps_cons v
  have hskip : skip (dumps v) = dumps v := by rw [heq, skip_cons hc]
  have hread := @readValue_dumps [] _ v (Nat.le_refl _) (fun c hc => nomatch hc)
  rw [List.append_nil] at hread
  rw [loads, hskip, hread]
  rfl

/-- Of printable ASCII characters. -/
def Printable (l : List Char) : Prop := ∀ c ∈ l, 32 ≤ c.toNat ∧ c.toNat ≤ 126

theorem Printable.append (h : Printable l) (h' : Printable l') : Printable (l ++ l') := by
  intro c hc
  rcases List.mem_append.mp hc with hc | hc
  · exact h c hc
  · exact h' c hc

theorem digitChar_printable (h : d < 16) : 32 ≤ (Nat.digitChar d).toNat ∧ (Nat.digitChar d).toNat ≤ 126 := by
  revert d
  decide

theorem unit_printable (n : Nat) : Printable (unit n) := by
  have hdigit : ∀ m : Nat, 32 ≤ (Nat.digitChar (m % 16)).toNat ∧ (Nat.digitChar (m % 16)).toNat ≤ 126 :=
    fun m => digitChar_printable (Nat.mod_lt m (by decide))
  simp only [Printable, unit, hex4, List.forall_mem_cons]
  exact ⟨by decide, by decide, hdigit _, hdigit _, hdigit _, hdigit _, fun _ hx => nomatch hx⟩

theorem escape_printable (c : Char) : Printable (escape c) := by
  unfold escape
  split
  · rename_i letter hletter
    have hmem := mem_of_lookup hletter
    simp only [letters, List.mem_cons, Prod.mk.injEq, List.not_mem_nil, or_false] at hmem
    simp only [Printable, List.forall_mem_cons]
    refine ⟨by decide, ?_, fun _ hx => nomatch hx⟩
    rcases hmem with ⟨_, rfl⟩ | ⟨_, rfl⟩ | ⟨_, rfl⟩ | ⟨_, rfl⟩ | ⟨_, rfl⟩ | ⟨_, rfl⟩ | ⟨_, rfl⟩
    all_goals decide
  · split
    · rename_i hplain
      simpa [Printable] using hplain
    · split
      · exact unit_printable _
      · exact (unit_printable _).append (unit_printable _)

theorem dumpString_printable (s : String) : Printable (dumpString s) := by
  have hquote : Printable ['"'] := by simp [Printable]
  refine Printable.append hquote (Printable.append (fun c hc => ?_) hquote)
  obtain ⟨x, _, hx⟩ := List.mem_flatMap.mp hc
  exact escape_printable x c hx

theorem dumpInt_printable (n : Int) : Printable (dumpInt n) := by
  have hdigits : ∀ m : Nat, Printable (Nat.toDigits 10 m) := by
    intro m c hc
    have hdigit := Nat.isDigit_of_mem_toDigits (by decide) (by decide) hc
    simp only [Char.isDigit, Bool.and_eq_true, decide_eq_true_eq, ge_iff_le, UInt32.le_iff_toNat_le]
      at hdigit
    change 32 ≤ c.val.toNat ∧ c.val.toNat ≤ 126
    obtain ⟨hlow, hhigh⟩ := hdigit
    exact ⟨Nat.le_trans (by decide) hlow, Nat.le_trans hhigh (by decide)⟩
  unfold dumpInt
  split
  · exact Printable.append (l := ['-']) (by simp [Printable]) (hdigits _)
  · exact hdigits _

theorem separated_printable (h : ∀ x ∈ parts, Printable x) : Printable (separated parts) := by
  induction parts with
  | nil => exact fun _ hc => nomatch hc
  | cons x parts ih =>
    obtain ⟨hx, hparts⟩ := List.forall_mem_cons.mp h
    cases parts with
    | nil => simpa using hx
    | cons y parts =>
      rw [separated_cons]
      exact hx.append (Printable.append (l := [',', ' ']) (by simp [Printable]) (ih hparts))

theorem bracketed_printable (ho : 32 ≤ o.toNat ∧ o.toNat ≤ 126) (hc : 32 ≤ c.toNat ∧ c.toNat ≤ 126)
    (h : Printable l) : Printable (o :: (l ++ [c])) :=
  List.forall_mem_cons.mpr ⟨ho, h.append (List.forall_mem_singleton.mpr hc)⟩

mutual

theorem dumps_printable : ∀ v : Value, Printable (dumps v)
  | .null => by simp [dumps, Printable]
  | .bool true => by simp [dumps, Printable]
  | .bool false => by simp [dumps, Printable]
  | .num n => dumpInt_printable n
  | .str s => dumpString_printable s
  | .arr items => bracketed_printable (by decide) (by decide) (separated_printable (dumpItems_printable items))
  | .obj members =>
    bracketed_printable (by decide) (by decide) (separated_printable (dumpMembers_printable members))

theorem dumpItems_printable : ∀ items : List Value, ∀ x ∈ dumpItems items, Printable x
  | [] => fun _ hx => nomatch hx
  | v :: items => List.forall_mem_cons.mpr ⟨dumps_printable v, dumpItems_printable items⟩

theorem dumpMembers_printable : ∀ members : List (String × Value), ∀ x ∈ dumpMembers members, Printable x
  | [] => fun _ hx => nomatch hx
  | (name, v) :: members => List.forall_mem_cons.mpr
    ⟨(dumpString_printable name).append (Printable.append (l := [':', ' ']) (by simp [Printable])
      (dumps_printable v)), dumpMembers_printable members⟩

end

end FileDelivery.Library.JsonText
