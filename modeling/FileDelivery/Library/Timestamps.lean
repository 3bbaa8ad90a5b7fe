import Mathlib.Data.List.Basic
import Mathlib.Data.Nat.ModEq
import Mathlib.Tactic.Ring

namespace FileDelivery.Library.Timestamps

/-- The number that digits denote, the most significant one first. -/
def value (digits : List Nat) : Nat := digits.foldl (fun n d => 10 * n + d) 0

/-- The last `n` digits of `k`. -/
def pad : Nat → Nat → List Nat
  | 0, _ => []
  | n + 1, k => k / 10 ^ n % 10 :: pad n k

/-- The digits after a point, as a number of `n` digits: further ones are cut off. -/
def scaled (n : Nat) (digits : List Nat) : Nat := value ((digits ++ List.replicate n 0).take n)

/-- Without the zeros at the end. -/
def trim : List Nat → List Nat
  | [] => []
  | d :: ds => if trim ds = [] ∧ d = 0 then [] else d :: trim ds

@[simp] theorem length_pad : (pad n k).length = n := by
  induction n with
  | zero => rfl
  | succ n ih => simp [pad, ih]

theorem digit_of_pad (h : d ∈ pad n k) : d < 10 := by
  induction n with
  | zero => cases h
  | succ n ih =>
    rcases List.mem_cons.mp h with rfl | h
    · exact Nat.mod_lt _ (by decide)
    · exact ih h

theorem foldl_pad (n k a : Nat) :
    (pad n k).foldl (fun n d => 10 * n + d) a = a * 10 ^ n + k % 10 ^ n := by
  induction n generalizing a with
  | zero => simp [pad, Nat.mod_one]
  | succ n ih =>
    rw [pad, List.foldl_cons, ih, Nat.mod_pow_succ, Nat.pow_succ]
    ring

theorem value_pad (h : k < 10 ^ n) : value (pad n k) = k := by
  rw [value, foldl_pad, Nat.mod_eq_of_lt h]
  omega

theorem trim_append (ds : List Nat) : ∃ m, trim ds ++ List.replicate m 0 = ds := by
  induction ds with
  | nil => exact ⟨0, rfl⟩
  | cons d ds ih =>
    obtain ⟨m, hm⟩ := ih
    by_cases h : trim ds = [] ∧ d = 0
    · refine ⟨m + 1, ?_⟩
      rw [trim, if_pos h, List.replicate_succ, h.2]
      rw [h.1] at hm
      exact congrArg (0 :: ·) hm
    · refine ⟨m, ?_⟩
      rw [trim, if_neg h, List.cons_append, hm]

theorem digit_of_trim (h : d ∈ trim ds) : d ∈ ds := by
  obtain ⟨m, hm⟩ := trim_append ds
  exact hm ▸ List.mem_append_left _ h

/-- Zeros at the end of a fraction do not count. -/
theorem scaled_append (h : (digits ++ List.replicate m 0).length = n) :
    scaled n digits = value (digits ++ List.replicate m 0) := by
  obtain ⟨rest, hrest⟩ : ∃ rest, n = m + rest := Nat.exists_eq_add_of_le (by simp at h; omega)
  rw [scaled]
  congr 1
  have hall : digits ++ List.replicate n 0 =
      (digits ++ List.replicate m 0) ++ List.replicate rest 0 := by
    rw [hrest, List.append_assoc, List.replicate_append_replicate]
  rw [hall, ← h, List.take_left]

theorem scaled_trim (h : k < 10 ^ n) : scaled n (trim (pad n k)) = k := by
  obtain ⟨m, hm⟩ := trim_append (pad n k)
  rw [scaled_append (by rw [hm, length_pad]), hm, value_pad h]

theorem scaled_pad (h : k < 10 ^ n) : scaled (n + m) (pad n k) = k * 10 ^ m := by
  have hzeros : ∀ m a, (List.replicate m 0).foldl (fun n d => 10 * n + d) a = a * 10 ^ m := by
    intro m
    induction m with
    | zero => simp
    | succ m ih =>
      intro a
      rw [List.replicate_succ, List.foldl_cons, ih, Nat.pow_succ]
      ring
  rw [scaled_append (by rw [List.length_append, length_pad, List.length_replicate]), value,
    List.foldl_append, hzeros, ← value, value_pad h]

def digitVal (c : Char) : Option Nat := if c.isDigit then some (c.toNat - 48) else none

/-- Exactly `n` digits. -/
def digits : Nat → List Char → Option (List Nat × List Char)
  | 0, cs => some ([], cs)
  | _ + 1, [] => none
  | n + 1, c :: cs => (digitVal c).bind (fun d => (digits n cs).map (fun r => (d :: r.1, r.2)))

def number (n : Nat) (cs : List Char) : Option (Nat × List Char) :=
  (digits n cs).map (fun r => (value r.1, r.2))

/-- As many digits as there are. -/
def digitRun : List Char → List Nat × List Char
  | [] => ([], [])
  | c :: cs =>
    match digitVal c with
    | some d => (d :: (digitRun cs).1, (digitRun cs).2)
    | none => ([], c :: cs)

/-- A point with at least one digit, or nothing. -/
def fraction : List Char → Option (List Nat × List Char)
  | '.' :: cs => if (digitRun cs).1 = [] then none else some (digitRun cs)
  | cs => some ([], cs)

/-- `n` digits and a separator. -/
def field (n : Nat) (sep : Char) (cs : List Char) : Option (Nat × List Char) :=
  (number n cs).bind (fun r => if r.2.head? = some sep then some (r.1, r.2.tail) else none)

theorem digitVal_digitChar (h : d < 10) : digitVal (Nat.digitChar d) = some d := by
  have hall : ∀ d < 10, digitVal (Nat.digitChar d) = some d := by decide
  exact hall d h

theorem digits_written (h : ∀ d ∈ ds, d < 10) (rest : List Char) :
    digits ds.length (ds.map Nat.digitChar ++ rest) = some (ds, rest) := by
  induction ds with
  | nil => rfl
  | cons d ds ih =>
    rw [List.length_cons, List.map_cons, List.cons_append, digits,
      digitVal_digitChar (h d List.mem_cons_self), Option.bind_some,
      ih (fun e he => h e (List.mem_cons_of_mem _ he)), Option.map_some]

theorem digitRun_written (h : ∀ d ∈ ds, d < 10) (hc : digitVal c = none) (rest : List Char) :
    digitRun (ds.map Nat.digitChar ++ c :: rest) = (ds, c :: rest) := by
  induction ds with
  | nil => simp [digitRun, hc]
  | cons d ds ih =>
    rw [List.map_cons, List.cons_append, digitRun, digitVal_digitChar (h d List.mem_cons_self),
      ih (fun e he => h e (List.mem_cons_of_mem _ he))]

def written (n k : Nat) : List Char := (pad n k).map Nat.digitChar

theorem number_written (h : k < 10 ^ n) (rest : List Char) :
    number n (written n k ++ rest) = some (k, rest) := by
  have hread : digits (pad n k).length ((pad n k).map Nat.digitChar ++ rest) = some (pad n k, rest) :=
    digits_written (fun _ hd => digit_of_pad hd) rest
  rw [length_pad] at hread
  rw [number, written, hread, Option.map_some, value_pad h]

theorem field_written (h : k < 10 ^ n) (rest : List Char) :
    field n sep (written n k ++ sep :: rest) = some (k, rest) := by
  rw [field, number_written h, Option.bind_some, List.head?_cons, if_pos rfl, List.tail_cons]

/-- A fraction as it is written: without a point if it has no digits. -/
def writtenFraction (ds : List Nat) : List Char :=
  if ds = [] then [] else '.' :: ds.map Nat.digitChar

theorem fraction_written (h : ∀ d ∈ ds, d < 10) (rest : List Char) :
    fraction (writtenFraction ds ++ 'Z' :: rest) = some (ds, 'Z' :: rest) := by
  by_cases hds : ds = []
  · rw [writtenFraction, if_pos hds, hds]
    rfl
  · rw [writtenFraction, if_neg hds, List.cons_append, fraction, digitRun_written h (by decide),
      if_neg hds]

def daysIn (year month : Nat) : Nat :=
  if month = 2 then if year % 4 = 0 ∧ (year % 100 ≠ 0 ∨ year % 400 = 0) then 29 else 28
  else if month ∈ [4, 6, 9, 11] then 30 else 31

/-- A date and a time of day. -/
structure Reading where
  year : Nat
  month : Nat
  day : Nat
  hour : Nat
  minute : Nat
  second : Nat
  nanosecond : Nat
  deriving DecidableEq, Repr

/-- Years from 1 to 9999. -/
structure Reading.Valid (r : Reading) : Prop where
  year : 1 ≤ r.year ∧ r.year < 10000
  month : 1 ≤ r.month ∧ r.month ≤ 12
  day : 1 ≤ r.day ∧ r.day ≤ daysIn r.year r.month
  hour : r.hour < 24
  minute : r.minute < 60
  second : r.second < 60
  nanosecond : r.nanosecond < 10 ^ 9

instance (r : Reading) : Decidable r.Valid :=
  decidable_of_iff ((1 ≤ r.year ∧ r.year < 10000) ∧ (1 ≤ r.month ∧ r.month ≤ 12) ∧
      (1 ≤ r.day ∧ r.day ≤ daysIn r.year r.month) ∧ r.hour < 24 ∧ r.minute < 60 ∧ r.second < 60 ∧
      r.nanosecond < 10 ^ 9)
    ⟨fun ⟨a, b, c, d, e, f, g⟩ => ⟨a, b, c, d, e, f, g⟩,
      fun ⟨a, b, c, d, e, f, g⟩ => ⟨a, b, c, d, e, f, g⟩⟩

/-- A moment in UTC, to the nanosecond. -/
abbrev Moment := { r : Reading // r.Valid }

/-- An RFC 3339 timestamp in UTC, with these digits after the point. -/
def write (m : Moment) (fractionDigits : List Nat) : List Char :=
  written 4 m.val.year ++ '-' :: (written 2 m.val.month ++ '-' :: (written 2 m.val.day ++
    'T' :: (written 2 m.val.hour ++ ':' :: (written 2 m.val.minute ++ ':' ::
      (written 2 m.val.second ++ (writtenFraction fractionDigits ++ ['Z']))))))

/-- The reading of a timestamp in UTC; digits after the ninth are cut off. -/
def reading (cs : List Char) : Option Reading :=
  (field 4 '-' cs).bind (fun (year, cs) =>
    (field 2 '-' cs).bind (fun (month, cs) =>
      (field 2 'T' cs).bind (fun (day, cs) =>
        (field 2 ':' cs).bind (fun (hour, cs) =>
          (field 2 ':' cs).bind (fun (minute, cs) =>
            (number 2 cs).bind (fun (second, cs) =>
              (fraction cs).bind (fun (ds, cs) =>
                if cs = ['Z'] then some ⟨year, month, day, hour, minute, second, scaled 9 ds⟩
                else none)))))))

def parse (cs : List Char) : Option Moment :=
  (reading cs).bind (fun r => if h : r.Valid then some ⟨r, h⟩ else none)

theorem daysIn_le (year month : Nat) : daysIn year month ≤ 31 := by
  unfold daysIn
  split <;> split <;> omega

/-- What is written is read back. -/
theorem parse_write (m : Moment) (hd : ∀ d ∈ ds, d < 10) (hs : scaled 9 ds = m.val.nanosecond) :
    parse (write m ds) = some m := by
  obtain ⟨r, hr⟩ := m
  have hday := Nat.le_trans hr.day.2 (daysIn_le r.year r.month)
  have hyear : r.year < 10 ^ 4 := hr.year.2
  have hmonth : r.month < 10 ^ 2 := Nat.lt_of_le_of_lt hr.month.2 (by decide)
  have hday : r.day < 10 ^ 2 := Nat.lt_of_le_of_lt hday (by decide)
  have hhour : r.hour < 10 ^ 2 := Nat.lt_trans hr.hour (by decide)
  have hminute : r.minute < 10 ^ 2 := Nat.lt_trans hr.minute (by decide)
  have hsecond : r.second < 10 ^ 2 := Nat.lt_trans hr.second (by decide)
  have hread : reading (write ⟨r, hr⟩ ds) = some r := by
    simp only [reading, write, field_written hyear, field_written hmonth, field_written hday,
      field_written hhour, field_written hminute, number_written hsecond, fraction_written hd, hs,
      Option.bind_some, if_true]
  rw [parse, hread, Option.bind_some, dif_pos hr]

end FileDelivery.Library.Timestamps
