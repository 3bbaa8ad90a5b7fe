namespace FileDelivery.Control

/-- Paths, names and keys are taken apart character by character; identifiers
and labels that are only compared stay opaque strings. -/
abbrev Text := List Char

instance : Coe String Text := ⟨String.toList⟩

abbrev Bytes := List UInt8

/-- `str.isspace` of one character. -/
def isSpace (c : Char) : Bool :=
  let n := c.toNat
  (9 ≤ n && n ≤ 13) || (28 ≤ n && n ≤ 32) || n == 0x85 || n == 0xa0 || n == 0x1680 ||
    (0x2000 ≤ n && n ≤ 0x200a) || n == 0x2028 || n == 0x2029 || n == 0x202f || n == 0x205f ||
    n == 0x3000

/-- `str.strip()`. -/
def strip (t : Text) : Text := ((t.dropWhile isSpace).reverse.dropWhile isSpace).reverse

/-- `s[:n]`. -/
def truncate (n : Nat) (s : String) : String := String.ofList (s.toList.take n)

namespace PurePosixPath

/-- Two leading slashes are a root of their own; three or more are one. -/
def root (path : Text) : Text :=
  match path with
  | '/' :: '/' :: '/' :: _ => ['/']
  | '/' :: '/' :: _ => ['/', '/']
  | '/' :: _ => ['/']
  | _ => []

/-- The components below the root: empty and `.` segments vanish, `..` stays. -/
def tail (path : Text) : List Text :=
  (path.splitOn '/').filter (fun part => part ≠ [] ∧ part ≠ ['.'])

def parts (path : Text) : List Text :=
  if root path = [] then tail path else root path :: tail path

def name (path : Text) : Text := (tail path).getLast?.getD []

/-- Position of the dot that starts the suffix: neither first nor last. -/
def dot (name : Text) : Option Nat :=
  match name.reverse.findIdx? (· == '.') with
  | none => none
  | some i => if 0 < i ∧ i + 1 < name.length then some (name.length - 1 - i) else none

def suffix (path : Text) : Text :=
  match dot (name path) with
  | none => []
  | some i => (name path).drop i

def stem (path : Text) : Text :=
  match dot (name path) with
  | none => name path
  | some i => (name path).take i

/-- `str(path.parent)`. -/
def parent (path : Text) : Text :=
  let above := (tail path).dropLast
  if root path = [] ∧ above = [] then ['.'] else root path ++ ['/'].intercalate above

example : name "reports/./a/q1.tar.gz" = ("q1.tar.gz" : Text) := by decide
example : suffix "reports/q1.tar.gz" = (".gz" : Text) := by decide
example : stem ".bashrc" = (".bashrc" : Text) := by decide
example : parent "reports//monthly/q1.xlsx" = ("reports/monthly" : Text) := by decide

end PurePosixPath
end FileDelivery.Control
