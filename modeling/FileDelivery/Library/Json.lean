import Mathlib.Logic.Basic

namespace FileDelivery.Library.Json

/-- What a JSON text denotes. Its numbers are integers. -/
inductive Value where
  | null
  | bool (b : Bool)
  | num (n : Int)
  | str (s : String)
  | arr (items : List Value)
  | obj (members : List (String × Value))
  deriving Repr

/-- A member that is left out when there is no value. -/
def optional (name : String) (value : Option Value) : List (String × Value) :=
  (value.map (name, ·)).toList

def readString : Value → Option String
  | .str s => some s
  | _ => none

def readInt : Value → Option Int
  | .num n => some n
  | _ => none

def readList (read : Value → Option α) : Value → Option (List α)
  | .arr items => items.mapM read
  | _ => none

@[simp] theorem optional_none : optional name none = [] := rfl

@[simp] theorem optional_some (value : Value) : optional name (some value) = [(name, value)] := rfl

/-- What is read item by item. -/
theorem readList_map {read : Value → Option α} {write : β → Value} {f : β → α} {l : List β}
    (h : ∀ x ∈ l, read (write x) = some (f x)) :
    readList read (.arr (l.map write)) = some (l.map f) := by
  rw [readList]
  induction l with
  | nil => rfl
  | cons x l ih =>
    rw [List.map_cons, List.mapM_cons, h x List.mem_cons_self,
      ih (fun y hy => h y (List.mem_cons_of_mem _ hy))]
    rfl

section Structs
variable {σ α : Type}

/-- A field of a struct: its name, and what a value does to the struct. -/
structure StructField (σ : Type) where
  name : String
  set : Value → σ → Option σ

/-- `null` leaves a field as it is. -/
def field (name : String) (read : Value → Option α) (put : α → σ → σ) : StructField σ where
  name := name
  set v s :=
    match v with
    | .null => some s
    | v => (read v).map (put · s)

/-- Two letters outside ASCII have an ASCII letter as their other case. -/
def foldChar (c : Char) : Char :=
  if c.toNat = 0x17f then 's' else if c.toNat = 0x212a then 'k' else c.toLower

def foldName (name : String) : List Char := name.toList.map foldChar

/-- The field of that name, or else one whose name differs in case only. -/
def fieldFor (fields : List (StructField σ)) (name : String) : Option (StructField σ) :=
  (fields.find? (fun f => f.name == name)).or
    (fields.find? (fun f => foldName f.name == foldName name))

/-- Members in their order; the names of no field are skipped. -/
def setMembers (fields : List (StructField σ)) : List (String × Value) → σ → Option σ
  | [], s => some s
  | (name, v) :: members, s =>
    match fieldFor fields name with
    | some f => (f.set v s).bind (setMembers fields members)
    | none => setMembers fields members s

/-- Into a struct of zero values. -/
def readStruct (fields : List (StructField σ)) (zero : σ) : Value → Option σ
  | .obj members => setMembers fields members zero
  | .null => some zero
  | _ => none

end Structs

section Schemas
variable {α : Type}

/-- Of two members of one name the later counts. -/
def member (name : String) : List (String × Value) → Option Value
  | [] => none
  | (n, v) :: members => (member name members).or (if n = name then some v else none)

/-- There are members of these names only. -/
def onlyNames (names : List String) (members : List (String × Value)) : Bool :=
  members.all (fun m => names.contains m.1)

def required (name : String) (read : Value → Option α) (members : List (String × Value)) : Option α :=
  (member name members).bind read

def defaulted (name : String) (read : Value → Option α) (default : α)
    (members : List (String × Value)) : Option α :=
  match member name members with
  | none => some default
  | some v => read v

/-- A type with `None`. -/
def nullable (read : Value → Option α) : Value → Option (Option α)
  | .null => some none
  | v => (read v).map some

end Schemas
end FileDelivery.Library.Json
