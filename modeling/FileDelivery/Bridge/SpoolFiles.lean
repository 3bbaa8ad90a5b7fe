import FileDelivery.Bridge.FileSpool
import FileDelivery.Library.Files

namespace FileDelivery.Bridge.SpoolFiles
open FileDelivery.Library.Files FileDelivery.Control

/-- How a message gets into its file: `FileSpoolDeliveryPublisher.publish` writes
another one and renames it, `FileSpool.Produce` writes the file itself. -/
inductive Mode where
  | publish | produce
  deriving DecidableEq, Repr

/-- The file that is opened for writing. -/
def Mode.path (mode : Mode) (file : Text) : Text :=
  match mode with
  | .publish => file ++ ".tmp".toList
  | .produce => file

/-- A writer between its open and its end. -/
structure Writer where
  file : Text
  data : Bytes
  inode : Nat
  written : Nat
  deriving DecidableEq, Repr

/-- A file that a reader has open, and what it has read of it. -/
structure Opened where
  name : Text
  inode : Nat
  seen : Bytes
  deriving DecidableEq, Repr

structure Reader where
  /-- The files of the scan that are still to be opened. -/
  names : List Text
  current : Option Opened
  deriving DecidableEq, Repr

structure State where
  fs : Disk Text UInt8
  writers : Nat → Option Writer
  readers : Nat → Option Reader
  /-- The encodings of the messages whose writers have begun. -/
  produced : List Bytes
  /-- The inodes whose last writer has not come to its end. -/
  unfinished : Nat → Bool
  /-- What the readers decoded, each with its file. -/
  decoded : List (Text × Bytes)

inductive Action where
  | create (w : Nat) (task_id : Text) (data : Bytes)
  | write (w n : Nat)
  | finish (w : Nat)
  /-- The writer dies, or its write fails. -/
  | crash (w : Nat)
  | scan (r : Nat) (names : List Text)
  | openFile (r : Nat)
  | read (r n : Nat)
  /-- The scan ends: it is through, a decode failed or the reader died. -/
  | stop (r : Nat)
  deriving DecidableEq, Repr

def initial : State := ⟨.empty, fun _ => none, fun _ => none, [], fun _ => false, []⟩

def isJson (name : Text) : Bool := ".json".toList.isSuffixOf name

/-- What the last step of a writer does to the directory; `rename` fails without its file. -/
def Mode.close (mode : Mode) (fs : Disk Text UInt8) (file : Text) : Disk Text UInt8 :=
  match mode with
  | .publish => if (fs.dir (Mode.path .publish file)).isSome then fs.rename (Mode.path .publish file) file else fs
  | .produce => fs

def step (mode : Mode) (s : State) : Action → Option State
  | .create w task_id data =>
    match s.writers w with
    | none =>
      let file := FileSpool.messageFile task_id
      let inode := s.fs.target (mode.path file)
      some { s with
        fs := s.fs.truncate (mode.path file)
        writers := Function.update s.writers w (some ⟨file, data, inode, 0⟩)
        produced := s.produced ++ [data]
        unfinished := Function.update s.unfinished inode true }
    | some _ => none
  | .write w n =>
    match s.writers w with
    | some k =>
      if 0 < n ∧ k.written + n ≤ k.data.length then
        some { s with
          fs := s.fs.write 0 k.inode k.written ((k.data.drop k.written).take n)
          writers := Function.update s.writers w (some { k with written := k.written + n }) }
      else none
    | none => none
  | .finish w =>
    match s.writers w with
    | some k =>
      if k.written = k.data.length then
        some { s with
          fs := mode.close s.fs k.file
          writers := Function.update s.writers w none
          unfinished := Function.update s.unfinished k.inode false }
      else none
    | none => none
  | .crash w => (s.writers w).map (fun _ => { s with writers := Function.update s.writers w none })
  | .scan r names =>
    match s.readers r with
    | none =>
      -- Files that come or go meanwhile may be among the names or not.
      if ∀ name ∈ names, isJson name ∧ (s.fs.dir name).isSome then
        some { s with readers := Function.update s.readers r (some ⟨names, none⟩) }
      else none
    | some _ => none
  | .openFile r =>
    match s.readers r with
    | some ⟨name :: names, none⟩ => (s.fs.dir name).map (fun inode =>
        { s with readers := Function.update s.readers r (some ⟨names, some ⟨name, inode, []⟩⟩) })
    | _ => none
  | .read r n =>
    match s.readers r with
    | some ⟨names, some file⟩ =>
      if 0 < n then
        match s.fs.read file.inode file.seen.length n with
        | [] => some { s with
            readers := Function.update s.readers r (some ⟨names, none⟩)
            decoded := s.decoded ++ [(file.name, file.seen)] }
        | chunk => some { s with
            readers := Function.update s.readers r
              (some ⟨names, some { file with seen := file.seen ++ chunk }⟩) }
      else none
    | _ => none
  | .stop r => (s.readers r).map (fun _ => { s with readers := Function.update s.readers r none })

/-- Whatever is decoded is the whole encoding of a message. -/
def NothingTorn (s : State) : Prop := ∀ d ∈ s.decoded, d.2 ∈ s.produced

/-- No two writers of one task overlap. Whoever writes a file itself opens it only
while no reader has it open, and a reader opens it only once its last writer has
come to the end. -/
def Exclusive (mode : Mode) (s : State) : Action → Prop
  | .create _ task_id _ =>
    (∀ v k, s.writers v = some k → k.file ≠ FileSpool.messageFile task_id) ∧
      (mode = .produce → ∀ r k o, s.readers r = some k → k.current = some o →
        s.fs.dir (FileSpool.messageFile task_id) ≠ some o.inode)
  | .openFile r => mode = .produce → ∀ k name i, s.readers r = some k →
      k.names.head? = some name → s.fs.dir name = some i → s.unfinished i = false
  | _ => True

end FileDelivery.Bridge.SpoolFiles
