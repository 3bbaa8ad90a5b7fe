import FileDelivery.Bridge.Replay
import FileDelivery.Library.Memo

namespace FileDelivery.Bridge.ArchiveCache
open FileDelivery.Library FileDelivery.Library.Runs FileDelivery.Control
open FileDelivery.Worker.Source

/-- A `Resolve` call for an item of a message, whose source is not nil. -/
structure Lookup where
  mid : Nat
  source : Worker.SourceRef
  item : Worker.DeliveryItem
  deriving DecidableEq, Repr

abbrev Table := Memo.Table Lookup Text String Archive

/-- One `ZipArchiveResolver` beside the rest of the system. -/
structure Resolving where
  base : State
  table : Table
  /-- The calls that have returned. -/
  ended : List (Lookup × Except String Bytes)

inductive Action where
  | base (action : Bridge.Action)
  /-- A goroutine calls `Resolve` with a message that it has received. -/
  | resolve (mid : Nat) (item : Worker.DeliveryItem)
  /-- `getArchive` up to its look into the cache. -/
  | look (i : Nat)
  /-- `GetObject`, which may fail for a reason of its own. -/
  | fetch (i : Nat) (fault : Option String)
  | keep (i : Nat)
  /-- The rest of `Resolve`; opening or reading the archive may fail. -/
  | finish (i : Nat) (fault : Option String)

def start : Resolving := ⟨initial, Memo.empty, []⟩

def Lookup.key (call : Lookup) : Text := cacheKey call.source

/-- What `GetObject` returns at this moment. -/
def getObject (staging : Objects Archive) (source : Worker.SourceRef) : Option String → Except String Archive
  | some e => .error e
  | none =>
    match staging (source.bucket, source.key) with
    | some archive => .ok archive
    | none => .error ("get source object " ++ quote source.bucket ++ "/" ++ quote source.key ++
        ": NoSuchKey")

/-- What `Resolve` returns, with the archive or the error of `getArchive`. -/
def returned (call : Lookup) (fault : Option String) : Memo.Phase String Archive → Option (Except String Bytes)
  | .found archive => some (match fault with
    | some e => .error e
    | none => openEntry call.source call.item archive)
  | .failed e => some (.error e)
  | _ => none

def Resolving.table_step (s : Resolving) (action : Memo.Action Lookup String Archive) : Option Resolving :=
  (Memo.step Lookup.key s.table action).map (fun table => { s with table := table })

/-- A call without a source returns an error at once, and has no step of its own. -/
def step (cfg : Config) (s : Resolving) : Action → Option Resolving
  | .base action => (Bridge.step cfg s.base action).map (fun base => { s with base := base })
  | .resolve mid item =>
    (s.base.messages[mid]?).bind (fun m => (toWorker m).source.bind (fun source =>
      s.table_step (.call ⟨mid, source, item⟩)))
  | .look i => s.table_step (.look i)
  | .fetch i fault =>
    s.table.calls[i]?.bind (fun call =>
      s.table_step (.fetch i (getObject s.base.staging call.1.source fault)))
  | .keep i => s.table_step (.keep i)
  | .finish i fault =>
    s.table.calls[i]?.bind (fun call => (returned call.1 fault call.2).bind (fun result =>
      (s.table_step (.leave i)).map (fun s => { s with ended := s.ended ++ [(call.1, result)] })))

end FileDelivery.Bridge.ArchiveCache
