import FileDelivery.Control.Text

namespace FileDelivery.Worker
open FileDelivery.Control

/-- The fields of an item that the worker reads; the others pass through its logs. -/
structure DeliveryItem where
  itemId : Text
  srcPath : Text
  sourcePath : Text
  dstPath : Text
  severity : String
  uploadStatus : String
  deriving DecidableEq, Repr

structure SourceRef where
  type : String
  bucket : Text
  key : Text
  deriving DecidableEq, Repr

/-- Absent JSON fields decode to the zero value of their type. -/
structure DeliveryTask where
  schemaVersion : Int
  taskId : Text
  tempDir : Text
  items : List DeliveryItem
  source : Option SourceRef
  deriving DecidableEq, Repr

structure DeliveryResultItem where
  itemId : Text
  status : String
  key : Text
  size : Nat
  sha256 : String
  error : String
  deriving DecidableEq, Repr

structure DeliveryResult where
  topic : String
  taskId : Text
  status : String
  uploaded : Nat
  failed : Nat
  processed : Nat
  items : List DeliveryResultItem
  startedAt : Nat
  endedAt : Nat
  error : String
  deriving DecidableEq, Repr

/-- The error text of the first rule that a decoded message breaks. -/
def validateTaskMessage (task : DeliveryTask) : Option String :=
  if task.taskId = [] then some "task_id is required"
  else if task.schemaVersion = 0 then some "schema_version is required"
  else if task.schemaVersion ≥ 2 then
    match task.source with
    | none => some ("source is required for schema_version=" ++ toString task.schemaVersion)
    | some source =>
      if source.type ≠ "object" ∨ source.bucket = [] ∨ source.key = [] then
        some ("valid object source is required for schema_version=" ++
          toString task.schemaVersion)
      else none
  else none

end FileDelivery.Worker
