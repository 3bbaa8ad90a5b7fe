import FileDelivery.Library.Json
import FileDelivery.Library.Timestamps
import FileDelivery.Worker.Message

namespace FileDelivery.Worker.Schema
open FileDelivery.Library FileDelivery.Library.Json FileDelivery.Control

/-- An item with all the fields that are decoded. -/
structure DeliveryItem where
  itemId : String
  srcPath : String
  sourcePath : String
  filename : String
  ext : String
  fileSize : Int
  dstPath : String
  severity : String
  targetNameRaw : String
  targetNameMatched : String
  documentType : String
  categoryName : String
  uploadStatus : String
  deriving DecidableEq, Repr

structure SourceRef where
  type : String
  bucket : String
  key : String
  sha256 : String
  size : Int
  deriving DecidableEq, Repr

structure DeliveryTask where
  schemaVersion : Int
  topic : String
  taskId : String
  idempotencyKey : String
  submissionLabel : String
  tempDir : String
  bucketName : String
  createdAt : Timestamps.Moment
  items : List DeliveryItem
  source : Option SourceRef
  traceparent : String
  metadata : List (String × Value)

/-- `int` and `int64`. -/
def readInt64 : Value → Option Int
  | .num n => if -2 ^ 63 ≤ n ∧ n < 2 ^ 63 then some n else none
  | _ => none

def readTime : Value → Option Timestamps.Moment
  | .str s => Timestamps.parse s.toList
  | _ => none

/-- `map[string]any`. -/
def readMap : Value → Option (List (String × Value))
  | .obj members => some members
  | _ => none

/-- 1 January of the year 1. -/
def zeroTime : Timestamps.Moment := ⟨⟨1, 1, 1, 0, 0, 0, 0⟩, by decide⟩

def itemFields : List (StructField DeliveryItem) :=
  [field "item_id" readString (fun x s => { s with itemId := x }),
    field "src_path" readString (fun x s => { s with srcPath := x }),
    field "source_path" readString (fun x s => { s with sourcePath := x }),
    field "filename" readString (fun x s => { s with filename := x }),
    field "ext" readString (fun x s => { s with ext := x }),
    field "file_size" readInt64 (fun x s => { s with fileSize := x }),
    field "dst_path" readString (fun x s => { s with dstPath := x }),
    field "severity" readString (fun x s => { s with severity := x }),
    field "target_name_raw" readString (fun x s => { s with targetNameRaw := x }),
    field "target_name_matched" readString (fun x s => { s with targetNameMatched := x }),
    field "document_type" readString (fun x s => { s with documentType := x }),
    field "category_name" readString (fun x s => { s with categoryName := x }),
    field "upload_status" readString (fun x s => { s with uploadStatus := x })]

def readItem : Value → Option DeliveryItem :=
  readStruct itemFields ⟨"", "", "", "", "", 0, "", "", "", "", "", "", ""⟩

def sourceFields : List (StructField SourceRef) :=
  [field "type" readString (fun x s => { s with type := x }),
    field "bucket" readString (fun x s => { s with bucket := x }),
    field "key" readString (fun x s => { s with key := x }),
    field "sha256" readString (fun x s => { s with sha256 := x }),
    field "size" readInt64 (fun x s => { s with size := x })]

def readSource : Value → Option SourceRef := readStruct sourceFields ⟨"", "", "", "", 0⟩

def taskFields : List (StructField DeliveryTask) :=
  [field "schema_version" readInt64 (fun x s => { s with schemaVersion := x }),
    field "topic" readString (fun x s => { s with topic := x }),
    field "task_id" readString (fun x s => { s with taskId := x }),
    field "idempotency_key" readString (fun x s => { s with idempotencyKey := x }),
    field "submission_label" readString (fun x s => { s with submissionLabel := x }),
    field "temp_dir" readString (fun x s => { s with tempDir := x }),
    field "bucket_name" readString (fun x s => { s with bucketName := x }),
    field "created_at" readTime (fun x s => { s with createdAt := x }),
    field "items" (readList readItem) (fun x s => { s with items := x }),
    field "source" readSource (fun x s => { s with source := some x }),
    field "traceparent" readString (fun x s => { s with traceparent := x }),
    field "metadata" readMap (fun x s => { s with metadata := x })]

/-- `json.Unmarshal` into a `DeliveryTask`. Of two objects under one name it would merge the members;
no such message is ever published. -/
def readTask : Value → Option DeliveryTask :=
  readStruct taskFields ⟨0, "", "", "", "", "", "", zeroTime, [], none, "", []⟩

/-- What the worker reads of an item. -/
def DeliveryItem.read (item : DeliveryItem) : Worker.DeliveryItem where
  itemId := item.itemId.toList
  srcPath := item.srcPath.toList
  sourcePath := item.sourcePath.toList
  dstPath := item.dstPath.toList
  severity := item.severity
  uploadStatus := item.uploadStatus

def SourceRef.read (source : SourceRef) : Worker.SourceRef where
  type := source.type
  bucket := source.bucket.toList
  key := source.key.toList

def DeliveryTask.read (task : DeliveryTask) : Worker.DeliveryTask where
  schemaVersion := task.schemaVersion
  taskId := task.taskId.toList
  tempDir := task.tempDir.toList
  items := task.items.map DeliveryItem.read
  source := task.source.map SourceRef.read

/-- With `omitempty`. -/
def omitEmpty (text : String) : Option Value := if text = "" then none else some (.str text)

/-- `time.Time.MarshalJSON`: no zeros at the end of the fraction. -/
def timeText (m : Timestamps.Moment) : String :=
  String.ofList (Timestamps.write m (Timestamps.trim (Timestamps.pad 9 m.val.nanosecond)))

def resultItemJson (item : DeliveryResultItem) : Value :=
  .obj ([("item_id", .str (String.ofList item.itemId)), ("status", .str item.status)] ++
    optional "key" (omitEmpty (String.ofList item.key)) ++
    optional "size" (if item.size = 0 then none else some (.num item.size)) ++
    optional "sha256" (omitEmpty item.sha256) ++
    optional "error" (omitEmpty item.error))

/-- `json.Marshal` of a result; `utc` reads the clock. -/
def resultJson (utc : Nat → Timestamps.Moment) (result : DeliveryResult) : Value :=
  .obj ([("topic", .str result.topic), ("task_id", .str (String.ofList result.taskId)),
      ("status", .str result.status), ("uploaded", .num result.uploaded),
      ("failed", .num result.failed), ("processed", .num result.processed)] ++
    optional "items" (if result.items = [] then none
      else some (.arr (result.items.map resultItemJson))) ++
    [("started_at", .str (timeText (utc result.startedAt))),
      ("ended_at", .str (timeText (utc result.endedAt)))] ++
    optional "error" (omitEmpty result.error))

end FileDelivery.Worker.Schema
