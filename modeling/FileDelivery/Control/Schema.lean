import FileDelivery.Control.Messages
import FileDelivery.Control.Staging
import FileDelivery.Library.Json
import FileDelivery.Library.Timestamps

namespace FileDelivery.Control.Schema
open FileDelivery.Library FileDelivery.Library.Json

/-- A `datetime` in UTC: it has microseconds. -/
abbrev Datetime := { m : Timestamps.Moment // m.val.nanosecond % 1000 = 0 }

/-- How the clock's values read. -/
structure Calendar where
  datetime : Time → Datetime
  isoformat : Time → String

def text (t : Text) : Value := .str (String.ofList t)

/-- Six digits after the point, or none. -/
def timeText (d : Datetime) : String :=
  let microsecond := d.val.val.nanosecond / 1000
  String.ofList (Timestamps.write d.val (if microsecond = 0 then [] else Timestamps.pad 6 microsecond))

/-- `model_dump_json` with `exclude_none`, as the other models below. -/
def itemJson (spec : DeliveryItemSpec) : Value :=
  .obj ([("item_id", text (idText spec.item_id)), ("src_path", text spec.src_path),
      ("filename", text spec.filename), ("ext", text spec.ext), ("file_size", .num spec.file_size),
      ("dst_path", text spec.dst_path), ("severity", .str spec.severity.text),
      ("target_name_raw", text spec.target_name_raw)] ++
    optional "target_name_matched" (spec.target_name_matched.map text) ++
    [("document_type", text spec.document_type), ("category_name", text spec.category_name),
      ("upload_status", .str spec.upload_status.text)] ++
    optional "source_path" (spec.source_path.map text))

def sourceJson (source : SourceRef) : Value :=
  .obj ([("type", .str source.type), ("bucket", text source.bucket), ("key", text source.key)] ++
    optional "sha256" (source.sha256.map .str) ++
    optional "size" (source.size.map (fun (n : Nat) => .num n)))

def metadataJson (calendar : Calendar) (metadata : TaskMetadata) : List (String × Value) :=
  [("status", .str metadata.status.text), ("created_by", .str metadata.created_by),
    ("created_at", .str (calendar.isoformat metadata.created_at))] ++
    optional "confirmed_at" (metadata.confirmed_at.map (fun t => .str (calendar.isoformat t)))

def messageJson (calendar : Calendar) (message : DeliveryTaskMessage) : Value :=
  .obj ([("schema_version", .num message.schema_version), ("topic", .str message.topic),
      ("task_id", text (idText message.task_id)), ("idempotency_key", .str message.idempotency_key),
      ("submission_label", .str message.submission_label), ("temp_dir", text message.temp_dir),
      ("bucket_name", text message.bucket_name),
      ("created_at", .str (timeText (calendar.datetime message.created_at))),
      ("items", .arr (message.items.map itemJson))] ++
    optional "source" (message.source.map sourceJson) ++
    optional "traceparent" (message.traceparent.map .str) ++
    [("metadata", .obj (metadataJson calendar message.metadata))])

/-- An item result with its id as the text that it is. -/
structure DeliveryResultItemSpec where
  item_id : String
  status : String
  key : Option String
  size : Option Int
  sha256 : Option String
  error : Option String
  deriving DecidableEq, Repr

structure DeliveryResultMessage where
  topic : String
  task_id : String
  status : String
  uploaded : Int
  failed : Int
  processed : Int
  items : List DeliveryResultItemSpec
  started_at : Datetime
  ended_at : Datetime
  error : Option String
  deriving DecidableEq

/-- As results are applied: ids are primary keys. -/
def DeliveryResultItemSpec.read (item : DeliveryResultItemSpec) : Control.DeliveryResultItemSpec where
  item_id := ofIdText item.item_id.toList
  status := item.status
  key := item.key.map String.toList
  size := item.size
  sha256 := item.sha256
  error := item.error

def DeliveryResultMessage.read (clock : Datetime → Time) (result : DeliveryResultMessage) :
    Control.DeliveryResultMessage where
  topic := result.topic
  task_id := ofIdText result.task_id.toList
  status := result.status
  uploaded := result.uploaded
  failed := result.failed
  processed := result.processed
  items := result.items.map DeliveryResultItemSpec.read
  started_at := clock result.started_at
  ended_at := clock result.ended_at
  error := result.error

/-- Digits after the sixth are cut off. -/
def toDatetime (m : Timestamps.Moment) : Datetime :=
  ⟨⟨{ m.val with nanosecond := m.val.nanosecond / 1000 * 1000 },
    ⟨m.property.year, m.property.month, m.property.day, m.property.hour, m.property.minute,
      m.property.second, Nat.lt_of_le_of_lt (Nat.div_mul_le_self _ _) m.property.nanosecond⟩⟩,
    Nat.mul_mod_left _ _⟩

def readDatetime : Value → Option Datetime
  | .str s => (Timestamps.parse s.toList).map toDatetime
  | _ => none

/-- `model_validate`, with `extra` forbidden, without the conversions of strings to numbers and of numbers
to times: no worker writes a message that needs them. -/
def validateItem : Value → Option DeliveryResultItemSpec
  | .obj members =>
    if onlyNames ["item_id", "status", "key", "size", "sha256", "error"] members then do
      let item_id ← required "item_id" readString members
      let status ← required "status" readString members
      let key ← defaulted "key" (nullable readString) none members
      let size ← defaulted "size" (nullable readInt) none members
      let sha256 ← defaulted "sha256" (nullable readString) none members
      let error ← defaulted "error" (nullable readString) none members
      some ⟨item_id, status, key, size, sha256, error⟩
    else none
  | _ => none

def validate : Value → Option DeliveryResultMessage
  | .obj members =>
    if onlyNames ["topic", "task_id", "status", "uploaded", "failed", "processed", "items",
        "started_at", "ended_at", "error"] members then do
      let topic ← defaulted "topic" readString "delivery.results.v1" members
      let task_id ← required "task_id" readString members
      let status ← required "status" readString members
      let uploaded ← defaulted "uploaded" readInt 0 members
      let failed ← defaulted "failed" readInt 0 members
      let processed ← defaulted "processed" readInt 0 members
      let items ← defaulted "items" (readList validateItem) [] members
      let started_at ← required "started_at" readDatetime members
      let ended_at ← required "ended_at" readDatetime members
      let error ← defaulted "error" (nullable readString) none members
      some ⟨topic, task_id, status, uploaded, failed, processed, items, started_at, ended_at, error⟩
    else none
  | _ => none

end FileDelivery.Control.Schema
