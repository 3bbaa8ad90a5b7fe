import FileDelivery.Bridge.Wire
import FileDelivery.Control.Schema
import FileDelivery.Worker.Schema

namespace FileDelivery.Proofs.Contract
open FileDelivery.Library FileDelivery.Library.Json FileDelivery.Control

/-- The item that the worker is meant to see. -/
def decodedItem (spec : DeliveryItemSpec) : Worker.Schema.DeliveryItem where
  itemId := String.ofList (idText spec.item_id)
  srcPath := String.ofList spec.src_path
  sourcePath := String.ofList (spec.source_path.getD [])
  filename := String.ofList spec.filename
  ext := String.ofList spec.ext
  fileSize := spec.file_size
  dstPath := String.ofList spec.dst_path
  severity := spec.severity.text
  targetNameRaw := String.ofList spec.target_name_raw
  targetNameMatched := String.ofList (spec.target_name_matched.getD [])
  documentType := String.ofList spec.document_type
  categoryName := String.ofList spec.category_name
  uploadStatus := spec.upload_status.text

def decodedSource (source : SourceRef) : Worker.Schema.SourceRef where
  type := source.type
  bucket := String.ofList source.bucket
  key := String.ofList source.key
  sha256 := source.sha256.getD ""
  size := source.size.getD 0

/-- The task that the worker is meant to see. -/
def decodedTask (calendar : Schema.Calendar) (message : DeliveryTaskMessage) :
    Worker.Schema.DeliveryTask where
  schemaVersion := message.schema_version
  topic := message.topic
  taskId := String.ofList (idText message.task_id)
  idempotencyKey := message.idempotency_key
  submissionLabel := message.submission_label
  tempDir := String.ofList message.temp_dir
  bucketName := String.ofList message.bucket_name
  createdAt := (calendar.datetime message.created_at).val
  items := message.items.map decodedItem
  source := message.source.map decodedSource
  traceparent := message.traceparent.getD ""
  metadata := Schema.metadataJson calendar message.metadata

theorem readInt64_num {n : Nat} (h : n < 2 ^ 63) : Worker.Schema.readInt64 (.num n) = some (n : Int) := by
  rw [Worker.Schema.readInt64, if_pos (by omega)]

theorem readItem_itemJson {spec : DeliveryItemSpec} (h : spec.file_size < 2 ^ 63) :
    Worker.Schema.readItem (Schema.itemJson spec) = some (decodedItem spec) := by
  have hsize := readInt64_num h
  cases hm : spec.target_name_matched <;> cases hp : spec.source_path
  all_goals
    simp [Worker.Schema.readItem, readStruct, Schema.itemJson, Schema.text, hm, hp, setMembers, fieldFor,
      Worker.Schema.itemFields, field, readString, hsize, decodedItem]

theorem readSource_sourceJson {source : SourceRef} (h : ∀ n ∈ source.size, n < 2 ^ 63) :
    Worker.Schema.readSource (Schema.sourceJson source) = some (decodedSource source) := by
  cases hs : source.size with
  | none =>
    cases hd : source.sha256
    all_goals
      simp [Worker.Schema.readSource, readStruct, Schema.sourceJson, Schema.text, hs, hd, setMembers,
        fieldFor, Worker.Schema.sourceFields, field, readString, decodedSource]
  | some n =>
    have hsize := readInt64_num (h n hs)
    cases hd : source.sha256
    all_goals
      simp [Worker.Schema.readSource, readStruct, Schema.sourceJson, Schema.text, hs, hd, setMembers,
        fieldFor, Worker.Schema.sourceFields, field, readString, hsize, decodedSource]

theorem readTime_timeText (d : Schema.Datetime) :
    Worker.Schema.readTime (.str (Schema.timeText d)) = some d.val := by
  obtain ⟨m, hm⟩ := d
  have hlt : m.val.nanosecond / 1000 < 10 ^ 6 := by
    have := m.property.nanosecond
    omega
  have hexact : m.val.nanosecond / 1000 * 10 ^ 3 = m.val.nanosecond := by
    omega
  simp only [Worker.Schema.readTime, Schema.timeText, String.toList_ofList]
  split
  · rename_i hzero
    refine Timestamps.parse_write m (by simp) ?_
    rw [hzero] at hexact
    exact hexact
  · refine Timestamps.parse_write m (fun _ hd => Timestamps.digit_of_pad hd) ?_
    exact (Timestamps.scaled_pad (m := 3) hlt).trans hexact

/-- What the publishers write is what the worker is meant to see. -/
theorem readTask_messageJson (calendar : Schema.Calendar) {message : DeliveryTaskMessage}
    (hversion : message.schema_version < 2 ^ 63) (hitems : ∀ spec ∈ message.items, spec.file_size < 2 ^ 63)
    (hsource : ∀ source ∈ message.source, ∀ n ∈ source.size, n < 2 ^ 63) :
    Worker.Schema.readTask (Schema.messageJson calendar message) =
      some (decodedTask calendar message) := by
  have hversion := readInt64_num hversion
  have htime := readTime_timeText (calendar.datetime message.created_at)
  have hlist : readList Worker.Schema.readItem (.arr (message.items.map Schema.itemJson)) =
      some (message.items.map decodedItem) :=
    readList_map (fun spec h => readItem_itemJson (hitems spec h))
  cases hs : message.source with
  | none =>
    cases ht : message.traceparent
    all_goals
      simp [Worker.Schema.readTask, readStruct, Schema.messageJson, Schema.text, hs, ht, setMembers,
        fieldFor, Worker.Schema.taskFields, field, readString, Worker.Schema.readMap, hversion, htime,
        hlist, decodedTask]
  | some source =>
    obtain ⟨members, hmembers⟩ : ∃ members, Schema.sourceJson source = .obj members := ⟨_, rfl⟩
    have hread := readSource_sourceJson (hsource source hs)
    rw [hmembers] at hread
    cases ht : message.traceparent
    all_goals
      simp [Worker.Schema.readTask, readStruct, Schema.messageJson, Schema.text, hs, ht, setMembers,
        fieldFor, Worker.Schema.taskFields, field, readString, Worker.Schema.readMap, hversion, htime,
        hlist, hmembers, hread, decodedTask]

/-- What the worker makes of the task is what the two sides' models agree on. -/
theorem decodedTask_read (calendar : Schema.Calendar) (message : DeliveryTaskMessage) :
    (decodedTask calendar message).read = Bridge.toWorker message := by
  have hitem : ∀ spec, (decodedItem spec).read = Bridge.itemToWorker spec := by
    intro spec
    simp [decodedItem, Worker.Schema.DeliveryItem.read, Bridge.itemToWorker]
  have hsource : ∀ source, (decodedSource source).read = Bridge.sourceToWorker source := by
    intro source
    simp [decodedSource, Worker.Schema.SourceRef.read, Bridge.sourceToWorker]
  simp [decodedTask, Worker.Schema.DeliveryTask.read, Bridge.toWorker, Function.comp_def, hitem, hsource]

theorem idText_ne_nil (id : Nat) : idText id ≠ [] := Nat.toDigits_ne_nil

/-- A built message passes the worker's checks. -/
theorem built_valid (task : Task) (upload_items : List TaskItem) (bucket_name : Text)
    {source : Option SourceRef} (traceparent : Option String) (now : Time)
    (h : ∀ ref ∈ source, ref.type = "object" ∧ ref.bucket ≠ [] ∧ ref.key ≠ []) :
    Worker.validateTaskMessage (Bridge.toWorker
      (build_delivery_task_message task upload_items bucket_name source traceparent now)) = none := by
  cases source with
  | none => simp [Worker.validateTaskMessage, Bridge.toWorker, build_delivery_task_message, idText_ne_nil]
  | some ref =>
    obtain ⟨htype, hbucket, hkey⟩ := h ref rfl
    simp [Worker.validateTaskMessage, Bridge.toWorker, build_delivery_task_message, idText_ne_nil,
      Bridge.sourceToWorker, htype, hbucket, hkey]

/-- An omitted field is `None`. -/
def validatedItem (item : Worker.DeliveryResultItem) : Schema.DeliveryResultItemSpec where
  item_id := String.ofList item.itemId
  status := item.status
  key := if item.key = [] then none else some (String.ofList item.key)
  size := if item.size = 0 then none else some item.size
  sha256 := if item.sha256 = "" then none else some item.sha256
  error := if item.error = "" then none else some item.error

/-- The message that the control plane is meant to see. -/
def validatedResult (utc : Nat → Timestamps.Moment) (result : Worker.DeliveryResult) :
    Schema.DeliveryResultMessage where
  topic := result.topic
  task_id := String.ofList result.taskId
  status := result.status
  uploaded := result.uploaded
  failed := result.failed
  processed := result.processed
  items := result.items.map validatedItem
  started_at := Schema.toDatetime (utc result.startedAt)
  ended_at := Schema.toDatetime (utc result.endedAt)
  error := if result.error = "" then none else some result.error

theorem readDatetime_timeText (m : Timestamps.Moment) :
    Schema.readDatetime (.str (Worker.Schema.timeText m)) = some (Schema.toDatetime m) := by
  have hparse := Timestamps.parse_write m
    (fun _ hd => Timestamps.digit_of_pad (Timestamps.digit_of_trim hd))
    (Timestamps.scaled_trim m.property.nanosecond)
  rw [Schema.readDatetime, Worker.Schema.timeText, String.toList_ofList, hparse, Option.map_some]

theorem validateItem_resultItemJson (item : Worker.DeliveryResultItem) :
    Schema.validateItem (Worker.Schema.resultItemJson item) = some (validatedItem item) := by
  by_cases hk : item.key = [] <;> by_cases hn : item.size = 0 <;> by_cases hd : item.sha256 = "" <;>
    by_cases he : item.error = ""
  all_goals
    simp [Schema.validateItem, Worker.Schema.resultItemJson, Worker.Schema.omitEmpty, validatedItem, hk, hn,
      hd, he, onlyNames, required, defaulted, nullable, member, readString, readInt]

/-- What the worker writes is what the control plane is meant to see. -/
theorem validate_resultJson (utc : Nat → Timestamps.Moment) (result : Worker.DeliveryResult) :
    Schema.validate (Worker.Schema.resultJson utc result) = some (validatedResult utc result) := by
  have hstarted := readDatetime_timeText (utc result.startedAt)
  have hended := readDatetime_timeText (utc result.endedAt)
  have hlist : readList Schema.validateItem (.arr (result.items.map Worker.Schema.resultItemJson)) =
      some (result.items.map validatedItem) :=
    readList_map (fun item _ => validateItem_resultItemJson item)
  by_cases hi : result.items = [] <;> by_cases he : result.error = ""
  all_goals
    simp [Schema.validate, Worker.Schema.resultJson, Worker.Schema.omitEmpty, validatedResult, hi, he,
      onlyNames, required, defaulted, nullable, member, readString, readInt, hstarted, hended, hlist]

/-- It is the result that both sides' models agree on, read with the control plane's clock. -/
theorem validatedResult_read {utc : Nat → Timestamps.Moment} {clock : Schema.Datetime → Time}
    {result : Worker.DeliveryResult} (h : ∀ t, clock (Schema.toDatetime (utc t)) = t) :
    (validatedResult utc result).read clock = Bridge.toControl result := by
  have hitem : ∀ item, (validatedItem item).read = Bridge.itemToControl item := by
    intro item
    by_cases hk : item.key = []
    all_goals
      simp [validatedItem, Schema.DeliveryResultItemSpec.read, Bridge.itemToControl, hk]
  simp [validatedResult, Schema.DeliveryResultMessage.read, Bridge.toControl, h, Function.comp_def, hitem]

/-- Both messages arrive: a task with the values that it was built with, `None` as the zero
value, and valid for the worker; a result with its values, cut to microseconds. -/
theorem messages_arrive (calendar : Schema.Calendar) (utc : Nat → Timestamps.Moment) (task : Task)
    (upload_items : List TaskItem) (bucket_name : Text) (source : Option SourceRef)
    (traceparent : Option String) (now : Time)
    (hitems : ∀ item ∈ upload_items, item.file_size < 2 ^ 63)
    (hsource : ∀ ref ∈ source, ref.type = "object" ∧ ref.bucket ≠ [] ∧ ref.key ≠ [] ∧
      ∀ n ∈ ref.size, n < 2 ^ 63) :
    let message := build_delivery_task_message task upload_items bucket_name source traceparent now
    Worker.Schema.readTask (Schema.messageJson calendar message) = some (decodedTask calendar message) ∧
    Worker.validateTaskMessage (decodedTask calendar message).read = none ∧
    ∀ (deliveryTask : Worker.DeliveryTask) (itemResults : List Worker.DeliveryResultItem)
      (started ended : Nat),
      let result := Worker.processTask deliveryTask itemResults started ended
      Schema.validate (Worker.Schema.resultJson utc result) = some (validatedResult utc result) := by
  intro message
  refine ⟨readTask_messageJson calendar ?_ ?_ ?_, ?_, fun _ _ _ _ => validate_resultJson utc _⟩
  · show (if source.isSome then 2 else 1) < 2 ^ 63
    split <;> decide
  · intro spec hspec
    obtain ⟨item, hitem, rfl⟩ := List.mem_map.mp hspec
    exact hitems item hitem
  · exact fun ref href => (hsource ref href).2.2.2
  · rw [decodedTask_read]
    exact built_valid task upload_items bucket_name traceparent now
      (fun ref href => ⟨(hsource ref href).1, (hsource ref href).2.1, (hsource ref href).2.2.1⟩)

def sampleTask : Task :=
  ⟨7, .confirmed, "k", "hq", "u1", "label", "/tasks/7".toList, none, "u1", 0, some 1, none⟩

def sampleItem : TaskItem :=
  ⟨8, 7, "acme/a.txt".toList, "a.txt".toList, ".txt".toList, 1, "acme".toList, [], "other".toList,
    "Other".toList, "acme".toList, "acme/a.txt".toList, .ok, "", [], [], .pending, "", none⟩

/-- One nanosecond after the year has begun. -/
def sampleMoment : Timestamps.Moment := ⟨⟨2026, 1, 1, 0, 0, 0, 1⟩, by decide⟩

def sampleCalendar : Schema.Calendar :=
  ⟨fun _ => Schema.toDatetime sampleMoment, fun _ => "2026-01-01T00:00:00+00:00"⟩

theorem sample_messages_arrive :
    let source : SourceRef := ⟨"object", "b".toList, "k".toList, none, some 5⟩
    let message := build_delivery_task_message sampleTask [sampleItem] "out".toList (some source) none 0
    Worker.Schema.readTask (Schema.messageJson sampleCalendar message) =
      some (decodedTask sampleCalendar message) ∧
    Worker.validateTaskMessage (decodedTask sampleCalendar message).read = none ∧
    ((decodedTask sampleCalendar message).items.map (·.targetNameMatched)) = [""] := by
  intro source message
  obtain ⟨hread, hvalid, _⟩ := messages_arrive sampleCalendar (fun _ => sampleMoment) sampleTask
    [sampleItem] "out".toList (some source) none 0 (by decide) (by simp [source])
  exact ⟨hread, hvalid, by decide⟩

/-- A source of another type is not valid for the worker, and a nanosecond is lost on the way back. -/
theorem other_type_and_nanosecond :
    (∃ decoded,
      Worker.Schema.readTask (Schema.messageJson sampleCalendar (build_delivery_task_message sampleTask []
        "out".toList (some ⟨"file", "b".toList, "k".toList, none, none⟩) none 0)) = some decoded ∧
      Worker.validateTaskMessage decoded.read =
        some "valid object source is required for schema_version=2") ∧
    ∃ message,
      Schema.validate (Worker.Schema.resultJson (fun _ => sampleMoment)
        (Worker.processTask ⟨1, ['7'], [], [], none⟩ [] 0 0)) = some message ∧
      message.started_at.val.val.nanosecond = 0 ∧ sampleMoment.val.nanosecond = 1 := by
  refine ⟨⟨_, readTask_messageJson sampleCalendar (by decide) (by simp [build_delivery_task_message])
    (by simp [build_delivery_task_message]), by decide⟩, _, validate_resultJson _ _, by decide, rfl⟩

end FileDelivery.Proofs.Contract
