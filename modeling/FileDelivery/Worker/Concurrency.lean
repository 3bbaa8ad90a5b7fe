import FileDelivery.Library.Pool
import FileDelivery.Worker.Pipeline

namespace FileDelivery.Worker.Pipeline
open FileDelivery.Library FileDelivery.Control

structure Options where
  maxItemConcurrency : Int
  /-- Whether there is a `BeforeUpload`. -/
  beforeUpload : Bool
  deriving DecidableEq, Repr

/-- Where a `processItem` is between the calls that it makes. -/
inductive ItemState where
  | resolving
  | limiting (src : Bytes)
  | uploading (src : Bytes)
  | returned (result : DeliveryResultItem)
  deriving DecidableEq, Repr

/-- What `resolver.Resolve`, `beforeUpload` or `sinkImpl.Upload` returns. The bytes of a source stand
for the source. -/
inductive Answer where
  | resolve (src : Except String Bytes)
  | beforeUpload (ok : Except String Unit)
  | upload (receipt : Except String Receipt)

def itemStep (opts : Options) (item : DeliveryItem) : ItemState → Answer → Option ItemState
  | .resolving, .resolve (.error e) => some (.returned (failedItem item e))
  | .resolving, .resolve (.ok src) =>
    some (if opts.beforeUpload then .limiting src else .uploading src)
  | .limiting _, .beforeUpload (.error e) => some (.returned (failedItem item e))
  | .limiting src, .beforeUpload (.ok ()) => some (.uploading src)
  | .uploading _, .upload (.error e) => some (.returned (failedItem item e))
  | .uploading _, .upload (.ok receipt) => some (.returned (uploadedItem item receipt))
  | _, _ => none

def ItemState.result : ItemState → Option DeliveryResultItem
  | .returned result => some result
  | _ => none

/-- The goroutine of an item. -/
def itemRoutine (opts : Options) : Pool.Routine DeliveryItem ItemState Answer DeliveryResultItem where
  start := .resolving
  step := itemStep opts
  result := ItemState.result

def maxConcurrency (opts : Options) : Nat :=
  if opts.maxItemConcurrency ≤ 0 then 1 else opts.maxItemConcurrency.toNat

abbrev Schedule := Pool.State ItemState DeliveryResultItem

/-- `make` leaves zero values in `itemResults`. -/
def scheduled (task : DeliveryTask) : Schedule :=
  Pool.initial ⟨[], "", [], 0, "", ""⟩ (uploadItems task).length

/-- One step of `ProcessTaskWithResolverOptions`, of its loop or of one of its goroutines. -/
def scheduleStep (task : DeliveryTask) (opts : Options) (s : Schedule) :
    Pool.Action Answer → Option Schedule :=
  Pool.step (itemRoutine opts) (maxConcurrency opts) (uploadItems task) s

/-- What `ProcessTaskWithResolverOptions` has returned. -/
def processed (task : DeliveryTask) (s : Schedule) : Option (Result × Option String) :=
  if s.loop = .returned then some (collect s.slots, taskError task (collect s.slots)) else none

/-- A `processItem` of the item is running. -/
def processing : Pool.Stage ItemState DeliveryResultItem → Bool
  | .running _ => true
  | _ => false

/-- Resolver, `BeforeUpload` and sink whose outcomes depend on the item only. -/
structure Outcomes where
  resolve : DeliveryItem → Except String Bytes
  beforeUpload : DeliveryItem → Except String Unit
  upload : DeliveryItem → Bytes → Except String Receipt

def Outcomes.answers (o : Outcomes) (item : DeliveryItem) : ItemState → Answer → Prop
  | .resolving, .resolve src => src = o.resolve item
  | .limiting _, .beforeUpload ok => ok = o.beforeUpload item
  | .uploading src, .upload receipt => receipt = o.upload item src
  | _, _ => True

/-- The result of an item by itself. -/
def Outcomes.item (o : Outcomes) (opts : Options) (item : DeliveryItem) : DeliveryResultItem :=
  processItem item (o.resolve item) (if opts.beforeUpload then o.beforeUpload item else .ok ())
    (o.upload item)

end FileDelivery.Worker.Pipeline
