import FileDelivery.Control.Text
import FileDelivery.Library.Multipart
import Mathlib.Data.List.Sort

namespace FileDelivery.Control.S3Uploader
open FileDelivery.Library.Multipart

/-- 8 MB -/
def CHUNK_SIZE : Nat := 8 * 1024 * 1024

/-- 50 MB -/
def MULTIPART_THRESHOLD : Nat := 50 * 1024 * 1024

structure UploadResult where
  bucket : Text
  key : Text
  etag : Text
  size_bytes : Nat
  deriving DecidableEq, Repr

/-- The loop of `_iter_chunks`. -/
def iterFrom (data : Bytes) (chunk_size : Nat) (h : 0 < chunk_size) (offset : Nat) : List Bytes :=
  if offset < data.length then
    (data.drop offset).take chunk_size :: iterFrom data chunk_size h (offset + chunk_size)
  else []
termination_by data.length - offset

def _iter_chunks (data : Bytes) : List Bytes := iterFrom data CHUNK_SIZE (by decide) 0

/-- `etag.strip` of double quotes. -/
def stripQuotes (etag : Text) : Text :=
  ((etag.dropWhile (· == '"')).reverse.dropWhile (· == '"')).reverse

abbrev S3 := Store (Text × Text) Text UInt8

/-- An exception of a call, which S3 may have carried out all the same. -/
structure Failure where
  error : String
  done : Bool
  deriving DecidableEq, Repr

/-- S3 carries out the call. -/
def carriedOut (failure : Option Failure) : Bool := failure.all (·.done)

/-- One `_upload_part` of the `gather`. -/
inductive PartTask where
  | pending
  | uploaded (etag : Text)
  | failed (error : String)
  deriving DecidableEq, Repr

inductive Stage where
  | starting
  /-- `gather` waits for the parts, or they are complete. -/
  | uploading
  /-- In the `except` branch. -/
  | aborting (error : String)
  | returned (result : UploadResult)
  | raised (error : String)
  deriving DecidableEq, Repr

inductive Call where
  | put_object
  | create_multipart_upload
  | upload_part (upload_id part_number : Nat) (body : Bytes)
  | complete_multipart_upload (upload_id : Nat) (parts : List (Nat × Text))
  | abort_multipart_upload (upload_id : Nat)
  deriving DecidableEq, Repr

/-- A call of `upload_file`. Parts go on after `gather` has raised. -/
structure UploadRun where
  s3 : S3
  stage : Stage
  upload_id : Option Nat
  tasks : List PartTask
  /-- The calls that have ended, with what they raised. -/
  calls : List (Call × Option String)

/-- The arguments of `upload_file`. -/
structure Request where
  data : Bytes
  bucket : Text
  key : Text
  deriving DecidableEq, Repr

/-- How a call ends, with the tag that S3 answers with. -/
inductive Action where
  | put (etag : Text) (failure : Option Failure)
  | create (failure : Option Failure)
  /-- A part of the `gather`, by its index. -/
  | part (i : Nat) (etag : Text) (failure : Option Failure)
  | complete (etag : Text) (failure : Option Failure)
  | abort (error : Option String)
  deriving DecidableEq, Repr

def start (s3 : S3) : UploadRun := ⟨s3, .starting, none, [], []⟩

variable (req : Request) (run : UploadRun)

def Request.place : Text × Text := (req.bucket, req.key)

def Request.large : Bool := MULTIPART_THRESHOLD ≤ req.data.length

def Request.result (etag : Text) : UploadResult :=
  ⟨req.bucket, req.key, stripQuotes etag, req.data.length⟩

def UploadRun.ended (call : Call) (error : Option String) : List (Call × Option String) :=
  run.calls ++ [(call, error)]

/-- `_put_object`, called for less than the threshold. -/
def put (etag : Text) (failure : Option Failure) : UploadRun :=
  { run with
    s3 := if carriedOut failure then run.s3.put req.place req.data else run.s3
    stage := match failure with
      | none => .returned (req.result etag)
      | some f => .raised f.error
    calls := run.ended .put_object (failure.map (·.error)) }

/-- An upload whose id does not get back is out of the program's reach. -/
def create (failure : Option Failure) : UploadRun :=
  { run with
    s3 := if carriedOut failure then run.s3.create req.place else run.s3
    stage := match failure with
      | none => .uploading
      | some f => .raised f.error
    upload_id := if failure.isNone then some run.s3.next else none
    tasks := if failure.isNone then (_iter_chunks req.data).map (fun _ => .pending) else []
    calls := run.ended .create_multipart_upload (failure.map (·.error)) }

/-- The end of one part's call. The first exception is that of the `gather`. -/
def part (upload_id i : Nat) (body : Bytes) (etag : Text) (failure : Option Failure) : UploadRun :=
  let stored := run.s3.uploadPart upload_id (i + 1) etag body
  let error := match failure with
    | some f => some f.error
    | none => if stored.isNone then some "NoSuchUpload" else none
  { run with
    s3 := if carriedOut failure then stored.getD run.s3 else run.s3
    stage := match run.stage, error with
      | .uploading, some e => .aborting e
      | stage, _ => stage
    tasks := run.tasks.set i (match error with
      | none => .uploaded etag
      | some e => .failed e)
    calls := run.ended (.upload_part upload_id (i + 1) body) error }

/-- What a part's call returns. -/
def PartTask.etag : PartTask → Option Text
  | .uploaded etag => some etag
  | _ => none

/-- What `gather` returns, once each part has returned. -/
def gathered (tasks : List PartTask) : Option (List (Nat × Text)) :=
  (tasks.mapM PartTask.etag).map (fun etags => etags.mapIdx (fun i etag => (i + 1, etag)))

/-- `sorted` by the part number. -/
def partsSorted (parts : List (Nat × Text)) : List (Nat × Text) :=
  parts.insertionSort (fun a b => a.1 ≤ b.1)

/-- After `on_progress`, which does not raise. -/
def complete (upload_id : Nat) (parts : List (Nat × Text)) (etag : Text)
    (failure : Option Failure) : UploadRun :=
  let completed := run.s3.complete upload_id (partsSorted parts)
  let error := match failure with
    | some f => some f.error
    | none => if completed.isNone then some "InvalidPart" else none
  { run with
    s3 := if carriedOut failure then completed.getD run.s3 else run.s3
    stage := match error with
      | none => .returned (req.result etag)
      | some e => .aborting e
    calls := run.ended (.complete_multipart_upload upload_id (partsSorted parts)) error }

/-- The `except` branch raises the error again, unless the abort raises another. S3 aborts
only an upload that it has. -/
def abort (upload_id : Nat) (original : String) : Option String → Option UploadRun
  | some error =>
    some { run with
      stage := .raised error
      calls := run.ended (.abort_multipart_upload upload_id) (some error) }
  | none =>
    (run.s3.abort upload_id).map (fun s3 => { run with
      s3 := s3
      stage := .raised original
      calls := run.ended (.abort_multipart_upload upload_id) none })

def step : Action → Option UploadRun
  | .put etag failure =>
    if run.stage = .starting ∧ req.large = false then some (put req run etag failure) else none
  | .create failure =>
    if run.stage = .starting ∧ req.large = true then some (create req run failure) else none
  | .part i etag failure =>
    match run.upload_id, run.tasks[i]?, (_iter_chunks req.data)[i]? with
    | some upload_id, some .pending, some body => some (part run upload_id i body etag failure)
    | _, _, _ => none
  | .complete etag failure =>
    match run.stage, run.upload_id, gathered run.tasks with
    | .uploading, some upload_id, some parts => some (complete req run upload_id parts etag failure)
    | _, _, _ => none
  | .abort error =>
    match run.stage, run.upload_id with
    | .aborting original, some upload_id => abort run upload_id original error
    | _, _ => none

end FileDelivery.Control.S3Uploader
