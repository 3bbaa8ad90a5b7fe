import FileDelivery.Control.Repos
import FileDelivery.Control.Runtime
import Mathlib.Logic.Function.Basic

namespace FileDelivery.Control

/-- The text of a primary key in messages, paths and object keys. -/
def idText (id : Nat) : Text := Nat.toDigits 10 id

/-- The primary key that a text stands for. -/
def ofIdText (text : Text) : Nat := Nat.ofDigitChars 10 text 0

@[simp] theorem ofIdText_idText (id : Nat) : ofIdText (idText id) = id :=
  Nat.ofDigitChars_toDigits (by decide) (by decide)

theorem idText_injective (h : idText a = idText b) : a = b := by
  rw [← ofIdText_idText a, h, ofIdText_idText]

/-- An object store: buckets and keys to contents. -/
abbrev Objects (α : Type) := Text × Text → Option α

namespace Objects

def put (store : Objects α) (bucket key : Text) (value : α) : Objects α :=
  Function.update store (bucket, key) (some value)

/-- Deleting what is not there succeeds. -/
def delete (store : Objects α) (bucket key : Text) : Objects α :=
  Function.update store (bucket, key) none

@[simp] theorem put_self (store : Objects α) : store.put b k v (b, k) = some v := by
  simp [put]

theorem put_ne (store : Objects α) (h : x ≠ (b, k)) : store.put b k v x = store x := by
  simp [put, h]

@[simp] theorem delete_self (store : Objects α) : store.delete b k (b, k) = none := by
  simp [delete]

theorem delete_ne (store : Objects α) (h : x ≠ (b, k)) : store.delete b k x = store x := by
  simp [delete, h]

end Objects

namespace Staging

/-- Depends on the task alone: every round of a task stages under the same key. -/
def stagingKey (task_id : Nat) : Text :=
  "staged/tasks/".toList ++ idText task_id ++ "/archive.zip".toList

theorem stagingKey_injective (h : stagingKey a = stagingKey b) : a = b := by
  unfold stagingKey at h
  have h := List.append_cancel_right h
  exact idText_injective (List.append_cancel_left h)

theorem stagingKey_ne_nil (task_id : Nat) : stagingKey task_id ≠ [] := by
  unfold stagingKey
  exact List.append_ne_nil_of_right_ne_nil _ (by decide)

/-- The reference that `stage_task_archive` returns. -/
def sourceRef (py : Python) (bucket : Text) (task_id : Nat) (archive : Archive) : SourceRef where
  type := "object"
  bucket := bucket
  key := stagingKey task_id
  sha256 := some (py.zipSha256 archive)
  size := some (py.zipSize archive)

def terminal (status : TaskStatus) : Bool :=
  status == .uploaded || status == .partial_failed || status == .failed

def stagedSource : EventPayload → Option SourceRef
  | .task_staged_source _ source => some source
  | _ => none

def deletedSource : EventPayload → Option (Text × Text)
  | .task_staged_source_deleted _ bucket key _ _ _ => some (bucket, key)
  | _ => none

/-- ORDER BY created_at, id. -/
def eventOrder (a b : TaskEvent) : Prop :=
  a.created_at < b.created_at ∨ (a.created_at = b.created_at ∧ a.id ≤ b.id)

instance : DecidableRel eventOrder := fun _ _ => inferInstanceAs (Decidable (_ ∨ _))

/-- Staging events of terminal tasks, no younger than the retention time. -/
def _list_cleanup_candidates (db : Db) (retention : Time) : List TaskEvent :=
  (db.events.filter (fun e => (stagedSource e.payload).isSome &&
    db.tasks.any (fun t => t.id == e.task_id && terminal t.status) &&
    decide (e.created_at + retention ≤ db.now))).insertionSort eventOrder

def _list_deleted_source_keys (db : Db) : List (Text × Text) :=
  (db.events.filterMap (fun e => deletedSource e.payload)).filter (fun k => k.1 ≠ [] ∧ k.2 ≠ [])

/-- The object that cleanup deletes for a candidate, unless it skips it. -/
def cleanupTarget (bucket_name : Option Text) (deleted_keys : List (Text × Text))
    (event : TaskEvent) : Option (Text × Text) :=
  (stagedSource event.payload).bind (fun source =>
    if source.bucket = [] ∨ source.key = [] then none
    else if bucket_name.any (· ≠ source.bucket) then none
    else if (source.bucket, source.key) ∈ deleted_keys then none
    else some (source.bucket, source.key))

end Staging
end FileDelivery.Control
