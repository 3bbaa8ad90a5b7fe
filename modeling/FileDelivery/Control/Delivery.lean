import FileDelivery.Control.Repos

namespace FileDelivery.Control
open FileDelivery.Library

structure DeliveryResultApplySummary where
  task_id : Nat
  status : String
  uploaded : Int
  failed : Int
  processed : Int
  applied_items : Nat
  missing_items : List Nat
  deriving DecidableEq, Repr

/-- The loop variables of `apply_delivery_result` and the session it writes to. -/
structure ApplyState where
  db : Db
  applied_items : Nat
  missing_items : List Nat
  workspace_objects_created : Nat
  workspace_mapping_missing : List Nat

/-- `item.error or message.error or "upload failed"`, cut to the column. -/
def uploadError (message : DeliveryResultMessage) (item : DeliveryResultItemSpec) : String :=
  truncate 1000 (((item.error.filter (· ≠ "")).or (message.error.filter (· ≠ ""))).getD
    "upload failed")

/-- One turn of the loop over the items of a result. -/
def apply_item (bucket_name : Text) (task : Task) (message : DeliveryResultMessage)
    (acc : ApplyState) (item : DeliveryResultItemSpec) : ApplyState :=
  if item.status = "uploaded" then
    match ItemRepo.update_upload_status acc.db item.item_id .uploaded (some message.task_id)
        (some task.owner_tenant_id) "" (some message.ended_at) with
    | (_, none) => { acc with missing_items := acc.missing_items ++ [item.item_id] }
    | (db, some updated) =>
      match WorkspaceRepo.record_uploaded_item db task updated item bucket_name
          (some message.ended_at) with
      | (db, none) =>
        { acc with
            db := db
            applied_items := acc.applied_items + 1
            workspace_mapping_missing := if (item.key.filter (· ≠ [])).isSome
              then acc.workspace_mapping_missing ++ [item.item_id]
              else acc.workspace_mapping_missing }
      | (db, some written) =>
        { acc with
            db := db
            applied_items := acc.applied_items + 1
            workspace_objects_created :=
              acc.workspace_objects_created + (if written.created then 1 else 0) }
  else if item.status = "failed" then
    match ItemRepo.update_upload_status acc.db item.item_id .failed (some message.task_id)
        (some task.owner_tenant_id) (uploadError message item) none with
    | (_, none) => { acc with missing_items := acc.missing_items ++ [item.item_id] }
    | (db, some _) => { acc with db := db, applied_items := acc.applied_items + 1 }
  else { acc with missing_items := acc.missing_items ++ [item.item_id] }

/-- The writes after the loop: the task's status, then the events. -/
def finish_apply (task : Task) (message : DeliveryResultMessage) (acc : ApplyState) : Db :=
  let db := TaskRepo.update_status acc.db message.task_id (.ofString message.status)
    (some task.owner_tenant_id) none (some message.ended_at)
  let db := EventRepo.append db message.task_id (.delivery_result_applied message.topic
    message.status message.uploaded message.failed message.processed acc.applied_items
    acc.missing_items acc.workspace_objects_created acc.workspace_mapping_missing)
  if acc.workspace_mapping_missing = [] then db
  else EventRepo.append db message.task_id (.workspace_mapping_missing
    acc.workspace_mapping_missing "No workspace found for item target key")

/-- Apply a data-plane result to the session; the caller commits. -/
def apply_delivery_result (bucket_name : Text) (db : Db) (message : DeliveryResultMessage) :
    Db × DeliveryResultApplySummary :=
  match TaskRepo.get db message.task_id none with
  | none => (db, ⟨message.task_id, message.status, message.uploaded, message.failed,
      message.processed, 0, message.items.map (·.item_id)⟩)
  | some task =>
    let acc := message.items.foldl (apply_item bucket_name task message) ⟨db, 0, [], 0, []⟩
    (finish_apply task message acc, ⟨message.task_id, message.status, message.uploaded,
      message.failed, message.processed, acc.applied_items, acc.missing_items⟩)

end FileDelivery.Control
