import FileDelivery.Control.ResultSession
import FileDelivery.Proofs.ApplyResult

namespace FileDelivery.Proofs.ResultAcks
open FileDelivery.Control FileDelivery.Control.ResultSession FileDelivery.Proofs.ApplyResult

def ackedBy : Op → Option DeliveryResultMessage
  | .ack m => some m
  | _ => none

def appliedBy : Op → Option DeliveryResultMessage
  | .apply m => some m
  | _ => none

/-- Until the commit the durable state stands still, the transaction collects the
applied results, and the acks go out. -/
theorem exec_uncommitted (bucket : Text) (s : Session) {ops : List Op} (h : Op.commit ∉ ops) :
    (ops.foldl (exec bucket) s).durable = s.durable ∧
      (ops.foldl (exec bucket) s).view = applied bucket s.view (ops.filterMap appliedBy) ∧
      (ops.foldl (exec bucket) s).acked = s.acked ++ ops.filterMap ackedBy := by
  induction ops generalizing s with
  | nil => exact ⟨rfl, rfl, by simp⟩
  | cons op ops ih =>
    obtain ⟨hd, hv, ha⟩ := ih (exec bucket s op) (fun hm => h (List.mem_cons_of_mem _ hm))
    simp only [List.foldl_cons, hd, hv, ha]
    cases op with
    | commit => exact absurd List.mem_cons_self h
    | apply m => exact ⟨rfl, rfl, rfl⟩
    | ack m => exact ⟨rfl, rfl, by simp [exec, ackedBy]⟩
    | consume_records => exact ⟨rfl, rfl, rfl⟩
    | acquire m => exact ⟨rfl, rfl, rfl⟩
    | release m => exact ⟨rfl, rfl, rfl⟩
    | close => exact ⟨rfl, rfl, rfl⟩

/-- `consume_delivery_results` without the caller's commit. -/
def bodyOps (records : List Record) : List Op :=
  .consume_records :: records.flatMap recordOps ++ [.close]

theorem callOps_body (records : List Record) :
    callOps records = bodyOps records ++ [.commit] := by
  simp [callOps, bodyOps]

theorem body_uncommitted (records : List Record) : Op.commit ∉ bodyOps records := by
  simp only [bodyOps, List.mem_append, List.mem_cons, List.mem_flatMap, List.not_mem_nil,
    or_false, reduceCtorEq, false_or, not_exists, not_and]
  intro r _
  simp only [recordOps]
  split <;> simp

/-- What is acked has been applied before. -/
theorem body_acks_applied (records : List Record) (h : Op.ack m ∈ bodyOps records) :
    Op.apply m ∈ bodyOps records := by
  simp only [bodyOps, List.mem_append, List.mem_cons, List.mem_flatMap, List.not_mem_nil,
    or_false, reduceCtorEq, false_or] at h ⊢
  obtain ⟨r, hr, hm⟩ := h
  refine ⟨r, hr, ?_⟩
  simp only [recordOps] at hm ⊢
  split at hm
  · rename_i hacq
    simp only [List.mem_cons, reduceCtorEq, false_or, Op.ack.injEq, List.not_mem_nil,
      or_false] at hm
    simp [hm, hacq]
  · simp at hm

theorem take_uncommitted (h : k < (callOps records).length) :
    Op.commit ∉ (callOps records).take k := by
  rw [callOps_body, List.length_append] at h
  rw [callOps_body, List.take_append_of_le_length (by simpa using Nat.le_of_lt_succ h)]
  exact fun hm => body_uncommitted records (List.mem_of_mem_take hm)

theorem mem_acked {ops : List Op} : m ∈ ops.filterMap ackedBy ↔ Op.ack m ∈ ops := by
  simp only [List.mem_filterMap]
  constructor
  · rintro ⟨op, ho, hm⟩
    cases op <;> simp_all [ackedBy]
  · exact fun h => ⟨_, h, rfl⟩

theorem mem_applied {ops : List Op} (h : Op.apply m ∈ ops) : m ∈ ops.filterMap appliedBy :=
  List.mem_filterMap.mpr ⟨_, h, rfl⟩

theorem apply_next_le (bucket : Text) (db : Db) (m : DeliveryResultMessage) :
    db.next_id ≤ (apply_delivery_result bucket db m).1.next_id := by
  cases h : TaskRepo.get db m.task_id none with
  | none => rw [apply_missing h]
  | some task => exact Nat.le_of_lt (apply_next h)

theorem applied_next_le (bucket : Text) (db : Db) (ms : List DeliveryResultMessage) :
    db.next_id ≤ (applied bucket db ms).next_id := by
  induction ms generalizing db with
  | nil => exact Nat.le_refl _
  | cons m ms ih => exact Nat.le_trans (apply_next_le bucket db m) (ih _)

/-- A result of an existing task leaves a trace in the database. -/
theorem applied_trace (bucket : Text) (db : Db) (h : (TaskRepo.get db m.task_id none).isNone = false)
    (hm : m ∈ ms) : db.next_id < (applied bucket db ms).next_id := by
  induction ms generalizing db with
  | nil => cases hm
  | cons n ms ih =>
    rcases List.mem_cons.mp hm with rfl | hm
    · obtain ⟨task, ht⟩ : ∃ task, TaskRepo.get db m.task_id none = some task := by
        cases hg : TaskRepo.get db m.task_id none with
        | none => simp [hg] at h
        | some task => exact ⟨task, rfl⟩
      exact Nat.lt_of_lt_of_le (apply_next ht) (applied_next_le bucket _ ms)
    · have hkept := (apply_get bucket db n m.task_id).trans h
      exact Nat.lt_of_le_of_lt (apply_next_le bucket db n) (ih _ hkept hm)

theorem interrupted_early (bucket : Text) (db : Db) (h : k < (callOps records).length) :
    (interrupted bucket db records k).durable = db ∧
      (interrupted bucket db records k).acked =
        ((callOps records).take k).filterMap ackedBy := by
  obtain ⟨hd, _, ha⟩ := exec_uncommitted bucket ⟨db, db, []⟩ (take_uncommitted h)
  exact ⟨hd, ha.trans (List.nil_append _)⟩

theorem interrupted_late (bucket : Text) (db : Db) (h : (callOps records).length ≤ k) :
    (interrupted bucket db records k).durable =
        applied bucket db ((bodyOps records).filterMap appliedBy) ∧
      (interrupted bucket db records k).acked = (bodyOps records).filterMap ackedBy := by
  obtain ⟨_, hv, ha⟩ := exec_uncommitted bucket ⟨db, db, []⟩ (body_uncommitted records)
  unfold interrupted rollback
  rw [List.take_of_length_le h, callOps_body, List.foldl_append]
  exact ⟨hv, ha.trans (List.nil_append _)⟩

/-- Acked records are durable exactly where the call got through to its commit, or
where every ack that went out was for a task that the database does not know. -/
theorem acks_durable_iff (bucket : Text) (db : Db) (records : List Record) (k : Nat) :
    AckedDurable bucket db (interrupted bucket db records k) ↔
      (callOps records).length ≤ k ∨
        ∀ m, Op.ack m ∈ (callOps records).take k → TaskRepo.get db m.task_id none = none := by
  rcases Nat.lt_or_ge k (callOps records).length with hk | hk
  · obtain ⟨hd, ha⟩ := interrupted_early bucket db hk
    simp only [AckedDurable, hd, ha, mem_acked]
    constructor
    · intro h
      refine .inr (fun m hm => ?_)
      obtain ⟨ms, hms, he⟩ := h m hm
      cases hg : TaskRepo.get db m.task_id none with
      | none => rfl
      | some task =>
        have := applied_trace bucket db (by simp [hg]) hms
        rw [← he] at this
        exact absurd this (Nat.lt_irrefl _)
    · rintro (hlen | h) m hm
      · omega
      · refine ⟨[m], List.mem_singleton_self m, ?_⟩
        simp [applied, apply_missing (h m hm)]
  · obtain ⟨hd, ha⟩ := interrupted_late bucket db hk
    refine ⟨fun _ => .inl hk, fun _ m hm => ?_⟩
    rw [ha, mem_acked] at hm
    exact ⟨_, mem_applied (body_acks_applied records hm), hd⟩

/-- One result of the only task; the process dies right after the ack. -/
theorem acked_result_is_lost :
    ¬ ∀ bucket db records k, AckedDurable bucket db (interrupted bucket db records k) := by
  intro h
  let task : Task := ⟨1, .queued, "k1", "hq", "u1", "May", [], none, "u1", 0, none, none⟩
  let db : Db := ⟨[task], [], [], [], [], [], 2, 0⟩
  let result : DeliveryResultMessage :=
    ⟨"delivery.results.v1", 1, "uploaded", 0, 0, 0, [], 0, 0, none⟩
  obtain ⟨ms, hms, he⟩ := h [] db [⟨result, true⟩] 4 result (by decide)
  have hgrown := applied_trace [] db (m := result) (by decide) hms
  rw [← he] at hgrown
  exact absurd hgrown (by decide)

end FileDelivery.Proofs.ResultAcks
