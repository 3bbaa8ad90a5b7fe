import FileDelivery.Worker.Handling
import FileDelivery.Worker.Kafka

namespace FileDelivery.Proofs.ErrorClasses
open FileDelivery.Control FileDelivery.Worker

/-- The slot's item meets an error of the class. -/
def Meets (task : DeliveryTask) (outcome : Nat → ItemOutcome) (c : ErrorClass) (index : Nat) : Prop :=
  index < (Pipeline.uploadItems task).length ∧ (outcome index).errorClass = some c

/-- The effects report the slot's item as failed. -/
def Reports (effects : List Effect) (index : Nat) : Prop :=
  ∃ result publication, .produce result publication ∈ effects ∧ publication ≠ .failed false ∧
    (result.items[index]?).any (·.status == "failed")

/-- One result is produced, which fails just the items without a source and those that
the sink refuses; an ack follows only if that went well. -/
def Settles (task : DeliveryTask) (outcome : Nat → ItemOutcome) (effects : List Effect) : Prop :=
  ∃ result publication rest, effects = .produce result publication :: rest ∧
    (∀ e ∈ rest, e = .ack ∧ publication = .ok) ∧
    ∀ index, index < (Pipeline.uploadItems task).length →
      ((result.items[index]?).any (·.status == "failed") ↔
        (outcome index).errorClass = some .missingSource ∨
        (outcome index).errorClass = some .sinkFailure)

/-- The discipline of the error classes: a transient error leaves the message alone,
otherwise the result tells what failed for good. -/
structure Disciplined (task : DeliveryTask) (outcome : Nat → ItemOutcome) (effects : List Effect) :
    Prop where
  transient : ∀ index, Meets task outcome .transient index →
    ¬Reports effects index ∧ .ack ∉ effects
  otherwise : (∀ index, ¬Meets task outcome .transient index) → Settles task outcome effects

theorem slot_failed (outcome : Nat → ItemOutcome) (s e : Nat)
    (h : index < (Pipeline.uploadItems task).length) :
    ((processTask task (itemResults task outcome) s e).items[index]?).any (·.status == "failed") = true ↔
      (outcome index).errorClass ≠ none := by
  have hitem := List.getElem?_eq_getElem h
  simp only [processTask_items, itemResults, List.getElem?_mapIdx, hitem, Option.map_some,
    Option.any_some, beq_iff_eq, result_failed]

theorem handle_effects (task : DeliveryTask) (outcome : Nat → ItemOutcome) (p : Publication)
    (s e : Nat) : ∃ rest, handleTask task outcome p s e =
        .produce (processTask task (itemResults task outcome) s e) p :: rest ∧
      rest = if p = .ok then [.ack] else [] := by
  unfold handleTask
  split <;> exact ⟨_, rfl, rfl⟩

theorem ack_iff : .ack ∈ handleTask task outcome p s e ↔ p = .ok := by
  unfold handleTask
  split <;> simp [*]

/-- A slot with an error is reported, if the result gets out at all. -/
theorem reports_iff (h : Meets task outcome c index) :
    Reports (handleTask task outcome p s e) index ↔ p ≠ .failed false := by
  obtain ⟨rest, heq, hrest⟩ := handle_effects task outcome p s e
  have hfailed := (slot_failed outcome s e h.1).mpr (by simp [h.2])
  constructor
  · rintro ⟨result, publication, hmem, hsent, _⟩
    rw [heq] at hmem
    rcases List.mem_cons.mp hmem with hmem | hmem
    · cases hmem
      exact hsent
    · rw [hrest] at hmem
      split at hmem <;> simp at hmem
  · intro hsent
    exact ⟨_, p, heq ▸ List.mem_cons_self, hsent, hfailed⟩

theorem settles_of_classes (h : ∀ index, ¬Meets task outcome .transient index ∧
    ¬Meets task outcome .rateLimited index) : Settles task outcome (handleTask task outcome p s e) := by
  obtain ⟨rest, heq, hrest⟩ := handle_effects task outcome p s e
  refine ⟨_, p, rest, heq, ?_, ?_⟩
  · intro x hx
    rw [hrest] at hx
    split at hx
    · rename_i hok
      exact ⟨List.mem_singleton.mp hx, hok⟩
    · cases hx
  · intro index hindex
    rw [slot_failed outcome s e hindex]
    obtain ⟨htransient, hlimited⟩ := h index
    cases hc : (outcome index).errorClass with
    | none => simp
    | some c =>
      cases c with
      | transient => exact absurd ⟨hindex, hc⟩ htransient
      | rateLimited => exact absurd ⟨hindex, hc⟩ hlimited
      | missingSource => simp
      | sinkFailure => simp

/-- A settled task has no item that the limiter refused. -/
theorem settles_unlimited (h : Settles task outcome (handleTask task outcome p s e)) (index : Nat) :
    ¬Meets task outcome .rateLimited index := by
  rintro ⟨hindex, hc⟩
  obtain ⟨result, publication, rest, heq, _, hslots⟩ := h
  obtain ⟨rest', heq', _⟩ := handle_effects task outcome p s e
  rw [heq'] at heq
  cases heq
  have hfailed := (slot_failed outcome s e hindex).mpr (by simp [hc])
  have := (hslots index hindex).mp hfailed
  simp [hc] at this

/-- A worker keeps the discipline exactly when no item meets a transient error or the
limiter's refusal, or some item does meet a transient error and the result does not get
out either. -/
theorem disciplined_iff (task : DeliveryTask) (outcome : Nat → ItemOutcome)
    (publication : Publication) (started ended : Nat) :
    Disciplined task outcome (handleTask task outcome publication started ended) ↔
      (∀ index, ¬Meets task outcome .transient index ∧ ¬Meets task outcome .rateLimited index) ∨
        (publication = .failed false ∧ ∃ index, Meets task outcome .transient index) := by
  constructor
  · intro h
    by_cases hany : ∃ index, Meets task outcome .transient index
    · obtain ⟨index, hmeets⟩ := hany
      obtain ⟨hreport, _⟩ := h.transient index hmeets
      rw [reports_iff hmeets, not_not] at hreport
      exact .inr ⟨hreport, index, hmeets⟩
    · have hnone : ∀ index, ¬Meets task outcome .transient index := fun index hm => hany ⟨index, hm⟩
      exact .inl (fun index => ⟨hnone index, settles_unlimited (h.otherwise hnone) index⟩)
  · rintro (h | ⟨rfl, index, hmeets⟩)
    · exact ⟨fun index hm => absurd hm (h index).1, fun _ => settles_of_classes h⟩
    · refine ⟨fun index hm => ?_, fun hnone => absurd hmeets (hnone index)⟩
      rw [reports_iff hm, ack_iff]
      exact ⟨fun hsent => hsent rfl, by simp⟩

theorem itemResults_ids (task : DeliveryTask) (outcome : Nat → ItemOutcome) :
    (itemResults task outcome).map (·.itemId) = (Pipeline.uploadItems task).map (·.itemId) := by
  refine List.ext_getElem (by simp) ?_
  intro index h h'
  simp [itemResults, result_itemId]

/-- Over Kafka the effects of a turn that goes well are a record on the results topic and
a commit behind the message. -/
theorem kafka_turn (cfg : Kafka.Config) (outcome : Nat → ItemOutcome) (s e : Nat)
    (h : state.process = some ⟨position, .processing (task :: tasks)⟩) :
    ∃ produced acked, Kafka.step cfg state (.produce (itemResults task.task outcome) s e) = some produced ∧
      Kafka.step cfg produced .ack = some acked ∧
      acked.results = (task.fetched.place, processTask task.task (itemResults task.task outcome) s e) ::
        state.results ∧
      acked.committed = Kafka.commitMessages state.committed task.fetched := by
  let result := processTask task.task (itemResults task.task outcome) s e
  let produced : Kafka.State :=
    { state with
      results := (task.fetched.place, result) :: state.results
      process := some ⟨position, .acking task tasks⟩ }
  have hproduce : Kafka.step cfg state (.produce (itemResults task.task outcome) s e) = some produced := by
    simp only [Kafka.step, h, itemResults_ids, if_true, produced, result]
  exact ⟨produced, _, hproduce, rfl, rfl, rfl⟩

/-- An item whose archive cannot be fetched for the moment. -/
def unavailable : ItemOutcome where
  resolved := .error ⟨.transient, "get source object: connection refused"⟩
  beforeUpload := .ok ()
  upload := fun _ => .ok ⟨"a".toList, 0, ""⟩

def oneItem : DeliveryTask where
  schemaVersion := 2
  taskId := "1"
  tempDir := "tasks/1"
  items := [⟨"2", "acme/a.txt", "acme/a.txt", "finance/report/a.txt", "ok", "pending"⟩]
  source := some ⟨"object", "staging", "staged/tasks/1/archive.zip"⟩

/-- The item is reported as failed, and the message acked. -/
theorem transient_error_is_acked : ¬∀ task outcome publication started ended,
    Disciplined task outcome (handleTask task outcome publication started ended) := by
  intro h
  have hmeets : Meets oneItem (fun _ => unavailable) .transient 0 := ⟨by decide, rfl⟩
  have hack := ((h oneItem (fun _ => unavailable) .ok 0 0).transient 0 hmeets).2
  exact hack (by decide)

end FileDelivery.Proofs.ErrorClasses
