import FileDelivery.Library.Answers
import FileDelivery.Proofs.AckedOnce

namespace FileDelivery.Proofs.AnswerOrder
open FileDelivery.Library FileDelivery.Library.Runs FileDelivery.Library.Groups
open FileDelivery.Control FileDelivery.Worker FileDelivery.Worker.Kafka
open FileDelivery.Proofs.TaskOffsets (held tasks held_next tasks_next held_consume reader decoded_consume)
open FileDelivery.Proofs.AckedOnce (workers map_update tasks_held)

/-- What one step of a worker process may do. -/
inductive Move (cfg : Config) (s : Kafka.State) : Kafka.Action → Kafka.State → Prop
  | published : Move cfg s (.publish p msg)
      { s with logs := Function.update s.logs p (s.logs p ++ [msg]) }
  | started (hp : s.process = none) :
      Move cfg s .start { s with process := some ⟨s.committed, cfg.next 0 []⟩ }
  | fetched (position n ts msg) (hp : s.process = some ⟨position, .fetching n ts⟩)
      (hm : (s.logs p)[position p]? = some msg) :
      Move cfg s (.fetch p) { s with process := some ⟨Function.update position p (position p + 1),
        cfg.consume n ts ⟨p, position p, msg⟩⟩ }
  | timed_out (position n ts) (hp : s.process = some ⟨position, .fetching n ts⟩) :
      Move cfg s .fetchTimeout { s with process := some ⟨position, .processing ts⟩ }
  | rejected (position n ts msg cause) (hp : s.process = some ⟨position, .rejecting n ts msg cause⟩) :
      Move cfg s (.writeDLQ failedAt)
        { s with
          dlq := (msg.place, cfg.produceDLQ msg.message cause failedAt) :: s.dlq
          process := some ⟨position, .dropping n ts msg⟩ }
  | dropped (position n ts msg) (hp : s.process = some ⟨position, .dropping n ts msg⟩) :
      Move cfg s .commitDLQ
        { s with
          committed := commitMessages s.committed msg
          process := some ⟨position, cfg.next (n + 1) ts⟩ }
  | produced {itemResults : List DeliveryResultItem} {began ended : Nat} (position task ts)
      (hp : s.process = some ⟨position, .processing (task :: ts)⟩)
      (hids : itemResults.map (·.itemId) = (Pipeline.uploadItems task.task).map (·.itemId)) :
      Move cfg s (.produce itemResults began ended)
        { s with
          results := (task.fetched.place, processTask task.task itemResults began ended) :: s.results
          process := some ⟨position, .acking task ts⟩ }
  | acked (position task ts) (hp : s.process = some ⟨position, .acking task ts⟩) :
      Move cfg s .ack
        { s with
          committed := commitMessages s.committed task.fetched
          process := some ⟨position, .processing ts⟩ }
  | batched (position) (hp : s.process = some ⟨position, .processing []⟩) :
      Move cfg s .batchDone
        { s with process := if cfg.once then none else some ⟨position, cfg.next 0 []⟩ }
  | failed (k) (hp : s.process = some k) : Move cfg s .fail { s with process := none }

theorem kafka_move (h : Kafka.step cfg s a = some s') : Move cfg s a s' := by
  cases a with
  | publish p msg =>
    cases h
    exact .published
  | start =>
    simp only [Kafka.step] at h
    split at h
    · cases h
      exact .started ‹_›
    · cases h
  | fetch p =>
    simp only [Kafka.step] at h
    split at h
    · obtain ⟨msg, hm, rfl⟩ := Option.map_eq_some_iff.mp h
      exact .fetched _ _ _ msg ‹_› hm
    · cases h
  | fetchTimeout =>
    simp only [Kafka.step] at h
    split at h
    · split at h
      · cases h
        exact .timed_out _ _ _ ‹_›
      · cases h
    · cases h
  | writeDLQ failedAt =>
    simp only [Kafka.step] at h
    split at h
    · cases h
      exact .rejected _ _ _ _ _ ‹_›
    · cases h
  | commitDLQ =>
    simp only [Kafka.step] at h
    split at h
    · cases h
      exact .dropped _ _ _ _ ‹_›
    · cases h
  | produce itemResults began ended =>
    simp only [Kafka.step] at h
    split at h
    · split at h
      · rename_i hp hids
        cases h
        exact .produced _ _ _ hp hids
      · cases h
    · cases h
  | ack =>
    simp only [Kafka.step] at h
    split at h
    · cases h
      exact .acked _ _ _ ‹_›
    · cases h
  | batchDone =>
    simp only [Kafka.step] at h
    split at h
    · cases h
      exact .batched _ ‹_›
    · cases h
  | fail =>
    obtain ⟨k, hk, rfl⟩ := Option.map_eq_some_iff.mp h
    exact .failed k hk

/-- Logs, results and DLQ only grow. -/
structure Grows (s s' : Kafka.State) : Prop where
  logs : ∀ (p o : Nat) (msg : Message), (s.logs p)[o]? = some msg → (s'.logs p)[o]? = some msg
  results : s.results ⊆ s'.results
  dlq : s.dlq ⊆ s'.dlq

theorem move_grows (h : Move cfg s a s') : Grows s s' := by
  cases h with
  | @published p msg =>
    refine ⟨?_, List.Subset.refl _, List.Subset.refl _⟩
    intro q o m hm
    by_cases hq : q = p
    · subst hq
      simp only [Function.update_self]
      exact TaskOffsets.lookup_append hm
    · simp only [Function.update_of_ne hq]
      exact hm
  | rejected => exact ⟨fun _ _ _ h => h, List.Subset.refl _, List.subset_cons_self _ _⟩
  | produced => exact ⟨fun _ _ _ h => h, List.subset_cons_self _ _, List.Subset.refl _⟩
  | _ => exact ⟨fun _ _ _ h => h, List.Subset.refl _, List.Subset.refl _⟩

/-- What the place in the code says about the message in hand. -/
def StageReads (cfg : Config) (s : Kafka.State) : Stage → Prop
  | .rejecting _ _ msg cause => cfg.decode msg.message.value = .error cause
  | .dropping _ _ msg => msg.place ∈ s.dlq.map (·.1)
  | .acking task _ => task.fetched.place ∈ s.results.map (·.1)
  | _ => True

/-- What a process holds it has read from the logs. -/
structure Reads (cfg : Config) (s : Kafka.State) (k : Process) : Prop where
  present : ∀ f ∈ held k.stage, (s.logs f.partition)[f.offset]? = some f.message
  decoded : ∀ t ∈ tasks k.stage, cfg.decode t.fetched.message.value = .ok t.task
  stage : StageReads cfg s k.stage

theorem Reads.grow (h : Reads cfg s k) (g : Grows s s') : Reads cfg s' k := by
  refine ⟨fun f hf => g.logs _ _ _ (h.present f hf), h.decoded, ?_⟩
  have hstage := h.stage
  generalize k.stage = stage at hstage
  cases stage with
  | dropping n ts msg => exact (List.map_subset _ g.dlq) hstage
  | acking task ts => exact (List.map_subset _ g.results) hstage
  | _ => exact hstage

theorem reads_next (n : Nat) (h : ∀ t ∈ ts, (s.logs t.fetched.partition)[t.fetched.offset]? =
      some t.fetched.message ∧ cfg.decode t.fetched.message.value = .ok t.task) :
    Reads cfg s ⟨position, cfg.next n ts⟩ := by
  refine ⟨?_, ?_, ?_⟩
  · intro f hf
    obtain ⟨t, ht, rfl⟩ := List.mem_map.mp (held_next cfg n ts ▸ hf)
    exact (h t ht).1
  · intro t ht
    exact (h t (tasks_next cfg n ts ▸ ht)).2
  · unfold Config.next
    split <;> trivial

/-- A move of the process keeps this. -/
theorem move_reads (h : Move cfg s a s') (hr : ∀ k, s.process = some k → Reads cfg s k) :
    ∀ k, s'.process = some k → Reads cfg s' k := by
  have g := move_grows h
  intro k hk
  cases h with
  | published => exact (hr k hk).grow g
  | started =>
    cases hk
    exact reads_next 0 (by simp)
  | @fetched p position n ts msg hp hm =>
    cases hk
    have hold := hr _ hp
    refine ⟨?_, decoded_consume hold.decoded, ?_⟩
    · intro f hf
      rw [held_consume] at hf
      rcases List.mem_append.mp hf with hf | hf
      · exact hold.present f hf
      · rw [List.mem_singleton.mp hf]
        exact hm
    · unfold Config.consume
      split
      · assumption
      · unfold Config.next
        split <;> trivial
  | timed_out position n ts hp =>
    cases hk
    exact ⟨(hr _ hp).present, (hr _ hp).decoded, trivial⟩
  | rejected position n ts msg cause hp =>
    cases hk
    exact ⟨(hr _ hp).present, (hr _ hp).decoded, List.mem_cons_self⟩
  | dropped position n ts msg hp =>
    cases hk
    refine reads_next (n + 1) (fun t ht => ⟨?_, (hr _ hp).decoded t ht⟩)
    exact (hr _ hp).present t.fetched (List.mem_append_left _ (List.mem_map_of_mem ht))
  | produced position task ts hp hids =>
    cases hk
    exact ⟨(hr _ hp).present, (hr _ hp).decoded, List.mem_cons_self⟩
  | acked position task ts hp =>
    cases hk
    exact ⟨fun f hf => (hr _ hp).present f (List.mem_cons_of_mem _ hf),
      fun t ht => (hr _ hp).decoded t (List.mem_cons_of_mem _ ht), trivial⟩
  | batched position hp =>
    dsimp only at hk
    split at hk
    · cases hk
    · cases hk
      exact reads_next 0 (by simp)
  | failed => cases hk

variable {cfg : Nat → Config} {owner : Nat → Nat} {s s' : Group.State}

/-- A result of a valid record by the worker that has its partition. -/
def Answered (cfg : Nat → Config) (owner : Nat → Nat) (logs : Nat → List Message)
    (x : (Nat × Nat) × DeliveryResult) : Prop :=
  ∃ msg task itemResults began ended, (logs x.1.1)[x.1.2]? = some msg ∧
    (cfg (owner x.1.1)).decode msg.value = .ok task ∧
    itemResults.map (·.itemId) = (Pipeline.uploadItems task).map (·.itemId) ∧
    x.2 = processTask task itemResults began ended

/-- The DLQ record of an invalid record, with the cause. -/
def Rejected (cfg : Nat → Config) (owner : Nat → Nat) (logs : Nat → List Message)
    (x : (Nat × Nat) × DLQRecord) : Prop :=
  ∃ msg cause failedAt, (logs x.1.1)[x.1.2]? = some msg ∧
    (cfg (owner x.1.1)).decode msg.value = .error cause ∧
    x.2 = (cfg (owner x.1.1)).produceDLQ msg cause failedAt

structure Genuine (cfg : Nat → Config) (owner : Nat → Nat) (s : Group.State) : Prop where
  results : ∀ x ∈ s.results, Answered cfg owner s.logs x
  dlq : ∀ x ∈ s.dlq, Rejected cfg owner s.logs x
  processes : ∀ w k, s.processes w = some k → Reads (cfg w) (s.view w) k

/-- Whoever holds a record has its partition. -/
theorem held_owned (ho : InOrder owner (workers s)) (hk : s.processes w = some k) (hf : f ∈ held k.stage) :
    owner f.partition = w := by
  have hmember : (workers s).members w = some (reader k) := by simp [workers, hk]
  exact (ho w _ hmember).2 _ (List.mem_map_of_mem hf)

theorem step_genuine (ho : InOrder owner (workers s)) (h : Genuine cfg owner s)
    (hs : Group.step cfg s (w, a) = some s') : Genuine cfg owner s' := by
  obtain ⟨k', hk', rfl⟩ := Option.map_eq_some_iff.mp hs
  have hmove := kafka_move hk'
  have g := move_grows hmove
  have oldResult : ∀ x, Answered cfg owner s.logs x → Answered cfg owner k'.logs x := by
    rintro x ⟨msg, task, itemResults, began, ended, hm, hrest⟩
    exact ⟨msg, task, itemResults, began, ended, g.logs _ _ _ hm, hrest⟩
  have oldRecord : ∀ x, Rejected cfg owner s.logs x → Rejected cfg owner k'.logs x := by
    rintro x ⟨msg, cause, failedAt, hm, hrest⟩
    exact ⟨msg, cause, failedAt, g.logs _ _ _ hm, hrest⟩
  refine ⟨?_, ?_, ?_⟩
  · intro x hx
    cases hmove with
    | @produced itemResults began ended position task ts hp hids =>
      rcases List.mem_cons.mp hx with rfl | hx
      · have hr := h.processes w _ hp
        obtain rfl := held_owned ho hp (f := task.fetched) List.mem_cons_self
        exact ⟨_, _, _, _, _, hr.present task.fetched List.mem_cons_self,
          hr.decoded task List.mem_cons_self, hids, rfl⟩
      · exact h.results x hx
    | _ => exact oldResult x (h.results x hx)
  · intro x hx
    cases hmove with
    | @rejected failedAt position n ts msg cause hp =>
      rcases List.mem_cons.mp hx with rfl | hx
      · have hr := h.processes w _ hp
        have hmsg : msg ∈ held (.rejecting n ts msg cause) := List.mem_append_right _ (by simp)
        obtain rfl := held_owned ho hp hmsg
        exact ⟨_, _, _, hr.present msg hmsg, hr.stage, rfl⟩
      · exact h.dlq x hx
    | _ => exact oldRecord x (h.dlq x hx)
  · intro v k hk
    by_cases hv : v = w
    · subst hv
      have hown : k'.process = some k := by simpa [Group.State.put] using hk
      have := move_reads hmove (h.processes v) k hown
      exact this.grow ⟨fun _ _ _ h => h, List.Subset.refl _, List.Subset.refl _⟩
    · have hold : s.processes v = some k := by simpa [Group.State.put, Function.update_of_ne hv] using hk
      exact (h.processes v k hold).grow ⟨g.logs, g.results, g.dlq⟩

/-- The workers as a group that answers records with results and sets others aside in the DLQ. -/
def answers (s : Group.State) : Answers.State :=
  ⟨workers s, s.results.map (·.1), s.dlq.map (·.1)⟩

theorem answers_put (s : Group.State) (w : Nat) (k : Kafka.State) :
    answers (s.put w k) = ⟨⟨k.committed, Function.update (workers s).members w (k.process.map reader)⟩,
      k.results.map (·.1), k.dlq.map (·.1)⟩ := by
  simp only [answers, workers, Group.State.put, map_update]

/-- A step of a process that its reader does not see. -/
theorem unseen (hc : k.committed = s.committed) (hr : k.process.map reader = (s.processes w).map reader) :
    answers (s.put w k) = ⟨workers s, k.results.map (·.1), k.dlq.map (·.1)⟩ := by
  have hsame : (workers s).members w = k.process.map reader := hr.symm
  rw [answers_put, hc, ← hsame, Function.update_eq_self]
  rfl

/-- No record has both a result and a DLQ record. -/
theorem Genuine.apart (h : Genuine cfg owner s) (hx : x ∈ s.results) (hy : y ∈ s.dlq) : x.1 ≠ y.1 := by
  intro he
  obtain ⟨msg, task, _, _, _, hm, hdecode, _⟩ := h.results x hx
  obtain ⟨msg', cause, _, hm', hdecode', _⟩ := h.dlq y hy
  rw [← he, hm] at hm'
  cases hm'
  rw [← he, hdecode] at hdecode'
  cases hdecode'

/-- A step of a process that answers nothing moves its reader. -/
theorem moved {r : Option Offsets.Reader} (hmember : (workers s).members w = r)
    (moves : Groups.Move (fun p => owner p = w) s.committed r k.committed (k.process.map reader))
    (keeps : ∀ q q', r = some q → k.process.map reader = some q' →
      ∀ x ∈ q.held, x ∈ q'.held ∨ (answers s).Seen x)
    (hr : k.results = s.results) (hd : k.dlq = s.dlq) :
    Answers.Steps owner (answers s) (answers (s.put w k)) := by
  subst hmember
  rw [answers_put, hr, hd]
  exact .single (.move w (s := answers s) moves keeps)

theorem answers_step (hok : Group.Assigned owner s (w, a)) (ho : InOrder owner (workers s))
    (hg : Genuine cfg owner s) (hs : Group.step cfg s (w, a) = some s') :
    Answers.Steps owner (answers s) (answers s') := by
  have hg' := step_genuine ho hg hs
  obtain ⟨k', hk', rfl⟩ := Option.map_eq_some_iff.mp hs
  have member : (workers s).members w = (s.view w).process.map reader := rfl
  cases kafka_move hk' with
  | published =>
    rw [unseen rfl rfl]
    exact .refl
  | started hp =>
    rw [hp] at member
    refine moved member ?_ (fun q q' hq => by cases hq) rfl rfl
    simp only [Option.map_some, Option.map_none, reader, held_next, List.map_nil]
    exact .join
  | fetched position n ts msg hp hm =>
    rw [hp] at member
    refine moved member ?_ ?_ rfl rfl
    · simp only [Option.map_some, reader, held_consume, List.map_append]
      exact .read hok
    · intro q q' hq hq' x hx
      cases hq
      cases hq'
      refine .inl ?_
      simp only [reader, held_consume, List.map_append]
      exact List.mem_append_left _ hx
  | timed_out position n ts hp =>
    have hp : s.processes w = some ⟨position, .fetching n ts⟩ := hp
    rw [unseen rfl (by simp [hp, reader, held])]
    exact .refl
  | @rejected failedAt position n ts msg cause hp =>
    have hp : s.processes w = some ⟨position, .rejecting n ts msg cause⟩ := hp
    rw [unseen rfl (by simp [hp, reader, held])]
    refine .single (.skip (x := msg.place) ?_)
    intro hx
    obtain ⟨result, hresult, he⟩ := List.mem_map.mp hx
    exact hg'.apart hresult (y := (msg.place, _)) List.mem_cons_self he
  | dropped position n ts msg hp =>
    have hstage : msg.place ∈ s.dlq.map (·.1) := (hg.processes w _ hp).stage
    rw [hp] at member
    refine moved member ?_ ?_ rfl rfl
    · simp only [Option.map_some, reader, held_next]
      exact .commit (List.Sublist.map _ (List.sublist_append_left _ [msg]))
        (List.mem_map_of_mem (List.mem_append_right _ (by simp)))
    · intro q q' hq hq' x hx
      cases hq
      cases hq'
      obtain ⟨f, hf, rfl⟩ := List.mem_map.mp hx
      rcases List.mem_append.mp hf with hf | hf
      · refine .inl ?_
        simp only [reader, held_next]
        exact List.mem_map_of_mem hf
      · rw [List.mem_singleton.mp hf]
        exact .inr (.inr hstage)
  | @produced itemResults began ended position task ts hp hids =>
    rw [hp] at member
    have hp : s.processes w = some ⟨position, .processing (task :: ts)⟩ := hp
    rw [unseen rfl (by simp [hp, reader, held])]
    refine .single (.answer w (s := answers s) member ?_)
    intro hx
    obtain ⟨record, hrecord, he⟩ := List.mem_map.mp hx
    exact hg'.apart (x := (task.fetched.place, _)) List.mem_cons_self hrecord he.symm
  | acked position task ts hp =>
    have hstage : task.fetched.place ∈ s.results.map (·.1) := (hg.processes w _ hp).stage
    rw [hp] at member
    refine moved member ?_ ?_ rfl rfl
    · simp only [Option.map_some, reader, held, List.map_cons]
      exact .commit (List.sublist_cons_self _ _) List.mem_cons_self
    · intro q q' hq hq' x hx
      cases hq
      cases hq'
      rcases List.mem_cons.mp hx with rfl | hx
      · exact .inr (.inl hstage)
      · exact .inl hx
  | batched position hp =>
    rw [hp] at member
    by_cases honce : (cfg w).once
    · refine moved member ?_ (fun q q' _ hq' => by simp [honce] at hq') rfl rfl
      simp only [honce, if_true, Option.map_none]
      exact .leave
    · have hp : s.processes w = some ⟨position, .processing []⟩ := hp
      have hsame : reader ⟨position, (cfg w).next 0 []⟩ = reader ⟨position, .processing []⟩ := by
        simp only [reader, held_next]
        rfl
      rw [unseen rfl (by simp [hp, honce, hsame])]
      exact .refl
  | failed k hp =>
    rw [hp] at member
    exact moved member .leave (fun q q' _ hq' => by cases hq') rfl rfl

/-- A producer chooses the partition by the key. -/
def Keyed (part : Bytes → Nat) (_ : Group.State) : Nat × Kafka.Action → Prop
  | (_, .publish p msg) => p = part msg.key
  | _ => True

/-- No rebalances, and records of one key in one partition. -/
def Regular (owner : Nat → Nat) (part : Bytes → Nat) (s : Group.State) (a : Nat × Kafka.Action) : Prop :=
  Group.Assigned owner s a ∧ Keyed part s a

/-- Each record is in the partition of its key. -/
def Placed (part : Bytes → Nat) (s : Group.State) : Prop := ∀ p, ∀ msg ∈ s.logs p, part msg.key = p

theorem step_placed (hok : Keyed part s (w, a)) (h : Placed part s)
    (hs : Group.step cfg s (w, a) = some s') : Placed part s' := by
  obtain ⟨k', hk', rfl⟩ := Option.map_eq_some_iff.mp hs
  cases kafka_move hk' with
  | @published p msg =>
    intro q m hm
    have hm : m ∈ Function.update s.logs p (s.logs p ++ [msg]) q := hm
    by_cases hq : q = p
    · subst hq
      rw [Function.update_self] at hm
      rcases List.mem_append.mp hm with hm | hm
      · exact h q m hm
      · rw [List.mem_singleton.mp hm]
        exact Eq.symm hok
    · rw [Function.update_of_ne hq] at hm
      exact h q m hm
  | _ => exact h

/-- What holds of the group in every reachable state. -/
structure Invariant (cfg : Nat → Config) (owner : Nat → Nat) (part : Bytes → Nat) (s : Group.State) :
    Prop where
  genuine : Genuine cfg owner s
  orderly : Answers.Orderly owner (answers s)
  placed : Placed part s

theorem step_invariant (h : Invariant cfg owner part s) (hok : Regular owner part s (w, a))
    (hs : Group.step cfg s (w, a) = some s') : Invariant cfg owner part s' :=
  ⟨step_genuine h.orderly.in_order h.genuine hs,
    Answers.steps_orderly h.orderly (answers_step hok.1 h.orderly.in_order h.genuine hs),
    step_placed hok.2 h.placed hs⟩

theorem reachable_invariant (h : Run (Group.step cfg) (Regular owner part) Group.initial s) :
    Invariant cfg owner part s := by
  refine h.invariant (fun s => Invariant cfg owner part s) ⟨⟨?_, ?_, ?_⟩, ?_, ?_⟩
    (fun _ _ _ hi hok hs => step_invariant hi hok hs)
  · simp [Group.initial]
  · simp [Group.initial]
  · simp [Group.initial]
  · exact Answers.empty_orderly owner (fun _ => 0)
  · simp [Placed, Group.initial]

/-- When the record at a place has got its first result, counted in results. -/
def firstAnswer (s : Group.State) (x : Nat × Nat) : Nat := (s.results.map (·.1)).reverse.idxOf x

/-- A DLQ record has the bytes of the record that it is for, as far as they are text. -/
structure Preserved (msg : Message) (record : DLQRecord) : Prop where
  key : record.key = msg.key
  task_key : Utf8.Valid msg.key → Utf8.encode record.value.taskKey = msg.key
  raw : Utf8.Valid msg.value → Utf8.encode record.value.rawMessage = msg.value

theorem Rejected.preserved (h : Rejected cfg owner logs x) (hm : (logs x.1.1)[x.1.2]? = some msg) :
    Preserved msg x.2 := by
  obtain ⟨msg', cause, failedAt, hm', _, hrecord⟩ := h
  obtain rfl : msg' = msg := Option.some.inj (hm'.symm.trans hm)
  rw [hrecord]
  exact ⟨rfl, fun hv => hv.encode_decode, fun hv => hv.encode_decode⟩

/-- While the partitions stay with their workers: every result is one of a valid record, every DLQ
record is one of an invalid record and keeps its text, and the records of a key get their first results
in the order in which they were published, whatever is read again after crashes. -/
theorem answered_in_order (h : Run (Group.step cfg) (Regular owner part) Group.initial s) :
    (∀ x ∈ s.results, Answered cfg owner s.logs x) ∧
    (∀ x ∈ s.dlq, Rejected cfg owner s.logs x ∧
      ∀ msg, (s.logs x.1.1)[x.1.2]? = some msg → Preserved msg x.2) ∧
    ∀ p q o o' m m', (s.logs p)[o]? = some m → (s.logs q)[o']? = some m' → m.key = m'.key →
      (p, o) ∈ s.results.map (·.1) → (q, o') ∈ s.results.map (·.1) →
      p = q ∧ (o < o' → firstAnswer s (p, o) < firstAnswer s (q, o')) := by
  have hi := reachable_invariant h
  refine ⟨hi.genuine.results, fun x hx => ?_, ?_⟩
  · exact ⟨hi.genuine.dlq x hx, fun msg hm => (hi.genuine.dlq x hx).preserved hm⟩
  intro p q o o' m m' hm hm' hkey ho ho'
  have hp : part m.key = p := hi.placed p m (List.mem_of_getElem? hm)
  have hq : part m'.key = q := hi.placed q m' (List.mem_of_getElem? hm')
  have hpq : p = q := by rw [← hp, ← hq, hkey]
  subst hpq
  exact ⟨rfl, hi.orderly.ascending.first ho ho'⟩

instance (part : Bytes → Nat) (s : Group.State) : (a : Nat × Kafka.Action) → Decidable (Keyed part s a)
  | (_, .publish p msg) => inferInstanceAs (Decidable (p = part msg.key))
  | (_, .fetch _) | (_, .start) | (_, .fetchTimeout) | (_, .writeDLQ _) | (_, .commitDLQ)
  | (_, .produce _ _ _) | (_, .ack) | (_, .batchDone) | (_, .fail) => .isTrue trivial

instance (owner : Nat → Nat) (part : Bytes → Nat) (s : Group.State) (a : Nat × Kafka.Action) :
    Decidable (Regular owner part s a) := inferInstanceAs (Decidable (_ ∧ _))

/-- Two records and an invalid one between them; the worker crashes before its first ack. -/
def twice : List (Nat × Kafka.Action) :=
  [(0, .publish 0 ⟨[], TaskOffsets.validValue⟩), (0, .publish 0 ⟨[], []⟩),
    (0, .publish 0 ⟨[], TaskOffsets.validValue⟩), (0, .start), (0, .fetch 0), (0, .fetchTimeout),
    (0, .produce [] 1 2), (0, .fail), (0, .start), (0, .fetch 0), (0, .fetchTimeout), (0, .produce [] 3 4),
    (0, .ack), (0, .batchDone), (0, .fetch 0), (0, .writeDLQ 5), (0, .commitDLQ), (0, .fetch 0),
    (0, .fetchTimeout), (0, .produce [] 6 7)]

theorem answered_in_order_twice : ∃ s : Group.State,
    s.results.length = 3 ∧ s.dlq.length = 1 ∧ firstAnswer s (0, 0) < firstAnswer s (0, 2) := by
  have hrun : ∃ s, replay (Group.step (fun _ => TaskOffsets.sample 3)) (Regular (fun _ => 0) (fun _ => 0))
      Group.initial twice = some s ∧ s.results.length = 3 ∧ s.dlq.length = 1 ∧
      (s.logs 0)[0]? = some ⟨[], TaskOffsets.validValue⟩ ∧
      (s.logs 0)[2]? = some ⟨[], TaskOffsets.validValue⟩ ∧
      (0, 0) ∈ s.results.map (·.1) ∧ (0, 2) ∈ s.results.map (·.1) :=
    ⟨_, rfl, rfl, rfl, rfl, rfl, by decide, by decide⟩
  obtain ⟨s, hs, hresults, hdlq, hm, hm', ho, ho'⟩ := hrun
  have h := answered_in_order (.of_replay hs)
  exact ⟨s, hresults, hdlq, (h.2.2 0 0 0 2 _ _ hm hm' rfl ho ho').2 (by decide)⟩

end FileDelivery.Proofs.AnswerOrder
