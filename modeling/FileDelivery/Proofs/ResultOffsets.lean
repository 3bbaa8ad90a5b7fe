import FileDelivery.Control.ResultConsumer
import FileDelivery.Library.Runs

namespace FileDelivery.Proofs.ResultOffsets
open FileDelivery.Library FileDelivery.Library.Runs
open FileDelivery.Control FileDelivery.Control.ResultConsumer

/-- A block is as good as reading its records one by one. -/
theorem read_block {P : Offsets.Reader → Prop} (hread : ∀ r, P r → P (r.read p)) (n : Nat)
    (h : P ⟨position, held⟩) :
    P ⟨Function.update position p (position p + (block log p (position p) n).length),
      held ++ (block log p (position p) n).map Fetched.place⟩ := by
  induction n generalizing position held with
  | zero => simpa [block] using h
  | succ n ih =>
    cases hv : log[position p]? with
    | none => simpa [block, hv] using h
    | some v =>
      have hnext := ih (hread _ h)
      simp only [Function.update_self, Function.update_idem] at hnext
      simp only [block, hv, List.length_cons, List.map_cons]
      convert hnext using 2
      · rw [Nat.add_right_comm, Nat.add_assoc]
      · rw [List.append_assoc]
        rfl

theorem block_within (n : Nat) {start : Nat} (h : start ≤ log.length) :
    start + (block log p start n).length ≤ log.length := by
  induction n generalizing start with
  | zero => simpa [block] using h
  | succ n ih =>
    cases hv : log[start]? with
    | none => simpa [block, hv] using h
    | some v =>
      have hmore := @ih (start + 1) (Nat.succ_le_of_lt (List.getElem?_eq_some_iff.mp hv).1)
      simp only [block, hv, List.length_cons]
      omega

/-- A fetch reads on from the positions and holds what it reads. -/
theorem fetch_reads {P : Offsets.Reader → Prop} (logs : Nat → List (Option DeliveryResultMessage))
    (partitions : List (Nat × Nat)) (acc : (Nat → Nat) × List Fetched)
    (hread : ∀ request ∈ partitions, ∀ r, P r → P (r.read request.1))
    (h : P ⟨acc.1, acc.2.map Fetched.place⟩) :
    P ⟨(partitions.foldl (take logs) acc).1, (partitions.foldl (take logs) acc).2.map Fetched.place⟩ := by
  induction partitions generalizing acc with
  | nil => exact h
  | cons request rest ih =>
    refine ih _ (fun r hr => hread r (List.mem_cons_of_mem _ hr)) ?_
    simp only [take, List.map_append]
    exact read_block (hread request List.mem_cons_self) request.2 h

theorem fetch_reached (logs : Nat → List (Option DeliveryResultMessage))
    (partitions : List (Nat × Nat)) (acc : (Nat → Nat) × List Fetched)
    (h : ∀ p, acc.1 p ≤ (logs p).length) (p : Nat) :
    (partitions.foldl (take logs) acc).1 p ≤ (logs p).length := by
  induction partitions generalizing acc with
  | nil => exact h p
  | cons request rest ih =>
    apply ih
    intro q
    by_cases hq : q = request.1
    · subst hq
      simp only [take, Function.update_self]
      exact block_within request.2 (h _)
    · simp only [take, Function.update_of_ne hq]
      exact h q

def reader (k : Consumer) : Offsets.Reader :=
  ⟨k.position, (k.unacked.toList ++ k.batch).map Fetched.place⟩

/-- What a consumer has done with the records below its positions. -/
structure Tracked (s : State) (k : Consumer) : Prop where
  accounted : Offsets.Accounted (fun p o => Applied s p o ∨ (p, o) ∈ k.left) (reader k)
  reached : ∀ p, k.position p ≤ (s.logs p).length
  current : ∀ r, k.unacked = some r → r.place ∈ s.applied

structure Invariant (s : State) : Prop where
  passed : NonePassed s
  tracked : ∀ c k, s.consumers c = some k → Tracked s k
  written : ∀ p, s.committed p ≤ (s.logs p).length

theorem applied_mono (h : Applied s p o) (hlogs : s'.logs = s.logs)
    (happ : s.applied ⊆ s'.applied) : Applied s' p o := by
  intro hm
  rw [hlogs] at hm
  exact happ (h hm)

/-- A log grows at its end. -/
theorem applied_append (ho : o < (s.logs p).length) (h : Applied s p o) :
    Applied { s with logs := Function.update s.logs q (s.logs q ++ [value]) } p o := by
  intro hm
  by_cases hp : p = q
  · subst hp
    simp only [Function.update_self, List.getElem?_append_left ho] at hm
    exact h hm
  · simp only [Function.update_of_ne hp] at hm
    exact h hm

theorem passed_mono (h : NonePassed s) (hlogs : s'.logs = s.logs)
    (hcomm : s'.committed = s.committed) (happ : s.applied ⊆ s'.applied) : NonePassed s' := by
  intro p o ho
  rw [hcomm] at ho
  exact applied_mono (h p o ho) hlogs happ

theorem Tracked.mono (h : Tracked s k) (hlogs : s'.logs = s.logs)
    (happ : s.applied ⊆ s'.applied) : Tracked s' k :=
  ⟨h.accounted.mono (fun _ _ _ => Or.imp_left (fun ha => applied_mono ha hlogs happ)),
    fun p => by rw [hlogs]; exact h.reached p, fun r hr => happ (h.current r hr)⟩

/-- A step that changes one consumer and no log. -/
theorem Invariant.of_set (h : Invariant s) (hset : s'.consumers = Function.update s.consumers c k)
    (hlogs : s'.logs = s.logs) (happ : s.applied ⊆ s'.applied) (hpassed : NonePassed s')
    (hwritten : ∀ p, s'.committed p ≤ (s.logs p).length)
    (htracked : ∀ j, k = some j → Tracked s' j) : Invariant s' := by
  refine ⟨hpassed, ?_, fun p => by rw [hlogs]; exact hwritten p⟩
  intro d j hj
  rw [hset] at hj
  by_cases hd : d = c
  · subst hd
    rw [Function.update_self] at hj
    exact htracked j hj
  · rw [Function.update_of_ne hd] at hj
    exact (h.tracked d j hj).mono hlogs happ

/-- A step that only moves a consumer on. -/
theorem Invariant.moved (h : Invariant s) (hk : Tracked s k) :
    Invariant { s with consumers := Function.update s.consumers c (some k) } := by
  refine h.of_set rfl rfl (fun _ hx => hx) h.passed h.written ?_
  intro j hj
  cases hj
  exact hk.mono rfl (fun _ hx => hx)

theorem produce_invariant (h : Invariant s) (p : Nat) (value : Option DeliveryResultMessage) :
    Invariant { s with logs := Function.update s.logs p (s.logs p ++ [value]) } := by
  have hlen : ∀ q, (s.logs q).length ≤ (Function.update s.logs p (s.logs p ++ [value]) q).length := by
    intro q
    by_cases hq : q = p
    · subst hq; simp
    · simp [Function.update_of_ne hq]
  refine ⟨?_, ?_, fun q => Nat.le_trans (h.written q) (hlen q)⟩
  · exact h.passed.mono (fun q o ho => applied_append (Nat.lt_of_lt_of_le ho (h.written q)))
  · intro c k hk
    have ht := h.tracked c k hk
    refine ⟨?_, fun q => Nat.le_trans (ht.reached q) (hlen q), ht.current⟩
    exact ht.accounted.mono (fun q o ho =>
      Or.imp_left (applied_append (Nat.lt_of_lt_of_le ho (ht.reached q))))

theorem fetched_tracked (h : Tracked s ⟨position, [], none, left⟩) (partitions : List (Nat × Nat)) :
    Tracked s (Consumer.getmany s.logs ⟨position, [], none, left⟩ partitions) := by
  have hacc := fetch_reads s.logs partitions (position, []) (fun request _ _ hr => hr.read request.1)
    h.accounted
  have hreach := fetch_reached s.logs partitions (position, []) h.reached
  simp only [Consumer.getmany]
  split
  · exact ⟨hacc, hreach, by simp⟩
  · refine ⟨?_, hreach, by simp⟩
    refine (hacc.mono ?_).release (List.nil_sublist _) ?_
    · intro p o _ hd
      exact hd.imp_right (List.mem_append_left _)
    · exact fun x hx _ => .inr (List.mem_append_right _ hx)

/-- The head of the batch was applied; the loop turns to its ack. -/
theorem leased_tracked (h : Tracked s ⟨position, record :: rest, none, left⟩)
    (hs : s'.logs = s.logs) (happ : s'.applied = record.place :: s.applied) :
    Tracked s' ⟨position, rest, some record, left⟩ := by
  have hmono := h.mono hs (happ ▸ List.subset_cons_self _ _)
  refine ⟨hmono.accounted, hmono.reached, ?_⟩
  intro r hr
  cases hr
  rw [happ]
  exact List.mem_cons_self

/-- The head of the batch was passed over. -/
theorem skipped_tracked (h : Tracked s ⟨position, record :: rest, none, left⟩) :
    Tracked s ⟨position, rest, none, left ++ [record.place]⟩ := by
  refine ⟨?_, h.reached, by simp⟩
  refine (h.accounted.mono ?_).release (List.sublist_cons_self _ _) ?_
  · intro p o _ hd
    exact hd.imp_right (List.mem_append_left _)
  · intro x hx hnot
    rcases List.mem_cons.mp hx with rfl | hx
    · exact .inr (by simp)
    · exact absurd hx hnot

theorem aborted_tracked (h : Tracked s k) : Tracked s k.abort := by
  refine ⟨?_, h.reached, by simp [Consumer.abort]⟩
  refine (h.accounted.mono ?_).release (List.nil_sublist _) ?_
  · intro p o _ hd
    exact hd.imp_right (List.mem_append_left _)
  · intro x hx _
    simp only [List.map_append, List.mem_append, List.mem_map, Option.mem_toList] at hx
    rcases hx with ⟨r, hr, rfl⟩ | ⟨r, hr, rfl⟩
    · exact .inl (fun _ => h.current r hr)
    · exact .inr (List.mem_append_right _ (List.mem_map_of_mem hr))

theorem acked_tracked (h : Tracked s ⟨position, rest, some record, left⟩) :
    Tracked s ⟨position, rest, none, left⟩ := by
  refine ⟨h.accounted.release (List.sublist_cons_self _ _) ?_, h.reached, by simp⟩
  intro x hx hnot
  rcases List.mem_cons.mp hx with rfl | hx
  · exact .inl (fun _ => h.current record rfl)
  · exact absurd hx hnot

/-- The records below an acked one are applied: the consumer did it, or left them
behind and the condition speaks, or they would still have to come. -/
theorem ack_passed (h : NonePassed s) (hk : Tracked s ⟨position, rest, some record, left⟩)
    (hleft : ∀ place ∈ Consumer.overtaken ⟨position, rest, some record, left⟩ record,
      Applied s place.1 place.2) :
    Offsets.Passed (Applied s) (Offsets.commit s.committed record.place) := by
  have happ := hk.current record rfl
  have hall := hk.accounted.commit (h.mono (fun _ _ _ => .inl)) List.mem_cons_self
    (.inl fun _ => happ) hk.accounted.head_first
  intro p o ho
  rcases hall p o ho with hd | hl
  · exact hd
  · by_cases hp : p = record.partition
    · subst hp
      simp only [Offsets.commit, Fetched.place, Function.update_self] at ho
      rcases Nat.lt_or_eq_of_le (Nat.le_of_lt_succ ho) with hlt | heq
      · exact hleft _ (List.mem_filter.mpr ⟨hl, by simp [hlt]⟩)
      · exact fun _ => heq ▸ happ
    · simp only [Offsets.commit, Fetched.place, Function.update_of_ne hp] at ho
      exact h p o ho

theorem ack_written (h : Invariant s) (hk : Tracked s ⟨position, rest, some record, left⟩)
    (p : Nat) : Offsets.commit s.committed record.place p ≤ (s.logs p).length := by
  by_cases hp : p = record.partition
  · subst hp
    simp only [Offsets.commit, Fetched.place, Function.update_self]
    exact Nat.le_trans (hk.accounted.below record.place List.mem_cons_self) (hk.reached _)
  · simp only [Offsets.commit, Fetched.place, Function.update_of_ne hp]
    exact h.written p

theorem step_invariant (h : Invariant s) (hok : InOrder s a) (hstep : step s a = some s') :
    Invariant s' := by
  cases a with
  | produce p value =>
    cases hstep
    exact produce_invariant h p value
  | start c =>
    simp only [step] at hstep
    split at hstep
    · cases hstep
      exact h.moved ⟨.resume (h.passed.mono (fun _ _ _ => .inl)), h.written, by simp⟩
    · cases hstep
  | getmany c partitions =>
    simp only [step] at hstep
    split at hstep
    · rename_i position left hc
      cases hstep
      exact h.moved (fetched_tracked (h.tracked c _ hc) partitions)
    · cases hstep
  | lease c acquired =>
    simp only [step] at hstep
    split at hstep
    · rename_i position record rest left hc
      have hk := h.tracked c _ hc
      split at hstep
      · cases hstep
        refine h.of_set rfl rfl (List.subset_cons_self _ _)
          (passed_mono h.passed rfl rfl (List.subset_cons_self _ _)) h.written ?_
        intro j hj
        cases hj
        exact leased_tracked hk rfl rfl
      · cases hstep
        exact h.moved (skipped_tracked hk)
    · cases hstep
  | ack c =>
    simp only [step] at hstep
    split at hstep
    · rename_i position rest record left hc
      cases hstep
      have hk := h.tracked c _ hc
      refine h.of_set rfl rfl (fun _ hx => hx) (ack_passed h.passed hk (hok _ hc _ rfl))
        (ack_written h hk) ?_
      intro j hj
      cases hj
      exact (acked_tracked hk).mono rfl (fun _ hx => hx)
    · cases hstep
  | abort c =>
    simp only [step] at hstep
    split at hstep
    · rename_i k hc
      cases hstep
      exact h.moved (aborted_tracked (h.tracked c k hc))
    · cases hstep
  | stop c =>
    simp only [step] at hstep
    split at hstep
    · cases hstep
      exact h.of_set rfl rfl (fun _ hx => hx) h.passed h.written (by simp)
    · cases hstep

theorem initial_invariant : Invariant initial :=
  ⟨fun _ o ho => absurd ho (Nat.not_lt_zero o), by simp [initial], fun _ => Nat.zero_le _⟩

/-- As long as no ack overtakes a record that was passed over, the committed offsets
pass applied records only. -/
theorem in_order_acks_pass_no_record (h : Run step InOrder initial s) : NonePassed s :=
  (h.invariant _ initial_invariant (fun _ _ _ hi hok hs => step_invariant hi hok hs)).passed

/-- A decodable result of task `t`. -/
def sample (t : Nat) : DeliveryResultMessage where
  topic := "delivery.results.v1"
  task_id := t
  status := "uploaded"
  uploaded := 0
  failed := 0
  processed := 0
  items := []
  started_at := 0
  ended_at := 0
  error := none

/-- Two results in one partition, each applied and acked in its turn. -/
theorem in_order_acks_pass_no_record_run : ∃ s, Run step InOrder initial s ∧
    s.committed 0 = 2 ∧ NonePassed s := by
  have hrun : ∃ s, replay step InOrder initial [.produce 0 (some (sample 1)),
      .produce 0 (some (sample 2)), .start 0, .getmany 0 [(0, 20)], .lease 0 true, .ack 0,
      .lease 0 true, .ack 0] = some s ∧ s.committed 0 = 2 := ⟨_, rfl, rfl⟩
  obtain ⟨s, hs, hc⟩ := hrun
  exact ⟨s, .of_replay hs, hc, in_order_acks_pass_no_record (.of_replay hs)⟩

/-- The lease on the first record is held elsewhere; the second one is applied, and
its ack passes the first, which nobody applied. -/
theorem skipped_record_is_passed : ¬ ∀ s, Run step Free initial s → NonePassed s := by
  have hrun : ∃ s, replay step Free initial [.produce 0 (some (sample 1)),
      .produce 0 (some (sample 2)), .start 0, .getmany 0 [(0, 20)], .lease 0 false,
      .lease 0 true, .ack 0] = some s ∧ s.committed 0 = 2 ∧
      (s.logs 0)[0]? = some (some (sample 1)) ∧ (0, 0) ∉ s.applied :=
    ⟨_, rfl, rfl, rfl, by decide⟩
  obtain ⟨s, hs, hc, hl, ha⟩ := hrun
  intro hall
  exact ha (hall s (.of_replay hs) 0 0 (by omega) (by simp [hl]))

end FileDelivery.Proofs.ResultOffsets
