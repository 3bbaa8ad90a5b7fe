import FileDelivery.Library.Runs
import FileDelivery.Worker.Kafka

namespace FileDelivery.Proofs.TaskOffsets
open FileDelivery.Library FileDelivery.Library.Runs FileDelivery.Control
open FileDelivery.Worker FileDelivery.Worker.Kafka

/-- The messages that a process has fetched and would forget in a crash. -/
def held : Stage → List Fetched
  | .fetching _ tasks => tasks.map (·.fetched)
  | .rejecting _ tasks msg _ => tasks.map (·.fetched) ++ [msg]
  | .dropping _ tasks msg => tasks.map (·.fetched) ++ [msg]
  | .processing tasks => tasks.map (·.fetched)
  | .acking task tasks => task.fetched :: tasks.map (·.fetched)

/-- The tasks among them. -/
def tasks : Stage → List TaskMessage
  | .fetching _ tasks => tasks
  | .rejecting _ tasks _ _ => tasks
  | .dropping _ tasks _ => tasks
  | .processing tasks => tasks
  | .acking task tasks => task :: tasks

def reader (k : Process) : Offsets.Reader := ⟨k.position, (held k.stage).map Fetched.place⟩

/-- What the place in the code says about the message in hand. -/
def StageHolds (cfg : Config) (s : State) : Stage → Prop
  | .fetching _ _ => True
  | .rejecting _ tasks msg cause => cfg.decode msg.message.value = .error cause ∧
      ∀ t ∈ tasks, t.fetched.partition ≠ msg.partition
  | .dropping _ tasks msg => Handled cfg s msg.place msg.message ∧
      ∀ t ∈ tasks, t.fetched.partition ≠ msg.partition
  | .processing _ => True
  | .acking task _ => Handled cfg s task.fetched.place task.fetched.message

structure Tracked (cfg : Config) (s : State) (k : Process) : Prop where
  accounted : Offsets.Accounted (Done cfg s) (reader k)
  present : ∀ f ∈ held k.stage, (s.logs f.partition)[f.offset]? = some f.message
  reached : ∀ p, k.position p ≤ (s.logs p).length
  decoded : ∀ t ∈ tasks k.stage, cfg.decode t.fetched.message.value = .ok t.task
  stage : StageHolds cfg s k.stage

structure Invariant (cfg : Config) (s : State) : Prop where
  none_lost : NoneLost cfg s
  tracked : ∀ k, s.process = some k → Tracked cfg s k
  written : ∀ p, s.committed p ≤ (s.logs p).length

theorem handled_mono (h : Handled cfg s place msg) (hr : s.results ⊆ s'.results)
    (hd : s.dlq ⊆ s'.dlq) : Handled cfg s' place msg := by
  unfold Handled at h ⊢
  split
  · rename_i task ht
    rw [ht] at h
    obtain ⟨itemResults, started, ended, hm⟩ := h
    exact ⟨itemResults, started, ended, hr hm⟩
  · rename_i cause hc
    rw [hc] at h
    obtain ⟨failedAt, hm⟩ := h
    exact ⟨failedAt, hd hm⟩

/-- Steps that write no log only ever get more done. -/
theorem done_mono (h : Done cfg s p o) (hl : s'.logs = s.logs) (hr : s.results ⊆ s'.results)
    (hd : s.dlq ⊆ s'.dlq) : Done cfg s' p o := by
  intro msg hm
  rw [hl] at hm
  exact handled_mono (h msg hm) hr hd

/-- A log grows at its end. -/
theorem done_append (ho : o < (s.logs p).length) (h : Done cfg s p o) :
    Done cfg { s with logs := Function.update s.logs q (s.logs q ++ [msg]) } p o := by
  intro m hm
  by_cases hp : p = q
  · subst hp
    simp only [Function.update_self, List.getElem?_append_left ho] at hm
    exact h m hm
  · simp only [Function.update_of_ne hp] at hm
    exact h m hm

theorem lookup_append {log : List Message} {o : Nat} (h : log[o]? = some msg) :
    (log ++ [more])[o]? = some msg :=
  (List.getElem?_append_left (List.getElem?_eq_some_iff.mp h).1).trans h

/-- The place of a message that is present in its log is done once it is handled. -/
theorem done_of_handled (h : Handled cfg s (p, o) msg) (hm : (s.logs p)[o]? = some msg) :
    Done cfg s p o := by
  intro m hm'
  rw [hm] at hm'
  cases hm'
  exact h

theorem publish_invariant (h : Invariant cfg s) (p : Nat) (msg : Message) :
    Invariant cfg { s with logs := Function.update s.logs p (s.logs p ++ [msg]) } := by
  have hlen : ∀ q, (s.logs q).length ≤ (Function.update s.logs p (s.logs p ++ [msg]) q).length := by
    intro q
    by_cases hq : q = p
    · subst hq; simp
    · simp [Function.update_of_ne hq]
  refine ⟨?_, ?_, fun q => Nat.le_trans (h.written q) (hlen q)⟩
  · exact h.none_lost.mono (fun q o ho => done_append (Nat.lt_of_lt_of_le ho (h.written q)))
  · intro k hk
    have ht := h.tracked k hk
    refine ⟨?_, ?_, fun q => Nat.le_trans (ht.reached q) (hlen q), ht.decoded, ?_⟩
    · exact ht.accounted.mono (fun q o ho => done_append (Nat.lt_of_lt_of_le ho (ht.reached q)))
    · intro f hf
      have hm := ht.present f hf
      by_cases hq : f.partition = p
      · subst hq
        simp only [Function.update_self]
        exact lookup_append hm
      · simp only [Function.update_of_ne hq]
        exact hm
    · have hs := ht.stage
      generalize k.stage = stage at hs
      cases stage <;> exact hs

@[simp] theorem held_next (cfg : Config) (n : Nat) (ts : List TaskMessage) :
    held (cfg.next n ts) = ts.map (·.fetched) := by
  unfold Config.next
  split <;> rfl

@[simp] theorem tasks_next (cfg : Config) (n : Nat) (ts : List TaskMessage) :
    tasks (cfg.next n ts) = ts := by
  unfold Config.next
  split <;> rfl

@[simp] theorem holds_next (cfg : Config) (s : State) (n : Nat) (ts : List TaskMessage) :
    StageHolds cfg s (cfg.next n ts) := by
  unfold Config.next
  split <;> trivial

@[simp] theorem held_consume (cfg : Config) (n : Nat) (ts : List TaskMessage) (msg : Fetched) :
    held (cfg.consume n ts msg) = ts.map (·.fetched) ++ [msg] := by
  unfold Config.consume
  split
  · rfl
  · simp

theorem decoded_consume {cfg : Config} (h : ∀ t ∈ ts, cfg.decode t.fetched.message.value = .ok t.task) :
    ∀ t ∈ tasks (cfg.consume n ts msg), cfg.decode t.fetched.message.value = .ok t.task := by
  unfold Config.consume
  split
  · exact h
  · rename_i task htask
    intro t ht
    simp only [tasks_next, List.mem_append, List.mem_singleton] at ht
    rcases ht with ht | rfl
    · exact h t ht
    · exact htask

theorem holds_consume (s : State)
    (h : (cfg.decode msg.message.value).isOk = false → ∀ t ∈ ts, t.fetched.partition ≠ msg.partition) :
    StageHolds cfg s (cfg.consume n ts msg) := by
  unfold Config.consume
  split
  · rename_i cause hc
    exact ⟨hc, h (by rw [hc]; rfl)⟩
  · simp

/-- A step in the loop over the process's memory that writes no log. -/
theorem Tracked.of_stage (h : Tracked cfg s ⟨position, st⟩) (hl : s'.logs = s.logs)
    (hr : s.results ⊆ s'.results) (hd : s.dlq ⊆ s'.dlq) (hheld : held st' = held st)
    (htasks : ∀ t ∈ tasks st', t ∈ tasks st) (hst : StageHolds cfg s' st') :
    Tracked cfg s' ⟨position, st'⟩ := by
  refine ⟨?_, ?_, fun p => by rw [hl]; exact h.reached p,
    fun t ht => h.decoded t (htasks t ht), hst⟩
  · have := h.accounted
    simp only [reader, hheld] at this ⊢
    exact this.mono (fun p o _ hdone => done_mono hdone hl hr hd)
  · intro f hf
    rw [hl]
    exact h.present f (hheld ▸ hf)

theorem start_tracked (h : Invariant cfg s) (hl : s'.logs = s.logs) (hr : s'.results = s.results)
    (hd : s'.dlq = s.dlq) : Tracked cfg s' ⟨s.committed, cfg.next 0 []⟩ := by
  refine ⟨?_, by simp, fun p => by rw [hl]; exact h.written p, by simp, by simp⟩
  simp only [reader, held_next, List.map_nil]
  refine .resume (h.none_lost.mono (fun p o _ hdone => done_mono hdone hl ?_ ?_))
  · rw [hr]; exact fun _ hx => hx
  · rw [hd]; exact fun _ hx => hx

theorem fetch_tracked (h : Tracked cfg s ⟨position, .fetching n ts⟩)
    (hm : (s.logs p)[position p]? = some msg)
    (halone : (cfg.decode msg.value).isOk = false → ∀ t ∈ ts, t.fetched.partition ≠ p) :
    Tracked cfg s ⟨Function.update position p (position p + 1),
      cfg.consume n ts ⟨p, position p, msg⟩⟩ := by
  refine ⟨?_, ?_, ?_, decoded_consume h.decoded, holds_consume s halone⟩
  · have hread := h.accounted.read p
    simp only [reader, held_consume, List.map_append]
    exact hread
  · intro f hf
    simp only [held_consume, List.mem_append, List.mem_singleton] at hf
    rcases hf with hf | rfl
    · exact h.present f hf
    · exact hm
  · intro q
    by_cases hq : q = p
    · subst hq
      simp only [Function.update_self]
      exact (List.getElem?_eq_some_iff.mp hm).1
    · simp only [Function.update_of_ne hq]
      exact h.reached q

theorem within_log (h : Tracked cfg s k) (hf : f ∈ held k.stage) :
    f.offset < (s.logs f.partition).length :=
  (List.getElem?_eq_some_iff.mp (h.present f hf)).1

theorem commit_written (h : Invariant cfg s) (hk : Tracked cfg s k) (hf : f ∈ held k.stage)
    (p : Nat) : commitMessages s.committed f p ≤ (s.logs p).length := by
  by_cases hp : p = f.partition
  · subst hp
    simp only [commitMessages, Offsets.commit, Fetched.place, Function.update_self]
    exact within_log hk hf
  · simp only [commitMessages, Offsets.commit, Fetched.place, Function.update_of_ne hp]
    exact h.written p

/-- The commit of a rejected message passes no task: the batch holds none of its
partition. -/
theorem drop_none_lost (h : Invariant cfg s) (hk : Tracked cfg s ⟨position, .dropping n ts msg⟩) :
    Offsets.Passed (Done cfg s) (commitMessages s.committed msg) := by
  have hheld : msg ∈ held (.dropping n ts msg) := List.mem_append_right _ (by simp)
  refine hk.accounted.commit h.none_lost (List.mem_map_of_mem hheld)
    (done_of_handled hk.stage.1 (hk.present msg hheld)) ?_
  intro y hy hp
  obtain ⟨f, hf, rfl⟩ := List.mem_map.mp hy
  simp only [held, List.mem_append, List.mem_map, List.mem_singleton] at hf
  rcases hf with ⟨t, ht, rfl⟩ | rfl
  · exact absurd hp (hk.stage.2 t ht)
  · exact Nat.le_refl _

theorem drop_tracked (hk : Tracked cfg s ⟨position, .dropping n ts msg⟩) :
    Tracked cfg s ⟨position, cfg.next n' ts⟩ := by
  have hheld : msg ∈ held (.dropping n ts msg) := List.mem_append_right _ (by simp)
  refine ⟨?_, ?_, hk.reached, ?_, by simp⟩
  · have hacc := hk.accounted
    simp only [reader, held_next]
    refine hacc.release ?_ ?_
    · exact List.Sublist.map _ (List.sublist_append_left _ [msg])
    · intro x hx hnot
      obtain ⟨f, hf, rfl⟩ := List.mem_map.mp hx
      rcases List.mem_append.mp hf with hf | hf
      · exact absurd (List.mem_map_of_mem hf) hnot
      · rw [List.mem_singleton.mp hf]
        exact done_of_handled hk.stage.1 (hk.present msg hheld)
  · intro f hf
    simp only [held_next] at hf
    exact hk.present f (List.mem_append_left _ hf)
  · simp only [tasks_next]
    exact hk.decoded

/-- The commit of a processed task passes none that is still to come: the batch is in
the order of the offsets. -/
theorem ack_none_lost (h : Invariant cfg s) (hk : Tracked cfg s ⟨position, .acking t ts⟩) :
    Offsets.Passed (Done cfg s) (commitMessages s.committed t.fetched) :=
  hk.accounted.commit h.none_lost List.mem_cons_self
    (done_of_handled hk.stage (hk.present t.fetched List.mem_cons_self)) hk.accounted.head_first

theorem ack_tracked (hk : Tracked cfg s ⟨position, .acking t ts⟩) :
    Tracked cfg s ⟨position, .processing ts⟩ := by
  refine ⟨?_, fun f hf => hk.present f (List.mem_cons_of_mem _ hf), hk.reached,
    fun u hu => hk.decoded u (List.mem_cons_of_mem _ hu), trivial⟩
  refine hk.accounted.release (List.sublist_cons_self _ _) ?_
  intro x hx hnot
  rcases List.mem_cons.mp hx with rfl | hx
  · exact done_of_handled hk.stage (hk.present t.fetched List.mem_cons_self)
  · exact absurd hx hnot

/-- A step that writes no log and commits nothing. -/
theorem Invariant.uncommitted (h : Invariant cfg s) (hl : s'.logs = s.logs)
    (hc : s'.committed = s.committed) (hr : s.results ⊆ s'.results) (hd : s.dlq ⊆ s'.dlq)
    (hk : ∀ k, s'.process = some k → Tracked cfg s' k) : Invariant cfg s' := by
  refine ⟨?_, hk, ?_⟩
  · unfold NoneLost
    rw [hc]
    exact h.none_lost.mono (fun p o _ hdone => done_mono hdone hl hr hd)
  · rw [hc, hl]
    exact h.written

/-- A step that only moves the process on. -/
theorem Invariant.moved (h : Invariant cfg s) (hk : Tracked cfg { s with process := some k } k) :
    Invariant cfg { s with process := some k } := by
  refine h.uncommitted rfl rfl (fun _ hx => hx) (fun _ hx => hx) ?_
  intro k' hk'
  cases hk'
  exact hk

theorem step_invariant (h : Invariant cfg s) (hok : RejectsAlone cfg s a)
    (hstep : step cfg s a = some s') : Invariant cfg s' := by
  cases a with
  | publish p msg =>
    cases hstep
    exact publish_invariant h p msg
  | start =>
    simp only [step] at hstep
    split at hstep
    · cases hstep
      exact h.moved (start_tracked h rfl rfl rfl)
    · cases hstep
  | fetch p =>
    simp only [step] at hstep
    split at hstep
    · rename_i position n ts hp
      obtain ⟨msg, hm, rfl⟩ := Option.map_eq_some_iff.mp hstep
      apply h.moved
      exact (fetch_tracked (h.tracked _ hp) hm (hok _ hp msg hm)).of_stage rfl
        (fun _ hx => hx) (fun _ hx => hx) rfl (fun _ hx => hx)
        (holds_consume _ (hok _ hp msg hm))
    · cases hstep
  | fetchTimeout =>
    simp only [step] at hstep
    split at hstep
    · rename_i position n ts hp
      split at hstep
      · cases hstep
        apply h.moved
        exact (h.tracked _ hp).of_stage rfl (fun _ hx => hx) (fun _ hx => hx) rfl
          (fun _ hx => hx) trivial
      · cases hstep
    · cases hstep
  | writeDLQ failedAt =>
    simp only [step] at hstep
    split at hstep
    · rename_i position n ts msg cause hp
      cases hstep
      have hk := h.tracked _ hp
      have hsub : s.dlq ⊆ (msg.place, cfg.produceDLQ msg.message cause failedAt) :: s.dlq :=
        List.subset_cons_self _ _
      refine h.uncommitted rfl rfl (fun _ hx => hx) hsub ?_
      intro k hk'
      cases hk'
      refine hk.of_stage rfl (fun _ hx => hx) hsub rfl (fun _ hx => hx) ⟨?_, hk.stage.2⟩
      simp only [Handled, hk.stage.1]
      exact ⟨failedAt, List.mem_cons_self⟩
    · cases hstep
  | commitDLQ =>
    simp only [step] at hstep
    split at hstep
    · rename_i position n ts msg hp
      cases hstep
      have hk := h.tracked _ hp
      refine ⟨drop_none_lost h hk, ?_,
        commit_written h hk (List.mem_append_right _ (by simp))⟩
      intro k hk'
      cases hk'
      exact (drop_tracked hk).of_stage rfl (fun _ hx => hx) (fun _ hx => hx) rfl
        (fun _ hx => hx) (by simp)
    · cases hstep
  | produce itemResults started ended =>
    simp only [step] at hstep
    split at hstep
    · rename_i position t ts hp
      split at hstep
      · cases hstep
        have hk := h.tracked _ hp
        have hsub : s.results ⊆
            (t.fetched.place, processTask t.task itemResults started ended) :: s.results :=
          List.subset_cons_self _ _
        refine h.uncommitted rfl rfl hsub (fun _ hx => hx) ?_
        intro k hk'
        cases hk'
        refine hk.of_stage rfl hsub (fun _ hx => hx) rfl (fun _ hx => hx) ?_
        simp only [StageHolds, Handled, hk.decoded t List.mem_cons_self]
        exact ⟨itemResults, started, ended, List.mem_cons_self⟩
      · cases hstep
    · cases hstep
  | ack =>
    simp only [step] at hstep
    split at hstep
    · rename_i position t ts hp
      cases hstep
      have hk := h.tracked _ hp
      refine ⟨ack_none_lost h hk, ?_, commit_written h hk List.mem_cons_self⟩
      intro k hk'
      cases hk'
      exact (ack_tracked hk).of_stage rfl (fun _ hx => hx) (fun _ hx => hx) rfl
        (fun _ hx => hx) trivial
    · cases hstep
  | batchDone =>
    simp only [step] at hstep
    split at hstep
    · rename_i position hp
      cases hstep
      refine h.uncommitted rfl rfl (fun _ hx => hx) (fun _ hx => hx) ?_
      intro k hk
      simp only at hk
      split at hk
      · cases hk
      · cases hk
        exact (h.tracked _ hp).of_stage rfl (fun _ hx => hx) (fun _ hx => hx) (held_next cfg 0 [])
          (by simp) (by simp)
    · cases hstep
  | fail =>
    obtain ⟨k, _, rfl⟩ := Option.map_eq_some_iff.mp hstep
    exact ⟨h.none_lost, by simp, h.written⟩

theorem initial_invariant (cfg : Config) : Invariant cfg initial :=
  ⟨fun _ o ho => absurd ho (Nat.not_lt_zero o), by simp [initial], fun _ => Nat.zero_le _⟩

/-- As long as the DLQ path only runs while the batch holds no task of the same
partition, a worker loses no message. -/
theorem rejects_alone_lose_no_message (cfg : Config) (h : Run (step cfg) (RejectsAlone cfg) initial s) :
    NoneLost cfg s :=
  (h.invariant _ (initial_invariant cfg)
    (fun _ _ _ hi hok hs => step_invariant hi hok hs)).none_lost

/-- The bytes of a valid task message. -/
def validValue : Bytes :=
  "\x7b\"schema_version\":1,\"task_id\":\"t\"\x7d".toList.map (·.toNat.toUInt8)

/-- A worker that sees the valid message above and empty ones. -/
def sample (batchSize : Int) : Config where
  batchSize := batchSize
  taskTopic := "delivery.tasks.v1"
  dlqTopic := "delivery.tasks.dlq.v1"
  workerId := "data-plane-worker"
  once := false
  unmarshal := fun value =>
    if value = [] then .error "unexpected end of JSON input" else .ok ⟨1, ['t'], [], [], none⟩

/-- An invalid message that opens the batch, and a valid one behind it. -/
theorem rejects_alone_lose_no_message_run :
    ∃ s, Run (step (sample 2)) (RejectsAlone (sample 2)) initial s ∧ s.committed 0 = 2 ∧
      NoneLost (sample 2) s := by
  have hrun : ∃ s, replay (step (sample 2)) (RejectsAlone (sample 2)) initial
      [.publish 0 ⟨[], []⟩, .publish 0 ⟨[], validValue⟩, .start, .fetch 0, .writeDLQ 7,
        .commitDLQ, .fetch 0, .produce [] 8 9, .ack] = some s ∧ s.committed 0 = 2 :=
    ⟨_, rfl, rfl⟩
  obtain ⟨s, hs, hc⟩ := hrun
  exact ⟨s, .of_replay hs, hc, rejects_alone_lose_no_message (sample 2) (.of_replay hs)⟩

/-- A batch of two with the invalid message second: its DLQ commit passes the valid
message, which is not processed yet; a crash now loses it. -/
theorem dlq_commit_loses_message :
    ¬ ∀ cfg s, Run (step cfg) Free initial s → NoneLost cfg s := by
  have hrun : ∃ s, replay (step (sample 2)) Free initial
      [.publish 0 ⟨[], validValue⟩, .publish 0 ⟨[], []⟩, .start, .fetch 0, .fetch 0,
        .writeDLQ 7, .commitDLQ, .fail] = some s ∧ s.committed 0 = 2 ∧
      (s.logs 0)[0]? = some ⟨[], validValue⟩ ∧ s.results = [] := ⟨_, rfl, rfl, rfl, rfl⟩
  obtain ⟨s, hs, hc, hl, hr⟩ := hrun
  intro hall
  have hlost := hall (sample 2) s (.of_replay hs) 0 0 (by omega) _ hl
  obtain ⟨itemResults, started, ended, hm⟩ := hlost
  rw [hr] at hm
  cases hm

end FileDelivery.Proofs.TaskOffsets
