import FileDelivery.Bridge.FileSpool
import FileDelivery.Library.Groups
import FileDelivery.Proofs.ResultOffsets
import FileDelivery.Proofs.TaskOffsets
import FileDelivery.Worker.Group

namespace FileDelivery.Proofs.AckedOnce
open FileDelivery.Library FileDelivery.Library.Runs FileDelivery.Library.Groups
open FileDelivery.Control FileDelivery.Worker FileDelivery.Bridge

/-- What a step of a worker does to its reader and to the offsets. -/
theorem kafka_moves {mine : Nat → Prop} (h : Kafka.step cfg s a = some s')
    (hmine : ∀ p, a = .fetch p → mine p) :
    (s'.committed = s.committed ∧ s'.process.map TaskOffsets.reader = s.process.map TaskOffsets.reader) ∨
      Move mine s.committed (s.process.map TaskOffsets.reader) s'.committed
        (s'.process.map TaskOffsets.reader) := by
  cases a with
  | publish p msg =>
    cases h
    exact .inl ⟨rfl, rfl⟩
  | start =>
    simp only [Kafka.step] at h
    split at h
    · rename_i hp
      cases h
      refine .inr ?_
      simp only [hp, Option.map_none, Option.map_some, TaskOffsets.reader, TaskOffsets.held_next,
        List.map_nil]
      exact .join
    · cases h
  | fetch p =>
    simp only [Kafka.step] at h
    split at h
    · rename_i position n ts hp
      obtain ⟨msg, _, rfl⟩ := Option.map_eq_some_iff.mp h
      refine .inr ?_
      simp only [hp, Option.map_some, TaskOffsets.reader, TaskOffsets.held_consume, List.map_append]
      exact .read (hmine p rfl)
    · cases h
  | fetchTimeout =>
    simp only [Kafka.step] at h
    split at h
    · rename_i hp
      split at h
      · cases h
        exact .inl ⟨rfl, by simp [hp, TaskOffsets.reader, TaskOffsets.held]⟩
      · cases h
    · cases h
  | writeDLQ failedAt =>
    simp only [Kafka.step] at h
    split at h
    · rename_i hp
      cases h
      exact .inl ⟨rfl, by simp [hp, TaskOffsets.reader, TaskOffsets.held]⟩
    · cases h
  | commitDLQ =>
    simp only [Kafka.step] at h
    split at h
    · rename_i position n ts msg hp
      cases h
      refine .inr ?_
      simp only [hp, Option.map_some, TaskOffsets.reader, TaskOffsets.held_next]
      exact .commit (List.Sublist.map _ (List.sublist_append_left _ [msg]))
        (List.mem_map_of_mem (List.mem_append_right _ (by simp)))
    · cases h
  | produce itemResults started ended =>
    simp only [Kafka.step] at h
    split at h
    · rename_i hp
      split at h
      · cases h
        exact .inl ⟨rfl, by simp [hp, TaskOffsets.reader, TaskOffsets.held]⟩
      · cases h
    · cases h
  | ack =>
    simp only [Kafka.step] at h
    split at h
    · rename_i position t ts hp
      cases h
      refine .inr ?_
      simp only [hp, Option.map_some, TaskOffsets.reader, TaskOffsets.held, List.map_cons]
      exact .commit (List.sublist_cons_self _ _) List.mem_cons_self
    · cases h
  | batchDone =>
    simp only [Kafka.step] at h
    split at h
    · rename_i position hp
      cases h
      by_cases honce : cfg.once
      · refine .inr ?_
        simp only [hp, honce, if_true, Option.map_some, Option.map_none]
        exact .leave
      · refine .inl ⟨rfl, ?_⟩
        simp only [hp, honce, Bool.false_eq_true, if_false, Option.map_some, TaskOffsets.reader,
          TaskOffsets.held_next]
        rfl
    · cases h
  | fail =>
    obtain ⟨k, hk, rfl⟩ := Option.map_eq_some_iff.mp h
    refine .inr ?_
    simp only [hk, Option.map_some, Option.map_none]
    exact .leave

def workers (s : Group.State) : Groups.Group :=
  ⟨s.committed, fun w => (s.processes w).map TaskOffsets.reader⟩

theorem map_update (f : Nat → Option α) (g : α → β) (w : Nat) (x : Option α) :
    (fun v => (Function.update f w x v).map g) = Function.update (fun v => (f v).map g) w (x.map g) := by
  funext v
  by_cases hv : v = w
  · subst hv
    simp
  · simp [Function.update_of_ne hv]

/-- The group of workers moves as a group of readers does. -/
theorem workers_step (hok : Group.Assigned owner s a) (h : Group.step cfg s a = some s') :
    Steps owner (workers s) (workers s') := by
  obtain ⟨w, a⟩ := a
  obtain ⟨k, hk, rfl⟩ := Option.map_eq_some_iff.mp h
  have hmine : ∀ p, a = .fetch p → owner p = w := by
    rintro p rfl
    exact hok
  have hworkers : workers (s.put w k) = ⟨k.committed,
      Function.update (workers s).members w (k.process.map TaskOffsets.reader)⟩ := by
    simp only [workers, Group.State.put, map_update]
  rcases kafka_moves hk hmine with ⟨hc, hr⟩ | hmove
  · have hsame : (workers s).members w = k.process.map TaskOffsets.reader := hr.symm
    rw [hworkers, hc, ← hsame, Function.update_eq_self]
    exact .refl
  · rw [hworkers]
    exact .single (.move w hmove)

theorem workers_run (h : Run (Group.step cfg) (Group.Assigned owner) s s') :
    Steps owner (workers s) (workers s') :=
  h.invariant (fun t => Steps owner (workers s) (workers t)) .refl
    (fun _ _ _ hi hok hs => hi.trans (workers_step hok hs))

/-- The ack of a worker. -/
theorem workers_ack (h : Group.step cfg s (w, .ack) = some s')
    (hp : s.processes w = some ⟨position, .acking task tasks⟩) :
    Acks w task.fetched.place (workers s) (workers s') := by
  obtain ⟨k, hk, rfl⟩ := Option.map_eq_some_iff.mp h
  simp only [Kafka.step, Group.State.view, hp] at hk
  cases hk
  refine ⟨position, (tasks.map (·.fetched)).map Kafka.Fetched.place, ?_, ?_⟩
  · simp only [workers, hp, Option.map_some]
    rfl
  · simp only [workers, Group.State.put, map_update, Option.map_some]
    rfl

/-- The tasks that worker `w` has from `Consume` and not acked, or is collecting there. -/
def inHand (s : Group.State) (w : Nat) : List Kafka.TaskMessage :=
  ((s.processes w).map (fun k => TaskOffsets.tasks k.stage)).getD []

theorem tasks_held (ht : task ∈ TaskOffsets.tasks stage) : task.fetched ∈ TaskOffsets.held stage := by
  cases stage with
  | acking first tasks =>
    rcases List.mem_cons.mp ht with rfl | ht
    · exact List.mem_cons_self
    · exact List.mem_cons_of_mem _ (List.mem_map_of_mem ht)
  | fetching n tasks => exact List.mem_map_of_mem ht
  | processing tasks => exact List.mem_map_of_mem ht
  | rejecting n tasks msg cause => exact List.mem_append_left _ (List.mem_map_of_mem ht)
  | dropping n tasks msg => exact List.mem_append_left _ (List.mem_map_of_mem ht)

theorem in_hand_held (ht : task ∈ inHand s w) :
    ∃ r, (workers s).members w = some r ∧ task.fetched.place ∈ r.held := by
  cases hp : s.processes w with
  | none => simp [inHand, hp] at ht
  | some k =>
    simp only [inHand, hp, Option.map_some, Option.getD_some] at ht
    exact ⟨TaskOffsets.reader k, by simp [workers, hp], List.mem_map_of_mem (tasks_held ht)⟩

/-- Without rebalances no worker gets a task again that was acked. -/
theorem worker_acked_once (hbefore : Run (Group.step cfg) (Group.Assigned owner) Group.initial s)
    (hp : s.processes w = some ⟨position, .acking task tasks⟩)
    (hack : Group.step cfg s (w, .ack) = some s')
    (hafter : Run (Group.step cfg) (Group.Assigned owner) s' s'') (v : Nat) :
    task.fetched.place ∉ (inHand s'' v).map (·.fetched.place) := by
  intro hm
  obtain ⟨again, hagain, he⟩ := List.mem_map.mp hm
  obtain ⟨r, hr, hheld⟩ := in_hand_held hagain
  rw [he] at hheld
  exact acked_not_held (workers_run hbefore) (workers_ack hack hp) (workers_run hafter) hr hheld

/-- Without rebalances a consumer asks for its own partitions only. -/
def Assigned (owner : Nat → Nat) (_ : ResultConsumer.State) : ResultConsumer.Action → Prop
  | .getmany c partitions => ∀ request ∈ partitions, owner request.1 = c
  | _ => True

def consumers (s : ResultConsumer.State) : Groups.Group :=
  ⟨s.committed, fun c => (s.consumers c).map ResultOffsets.reader⟩

/-- A consumer that moves on moves alone. -/
theorem consumers_set (s : ResultConsumer.State) (c : Nat) (k : Option ResultConsumer.Consumer) :
    consumers (s.set c k) =
      ⟨s.committed, Function.update (consumers s).members c (k.map ResultOffsets.reader)⟩ := by
  simp only [consumers, ResultConsumer.State.set, map_update]

/-- `getmany` is a sequence of reads. -/
theorem consumers_read {g : Groups.Group} {requests : List (Nat × Nat)}
    (acc : (Nat → Nat) × List ResultConsumer.Fetched)
    (logs : Nat → List (Option DeliveryResultMessage)) (hmine : ∀ request ∈ requests, owner request.1 = c)
    (hc : g.members c = some ⟨acc.1, acc.2.map ResultConsumer.Fetched.place⟩) :
    Steps owner g ⟨g.committed, Function.update g.members c
      (some ⟨(requests.foldl (ResultConsumer.take logs) acc).1,
        (requests.foldl (ResultConsumer.take logs) acc).2.map ResultConsumer.Fetched.place⟩)⟩ := by
  refine ResultOffsets.fetch_reads (P := fun r => Steps owner g
    ⟨g.committed, Function.update g.members c (some r)⟩) logs requests acc ?_ ?_
  · intro request hr r hsteps
    exact hsteps.tail (.again (.read (hmine request hr)) g.members)
  · rw [← hc, Function.update_eq_self]

/-- The ack of a result consumer. -/
theorem consumers_ack (h : ResultConsumer.step s (.ack c) = some s')
    (hc : s.consumers c = some ⟨position, rest, some record, left⟩) :
    Acks c record.place (consumers s) (consumers s') := by
  simp only [ResultConsumer.step, hc] at h
  cases h
  refine ⟨position, rest.map ResultConsumer.Fetched.place, ?_, ?_⟩
  · simp only [consumers, hc, Option.map_some]
    rfl
  · simp only [consumers, ResultConsumer.State.set, map_update, Option.map_some]
    rfl

/-- The group of result consumers moves as a group of readers does. -/
theorem consumers_step (hok : Assigned owner s a) (h : ResultConsumer.step s a = some s') :
    Steps owner (consumers s) (consumers s') := by
  cases a with
  | produce p value =>
    cases h
    exact .refl
  | start c =>
    simp only [ResultConsumer.step] at h
    split at h
    · rename_i hc
      cases h
      rw [consumers_set]
      refine .single (.move c ?_)
      simp only [consumers, hc, Option.map_none]
      exact .join
    · cases h
  | getmany c partitions =>
    simp only [ResultConsumer.step] at h
    split at h
    · rename_i position left hc
      cases h
      have hreads := consumers_read (g := consumers s) (position, []) s.logs hok
        (by simp [consumers, hc, ResultOffsets.reader])
      rw [consumers_set]
      simp only [ResultConsumer.Consumer.getmany]
      split
      · exact hreads
      · -- A record that does not decode: the whole batch is left behind.
        exact hreads.tail (.again (.release (List.nil_sublist _)) _)
    · cases h
  | lease c acquired =>
    simp only [ResultConsumer.step] at h
    split at h
    · rename_i position record rest left hc
      split at h
      · cases h
        have hsame : (consumers s).members c =
            some (ResultOffsets.reader ⟨position, rest, some record, left⟩) := by
          simp [consumers, hc, ResultOffsets.reader]
        show Steps owner (consumers s) (consumers (s.set c _))
        rw [consumers_set, Option.map_some, ← hsame, Function.update_eq_self]
        exact .refl
      · cases h
        rw [consumers_set]
        refine .single (.move c ?_)
        simp only [consumers, hc, Option.map_some]
        exact .release (List.sublist_cons_self _ _)
    · cases h
  | ack c =>
    simp only [ResultConsumer.step] at h
    split at h
    · rename_i position rest record left hc
      exact .single ((consumers_ack (by simpa only [ResultConsumer.step, hc] using h) hc).step owner)
    · cases h
  | abort c =>
    simp only [ResultConsumer.step] at h
    split at h
    · rename_i k hc
      cases h
      rw [consumers_set]
      refine .single (.move c ?_)
      simp only [consumers, hc, Option.map_some]
      exact .release (List.nil_sublist _)
    · cases h
  | stop c =>
    simp only [ResultConsumer.step] at h
    split at h
    · rename_i hc
      cases h
      rw [consumers_set]
      refine .single (.move c ?_)
      simp only [consumers, hc, Option.map_some, Option.map_none]
      exact .leave
    · cases h

theorem consumers_run (h : Run ResultConsumer.step (Assigned owner) s s') :
    Steps owner (consumers s) (consumers s') :=
  h.invariant (fun t => Steps owner (consumers s) (consumers t)) .refl
    (fun _ _ _ hi hok hs => hi.trans (consumers_step hok hs))

/-- The records that consumer `c` has from `getmany` and not acked. -/
def records (s : ResultConsumer.State) (c : Nat) : List ResultConsumer.Fetched :=
  ((s.consumers c).map (fun k => k.unacked.toList ++ k.batch)).getD []

/-- Without rebalances no consumer gets a record again that was acked. -/
theorem result_acked_once (hbefore : Run ResultConsumer.step (Assigned owner) ResultConsumer.initial s)
    (hc : s.consumers c = some ⟨position, rest, some record, left⟩)
    (hack : ResultConsumer.step s (.ack c) = some s')
    (hafter : Run ResultConsumer.step (Assigned owner) s' s'') (d : Nat) :
    record.place ∉ (records s'' d).map ResultConsumer.Fetched.place := by
  intro hm
  cases hd : s''.consumers d with
  | none => simp [records, hd] at hm
  | some k =>
    simp only [records, hd, Option.map_some, Option.getD_some] at hm
    exact acked_not_held (consumers_run hbefore) (consumers_ack hack hc) (consumers_run hafter)
      (v := d) (r := ResultOffsets.reader k) (by simp [consumers, hd]) hm

theorem get?_put (dir : Dict FileSpool.Entry) (h : file ≠ name) (content : Bytes) :
    (FileSpool.put dir file content).get? name = dir.get? name := by
  have hbeq : (name == file) = false := by simpa using Ne.symm h
  simp only [FileSpool.put, Dict.get?, List.lookup_cons, hbeq]
  induction dir.entries with
  | nil => rfl
  | cons e entries ih =>
    obtain ⟨key, entry⟩ := e
    simp only [ne_eq, decide_not] at ih
    by_cases he : key = file
    · subst he
      simp [ih, List.lookup_cons, hbeq]
    · simp [he, ih, List.lookup_cons]

/-- A step that does not write a file leaves it as it is. -/
theorem spool_keeps {r : FileSpool.Reader M} {s s' : FileSpool.State M}
    (hok : FileSpool.Keeps name s a) (h : FileSpool.step r s a = some s')
    (hfile : (s.dir.bind (·.get? name)) = some entry) : (s'.dir.bind (·.get? name)) = some entry := by
  cases a with
  | write task_id content =>
    simp only [FileSpool.step] at h
    split at h
    · cases h
    · cases h
      cases hd : s.dir with
      | none => simp [hd] at hfile
      | some dir => simpa [hd, get?_put dir hok content] using hfile
  | consume =>
    simp only [FileSpool.step] at h
    split at h
    · cases h
      exact hfile
    · cases h
  | ack =>
    simp only [FileSpool.step] at h
    split at h
    · cases h
      exact hfile
    · cases h
  | pass =>
    simp only [FileSpool.step] at h
    split at h
    · cases h
      exact hfile
    · cases h

theorem mapM_mem {f : α → Except ε β} {xs : List α} {ys : List β} (h : xs.mapM f = .ok ys)
    (hx : x ∈ xs) : ∃ y ∈ ys, f x = .ok y := by
  induction xs generalizing ys with
  | nil => cases hx
  | cons first rest ih =>
    rw [List.mapM_cons] at h
    cases hf : f first with
    | error e =>
      rw [hf] at h
      cases h
    | ok y =>
      cases hr : rest.mapM f with
      | error e =>
        rw [hf, hr] at h
        cases h
      | ok more =>
        rw [hf, hr] at h
        cases h
        rcases List.mem_cons.mp hx with rfl | hx
        · exact ⟨y, List.mem_cons_self, hf⟩
        · obtain ⟨z, hz, he⟩ := ih hr hx
          exact ⟨z, List.mem_cons_of_mem _ hz, he⟩

/-- A scan that succeeds returns the message of every file. -/
theorem scan_returns {r : FileSpool.Reader M} (h : r.scan (some dir) = .ok messages)
    (hfile : dir.get? name = some entry) (hjson : ".json".toList.isSuffixOf name)
    (hskip : r.skips entry = false) : ∃ m ∈ messages, r.read name entry = .ok m := by
  obtain ⟨before, after, hentries, _⟩ := List.lookup_eq_some_iff.mp hfile
  have hmem : (name, entry) ∈ FileSpool.jsonEntries dir := by
    refine (List.mem_insertionSort _).mpr (List.mem_filter.mpr ⟨?_, hjson⟩)
    simp [hentries]
  exact mapM_mem (f := fun e => r.read e.1 e.2) (x := (name, entry)) h
    (List.mem_filter.mpr ⟨hmem, by simp [hskip]⟩)

/-- Each worker of the group gets a task once it is acked no more. -/
def WorkersAckOnce (cfg : Nat → Kafka.Config) (owner : Nat → Nat) : Prop :=
  ∀ s s' s'' w v position task tasks, Run (Group.step cfg) (Group.Assigned owner) Group.initial s →
    s.processes w = some ⟨position, .acking task tasks⟩ → Group.step cfg s (w, .ack) = some s' →
    Run (Group.step cfg) (Group.Assigned owner) s' s'' →
    task.fetched.place ∉ (inHand s'' v).map (·.fetched.place)

/-- The same of the consumers of the results. -/
def ConsumersAckOnce (owner : Nat → Nat) : Prop :=
  ∀ s s' s'' c d position rest record left,
    Run ResultConsumer.step (Assigned owner) ResultConsumer.initial s →
    s.consumers c = some ⟨position, rest, some record, left⟩ →
    ResultConsumer.step s (.ack c) = some s' → Run ResultConsumer.step (Assigned owner) s' s'' →
    record.place ∉ (records s'' d).map ResultConsumer.Fetched.place

/-- A scan of the spool returns what is in the files, whatever was acked before. -/
def SpoolReturnsAgain (r : FileSpool.Reader M) : Prop :=
  ∀ s s' s'' name content, s.dir.bind (·.get? name) = some (.file content) →
    ".json".toList.isSuffixOf name → Run (FileSpool.step r) (FileSpool.Keeps name) s s' →
    FileSpool.step r s' .consume = some s'' →
    ∃ m ∈ s''.inHand, r.read name (.file content) = .ok m

theorem spool_returns_again (r : FileSpool.Reader M) (hskip : ∀ content, r.skips (.file content) = false) :
    SpoolReturnsAgain r := by
  intro s s' s'' name content hfile hjson hrun hconsume
  have hkept : s'.dir.bind (·.get? name) = some (.file content) :=
    hrun.invariant (fun t => t.dir.bind (·.get? name) = some (.file content)) hfile
      (fun _ _ _ hi hok hs => spool_keeps hok hs hi)
  simp only [FileSpool.step] at hconsume
  split at hconsume
  · rename_i messages hscan _
    cases hconsume
    obtain ⟨dir, hdir, hget⟩ := Option.bind_eq_some_iff.mp hkept
    rw [hdir] at hscan
    exact scan_returns hscan hget hjson (hskip content)
  · cases hconsume

/-- Over Kafka an acked message does not come back; over the spool the ack does nothing. -/
theorem acks_by_transport (cfg : Nat → Kafka.Config) (owner : Nat → Nat) (inboxDir : Text)
    (unmarshal : Bytes → Except Text DeliveryTask)
    (validate : Bytes → Except Text DeliveryResultMessage) :
    WorkersAckOnce cfg owner ∧ ConsumersAckOnce owner ∧
      SpoolReturnsAgain (FileSpool.Consume inboxDir unmarshal) ∧
      SpoolReturnsAgain (FileSpool.consume validate) := by
  refine ⟨?_, ?_, ?_, ?_⟩
  · intro s s' s'' w v position task tasks hbefore hp hack hafter
    exact worker_acked_once hbefore hp hack hafter v
  · intro s s' s'' c d position rest record left hbefore hc hack hafter
    exact result_acked_once hbefore hc hack hafter d
  · exact spool_returns_again _ (fun _ => rfl)
  · exact spool_returns_again _ (fun _ => rfl)

/-- A worker acks a task and fetches on: it gets the next message only. -/
theorem acked_task_is_behind : ∃ s, Run (Group.step (fun _ => TaskOffsets.sample 1))
      (Group.Assigned (fun _ => 0)) Group.initial s ∧
    (inHand s 0).map (·.fetched.place) = [(0, 1)] ∧ (0, 0) ∉ (inHand s 0).map (·.fetched.place) := by
  let message : Kafka.Message := ⟨[], TaskOffsets.validValue⟩
  have hbefore : ∃ s, Run (Group.step (fun _ => TaskOffsets.sample 1)) (Group.Assigned (fun _ => 0))
        Group.initial s ∧
      (∃ position task tasks, s.processes 0 = some ⟨position, .acking task tasks⟩ ∧
        task.fetched.place = (0, 0)) ∧
      ∃ s', Group.step (fun _ => TaskOffsets.sample 1) s (0, .ack) = some s' ∧
        ∃ s'', replay (Group.step (fun _ => TaskOffsets.sample 1)) (Group.Assigned (fun _ => 0)) s'
          [(0, .batchDone), (0, .fetch 0)] = some s'' ∧
          (inHand s'' 0).map (·.fetched.place) = [(0, 1)] :=
    ⟨_, .of_replay (show replay _ _ _ [(0, .publish 0 message), (0, .publish 0 message), (0, .start),
      (0, .fetch 0), (0, .produce [] 8 9)] = some _ from rfl), ⟨_, _, _, rfl, rfl⟩, _, rfl, _, rfl, rfl⟩
  obtain ⟨s, hrun, ⟨position, task, tasks, hp, hplace⟩, s', hack, s'', hafter, hnext⟩ := hbefore
  have hworkers := (acks_by_transport (fun _ => TaskOffsets.sample 1) (fun _ => 0) []
    (fun _ => .error []) (fun _ => .error [])).1
  have hgone := hworkers s s' s'' 0 0 position task tasks hrun hp hack (.of_replay hafter)
  rw [hplace] at hgone
  exact ⟨s'', (hrun.tail (by trivial) hack).trans (.of_replay hafter), hnext, hgone⟩

/-- A published task is consumed, acked and consumed again. -/
theorem spool_ack_is_forgotten :
    ¬∀ (r : FileSpool.Reader DeliveryTask) s s' s'' task rest,
      Run (FileSpool.step r) Free FileSpool.initial s → s.inHand = task :: rest →
      FileSpool.step r s .ack = some s' →
      Run (FileSpool.step r) (fun _ a => ∀ task_id content, a ≠ .write task_id content) s' s'' →
      task ∉ s''.inHand := by
  intro h
  let task : DeliveryTask := ⟨1, "t".toList, [], [], none⟩
  let r := FileSpool.Consume "delivery.tasks.v1".toList (fun _ => .ok task)
  have hbefore : ∃ s : FileSpool.State DeliveryTask, Run (FileSpool.step r) Free FileSpool.initial s ∧
      s.inHand = [task] ∧ ∃ s', FileSpool.step r s .ack = some s' ∧
        ∃ s'', FileSpool.step r s' .consume = some s'' ∧ s''.inHand = [task] :=
    ⟨_, .of_replay (show replay _ _ _ [.write "t".toList [], .consume] = some _ from rfl), rfl, _, rfl,
      _, rfl, rfl⟩
  obtain ⟨s, hrun, hs, s', hack, s'', hconsume, hagain⟩ := hbefore
  refine h r s s' s'' task [] hrun hs hack (.tail (.refl s') (by simp) hconsume) ?_
  simp [hagain]

end FileDelivery.Proofs.AckedOnce
