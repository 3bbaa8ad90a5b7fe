import FileDelivery.Proofs.Tables

namespace FileDelivery.Proofs.Flow
open FileDelivery.Library FileDelivery.Library.Runs FileDelivery.Library.Fallible
open FileDelivery.Control FileDelivery.Bridge
open FileDelivery.Proofs.Moves FileDelivery.Proofs.Effects FileDelivery.Proofs.Tables

/-- Rows of one task as a request lists them: pending, and of a severity to upload. -/
structure Listed (db : Db) (t : Nat) (items : List TaskItem) : Prop where
  ids : (items.map TaskItem.id).Nodup
  each : ∀ i ∈ items, i.task_id = t ∧ i.upload_status = .pending ∧ i.deliverable = true ∧
    Known db i.core

/-- The reference to the stored archive of a task's directory. -/
def Staged (cfg : Config) (s : State) (t : Nat) (dir : Text) (source : SourceRef) : Prop :=
  ∃ archive, (s.dirs dir).bind (·.archive) = some archive ∧
    source = Staging.sourceRef cfg.py cfg.settings.staging_bucket_name t archive

/-- What a message carries: rows of its task, and a reference to the task's archive. -/
structure MessageFlow (cfg : Config) (s : State) (m : DeliveryTaskMessage) : Prop where
  known : ∃ owner, KnownTask s.db m.task_id owner m.temp_dir
  items : ∃ items, Listed s.db m.task_id items ∧ m.items = items.map (.ofItem m.source)
  source : ∀ ref ∈ m.source, Staged cfg s m.task_id m.temp_dir ref

/-- What a request holds at its stage. -/
def StageFlow (cfg : Config) (s : State) (r : UploadRequest) : UploadStage → Prop
  | .listed items => Listed s.db r.task.id items
  | .staged items source =>
    Listed s.db r.task.id items ∧ Staged cfg s r.task.id r.task.temp_dir source
  | .ready items source => Listed s.db r.task.id items ∧
    ∀ ref ∈ source, Staged cfg s r.task.id r.task.temp_dir ref
  | .published message | .written message => message ∈ s.messages ∧ message.task_id = r.task.id
  | _ => True

structure RequestFlow (cfg : Config) (s : State) (r : UploadRequest) : Prop where
  known : KnownTask s.db r.task.id r.actor.tenant_id r.task.temp_dir
  stage : StageFlow cfg s r r.stage

/-- A filled slot is the result of its item. -/
def SlotFlow (spec : DeliveryItemSpec) (slot : Option Worker.DeliveryResultItem) : Prop :=
  ∀ r ∈ slot, r.itemId = idText spec.item_id ∧
    (r.status = "failed" ∨ r.status = "uploaded" ∧ r.key = spec.dst_path)

structure RunFlow (s : State) (run : WorkerRun) : Prop where
  message : ∃ m, s.messages[run.mid]? = some m ∧ run.task = toWorker m ∧
    List.Forall₂ SlotFlow m.items run.slots
  produced : run.produced = true → ∃ p ∈ s.results, p.mid = run.mid

/-- An entry of a result answers an item of the message. -/
def Answers (spec : DeliveryItemSpec) (d : DeliveryResultItemSpec) : Prop :=
  d.item_id = spec.item_id ∧ (d.status = "failed" ∨ d.status = "uploaded" ∧
    d.key = if spec.dst_path = [] then none else some spec.dst_path)

/-- The task status that a result announces, by its entries. -/
def Verdict (m : DeliveryResultMessage) : Prop :=
  (m.status = "uploaded" ∧ ∀ d ∈ m.items, d.status = "uploaded") ∨
    (m.status = "partial_failed" ∧ ∃ d ∈ m.items, d.status = "failed")

structure ResultFlow (s : State) (p : Produced) : Prop where
  message : ∃ m, s.messages[p.mid]? = some m ∧ p.message.task_id = m.task_id ∧
    List.Forall₂ Answers m.items p.message.items
  verdict : Verdict p.message

/-- Nothing that a message was built from goes away. -/
structure Grows (s s' : State) : Prop where
  items : Known s.db core → Known s'.db core
  tasks : KnownTask s.db t owner dir → KnownTask s'.db t owner dir
  dirs : KnownTask s.db t owner dir → s'.dirs dir = s.dirs dir
  messages : s.messages <+: s'.messages
  results : s.results <+: s'.results

/-- An entry stays where it is in a list that only grows. -/
theorem kept_at {l l' : List α} {k : Nat} (h : l <+: l') (hx : l[k]? = some x) : l'[k]? = some x := by
  obtain ⟨more, rfl⟩ := h
  rw [List.getElem?_append_left (List.getElem?_eq_some_iff.mp hx).1]
  exact hx

theorem Listed.grow (g : Grows s s') (h : Listed s.db t items) : Listed s'.db t items :=
  ⟨h.ids, fun i hi =>
    have ⟨ht, hp, hd, hk⟩ := h.each i hi
    ⟨ht, hp, hd, g.items hk⟩⟩

theorem Staged.grow (g : Grows s s') (hk : KnownTask s.db t owner dir)
    (h : Staged cfg s t dir source) : Staged cfg s' t dir source := by
  obtain ⟨archive, ha, hs⟩ := h
  exact ⟨archive, by rw [g.dirs hk, ha], hs⟩

theorem MessageFlow.grow (g : Grows s s') (h : MessageFlow cfg s m) : MessageFlow cfg s' m := by
  obtain ⟨owner, hk⟩ := h.known
  obtain ⟨items, hl, hi⟩ := h.items
  exact ⟨⟨owner, g.tasks hk⟩, ⟨items, hl.grow g, hi⟩, fun ref hr => (h.source ref hr).grow g hk⟩

theorem RequestFlow.grow (g : Grows s s') (h : RequestFlow cfg s r) : RequestFlow cfg s' r := by
  refine ⟨g.tasks h.known, ?_⟩
  have hstage := h.stage
  generalize r.stage = stage at hstage
  cases stage with
  | listed items => exact hstage.grow g
  | staged items source => exact ⟨hstage.1.grow g, hstage.2.grow g h.known⟩
  | ready items source =>
    exact ⟨hstage.1.grow g, fun ref hr => (hstage.2 ref hr).grow g h.known⟩
  | published m | written m => exact ⟨g.messages.subset hstage.1, hstage.2⟩
  | _ => trivial

theorem RunFlow.grow (g : Grows s s') (h : RunFlow s run) : RunFlow s' run := by
  obtain ⟨m, hm, hrest⟩ := h.message
  refine ⟨⟨m, kept_at g.messages hm, hrest⟩, ?_⟩
  intro hp
  obtain ⟨p, hp, he⟩ := h.produced hp
  exact ⟨p, g.results.subset hp, he⟩

theorem ResultFlow.grow (g : Grows s s') (h : ResultFlow s p) : ResultFlow s' p := by
  obtain ⟨m, hm, hrest⟩ := h.message
  exact ⟨⟨m, kept_at g.messages hm, hrest⟩, h.verdict⟩

/-- A new directory is not the one of a task that is already there. -/
theorem fresh_dir (h : Wellformed cfg db) (hk : KnownTask db t owner dir)
    (hn : db.next_id ≤ k) : dir ≠ cfg.settings.task_dir_base ++ ['/'] ++ idText k := by
  obtain ⟨row, hrow, hid, _, rfl⟩ := hk
  intro he
  rw [h.dirs row hrow] at he
  have := h.task_fresh row hrow
  have := idText_injective (List.append_cancel_left he)
  omega

theorem step_grows (h : Wellformed cfg s.db) (hs : step cfg s a = some s') : Grows s s' := by
  have hitems : ∀ core, Known s.db core → Known s'.db core :=
    fun _ => effect_known h (step_effect hs)
  have htasks : ∀ t owner dir, KnownTask s.db t owner dir → KnownTask s'.db t owner dir :=
    fun _ _ _ => effect_known_task (step_effect hs)
  have same : s'.dirs = s.dirs → s.messages <+: s'.messages → s.results <+: s'.results →
      Grows s s' :=
    fun hd hm hr => ⟨hitems _, htasks _ _ _, fun _ => by rw [hd], hm, hr⟩
  cases step_moves hs with
  | created db t dir hcreate =>
    obtain ⟨text, rfl, _⟩ := create_spec hcreate
    refine ⟨hitems _, htasks _ _ _, ?_, List.prefix_refl _, List.prefix_refl _⟩
    intro k owner path hk
    exact Function.update_of_ne (fresh_dir h hk (Nat.le_refl _)) _ _
  | requested r u next hr hmove =>
    generalize r.stage = stage at hmove
    cases hmove
    case published | sent => exact same rfl (List.prefix_append _ _) (List.prefix_refl _)
    all_goals exact same rfl (List.prefix_refl _) (List.prefix_refl _)
  | worked hmove =>
    cases hmove
    case produced => exact same rfl (List.prefix_refl _) (List.prefix_append _ _)
    all_goals exact same rfl (List.prefix_refl _) (List.prefix_refl _)
  | cleaned hmove => cases hmove <;> exact same rfl (List.prefix_refl _) (List.prefix_refl _)
  | _ => exact same rfl (List.prefix_refl _) (List.prefix_refl _)

/-- A task that is read is one of the actor's tenant. -/
theorem read_spec (h : Tasks.readTask db actor t = .ok task) :
    Rows.find? db.tasks t = some task ∧ task.owner_tenant_id = actor.tenant_id := by
  unfold Tasks.readTask at h
  split at h
  · split at h
    · rename_i row hget
      cases h
      obtain ⟨hfind, howner⟩ := Option.filter_eq_some_iff.mp hget
      have : actor.tenant_id = task.owner_tenant_id := by simpa [tenantAllows] using howner
      exact ⟨hfind, this.symm⟩
    · cases h
  · cases h

theorem read_known (h : Tasks.readTask db actor t = .ok task) :
    KnownTask db task.id actor.tenant_id task.temp_dir := by
  obtain ⟨hfind, howner⟩ := read_spec h
  exact ⟨task, Rows.find_mem hfind, rfl, howner, rfl⟩

theorem upload_check_spec (h : Tasks.upload_check db actor t = .ok task) :
    Tasks.readTask db actor t = .ok task ∧ task.status = .confirmed := by
  obtain ⟨row, hread, h⟩ := bind_ok.mp h
  split at h
  · cases h
  · rename_i hst
    cases h
    exact ⟨hread, by simpa using hst⟩

theorem checked_known (h : checked db kind actor t = .ok task) :
    KnownTask db task.id actor.tenant_id task.temp_dir := by
  cases kind with
  | retry => exact read_known h
  | confirm =>
    obtain ⟨row, hread, h⟩ := bind_ok.mp h
    split at h
    · cases h
    · split at h
      · cases h
      · cases h
        exact read_known hread

/-- Rows that an upload request selects. -/
theorem upload_items_listed (hn : (db.items.map TaskItem.id).Nodup) (actor : CurrentActor)
    (t : Nat) : Listed db t (Tasks.upload_items db actor t) := by
  have hsub : ∀ i ∈ ItemRepo.list_by_task db t (some actor.tenant_id), i ∈ db.items ∧ i.task_id = t := by
    intro i hi
    have := (List.mem_insertionSort _).mp hi
    simp only [List.mem_filter, Bool.and_eq_true, beq_iff_eq] at this
    exact ⟨this.1, this.2.1⟩
  refine ⟨?_, ?_⟩
  · have hperm : ((ItemRepo.list_by_task db t (some actor.tenant_id)).map TaskItem.id).Nodup :=
      ((List.perm_insertionSort _ _).map _).nodup_iff.mpr (hn.sublist (List.filter_sublist.map _))
    exact hperm.sublist (List.filter_sublist.map _)
  · intro i hi
    obtain ⟨hmem, hcond⟩ := List.mem_filter.mp hi
    simp only [Bool.and_eq_true, beq_iff_eq] at hcond
    obtain ⟨hdb, ht⟩ := hsub i hmem
    exact ⟨ht, hcond.2, hcond.1, i, hdb, rfl⟩

/-- Requests in progress: their keys are distinct and used up, and each holds what its
stage needs. -/
structure Requests (cfg : Config) (s : State) : Prop where
  rids : (s.uploads.map UploadRequest.rid).Nodup
  fresh : ∀ r ∈ s.uploads, r.rid < s.next_request
  each : ∀ r ∈ s.uploads, RequestFlow cfg s r
  writes : ∀ r ∈ s.writes, KnownTask s.db r.task.id r.actor.tenant_id r.task.temp_dir

/-- Messages on their topic. -/
def Messages (cfg : Config) (s : State) : Prop := ∀ m ∈ s.messages, MessageFlow cfg s m

/-- The data plane: runs and what they have produced. -/
structure Work (s : State) : Prop where
  wids : (s.runs.map WorkerRun.wid).Nodup
  fresh : ∀ run ∈ s.runs, run.wid < s.next_request
  runs : ∀ run ∈ s.runs, RunFlow s run
  results : ∀ p ∈ s.results, ResultFlow s p
  acked : ∀ mid ∈ s.acked, ∃ p ∈ s.results, p.mid = mid
  applied : ∀ pid ∈ s.applied, pid < s.results.length

/-- The message of a request that is ready to publish. -/
theorem message_flow (h : RequestFlow cfg s r) (hstage : r.stage = .ready items source) :
    MessageFlow cfg s (r.message cfg s.db items source) := by
  have hs := h.stage
  rw [hstage] at hs
  exact ⟨⟨_, h.known⟩, ⟨items, hs.1, rfl⟩, hs.2⟩

theorem step_messages (g : Grows s s') (hr : Requests cfg s) (h : Messages cfg s)
    (hs : step cfg s a = some s') : Messages cfg s' := by
  have old : s'.messages = s.messages → Messages cfg s' := by
    intro he m hm
    exact (h m (he ▸ hm)).grow g
  have new : ∀ m, s'.messages = s.messages ++ [m] → MessageFlow cfg s m → Messages cfg s' := by
    intro m he hflow
    rw [Messages, he]
    exact Rows.append_all (fun k hk => (h k hk).grow g) (hflow.grow g)
  cases step_moves hs with
  | requested r u next hfind hmove =>
    have hflow := hr.each r (Rows.find_mem hfind)
    generalize hstage : r.stage = stage at hmove
    cases hmove
    case published items source | sent items source =>
      exact new _ rfl (message_flow hflow hstage)
    all_goals exact old rfl
  | worked hmove => cases hmove <;> exact old rfl
  | cleaned hmove => cases hmove <;> exact old rfl
  | _ => exact old rfl

theorem handler_stage (h : Handler stage) : StageFlow cfg s r stage := by
  cases stage <;> trivial

/-- A request takes nothing away from the stage that its move leads to. -/
theorem move_stage (hn : (s.db.items.map TaskItem.id).Nodup) (h : RequestFlow cfg s r)
    (hmove : UploadMove cfg s r r.stage action u (some stage)) (g : Grows s s')
    (hu : s'.messages = u.messages) : StageFlow cfg s' r stage := by
  have hs := (h.grow g).stage
  generalize hold : r.stage = old at hmove hs
  generalize hnext : some stage = next at hmove
  cases hmove
  case listed =>
    cases hnext
    exact (upload_items_listed hn r.actor r.task.id).grow g
  case direct =>
    cases hnext
    exact ⟨hs, by simp⟩
  case stored items raised archive source harchive hsource =>
    cases raised
    · cases hnext
      exact ⟨hs, archive, by rw [g.dirs h.known, harchive], hsource⟩
    · cases hnext
      trivial
  case recorded items source =>
    cases hnext
    exact ⟨hs.1, by simpa using hs.2⟩
  case published =>
    cases hnext
    refine ⟨?_, rfl⟩
    rw [hu]
    exact List.mem_append_right _ (List.mem_singleton_self _)
  case written =>
    cases hnext
    exact hs
  case sent | unsent => exact handler_stage (afterException_handler hnext)
  case raised => exact handler_stage (raisedTo_handler hnext)
  all_goals (cases hnext; try trivial)

theorem Requests.frame (h : Requests cfg s) (g : Grows s s') (hu : s'.uploads = s.uploads)
    (hw : s'.writes = s.writes) (hn : s.next_request ≤ s'.next_request) : Requests cfg s' :=
  ⟨hu ▸ h.rids, fun r hr => Nat.lt_of_lt_of_le (h.fresh r (hu ▸ hr)) hn,
    fun r hr => (h.each r (hu ▸ hr)).grow g, fun r hr => g.tasks (h.writes r (hw ▸ hr))⟩

/-- A request that moves is the only one that changes. -/
theorem moved_uploads (hn : (uploads.map UploadRequest.rid).Nodup)
    (hr : Rows.find? uploads rid = some r) (next : Option UploadStage) :
    ((setStage uploads rid next).map UploadRequest.rid).Nodup ∧
      ∀ q ∈ setStage uploads rid next, (∃ stage, next = some stage ∧ q = { r with stage := stage }) ∨
        q ∈ uploads ∧ q.rid ≠ rid := by
  cases next with
  | none =>
    refine ⟨hn.sublist ((Rows.erase_sublist _ _).map _), fun q hq => .inr ?_⟩
    exact Rows.mem_erase.mp hq
  | some stage =>
    refine ⟨?_, ?_⟩
    · have hkeys : (setStage uploads rid (some stage)).map UploadRequest.rid =
          uploads.map UploadRequest.rid := Rows.update_map UploadRequest.rid (fun _ => rfl)
      rw [hkeys]
      exact hn
    · intro q hq
      rcases Rows.mem_update_cases hn hr hq with he | hq
      · exact .inl ⟨stage, rfl, he⟩
      · exact .inr hq

/-- What else a move of a request leaves alone. -/
theorem move_frame (h : UploadMove cfg s r stage action u next) :
    u.writes = s.writes ∧ u.next_request = s.next_request ∧ u.runs = s.runs ∧
      u.results = s.results ∧ u.acked = s.acked ∧ u.applied = s.applied := by
  cases h <;> exact ⟨rfl, rfl, rfl, rfl, rfl, rfl⟩

theorem step_requests (g : Grows s s') (hw : Wellformed cfg s.db) (h : Requests cfg s)
    (hs : step cfg s a = some s') : Requests cfg s' := by
  cases step_moves hs with
  | read task hread =>
    refine ⟨h.rids, fun r hr => Nat.lt_succ_of_lt (h.fresh r hr), fun r hr => (h.each r hr).grow g, ?_⟩
    exact Rows.append_all (fun r hr => g.tasks (h.writes r hr)) (g.tasks (checked_known hread))
  | wrote r hr =>
    exact ⟨h.rids, h.fresh, fun r hr => (h.each r hr).grow g,
      fun q hq => g.tasks (h.writes q ((Rows.erase_sublist _ _).subset hq))⟩
  | began task hcheck =>
    refine ⟨?_, ?_, ?_, fun r hr => g.tasks (h.writes r hr)⟩
    · exact Rows.append_nodup h.rids h.fresh
    · exact Rows.append_all (fun r hr => Nat.lt_succ_of_lt (h.fresh r hr)) (Nat.lt_succ_self _)
    · exact Rows.append_all (fun r hr => (h.each r hr).grow g)
        ⟨g.tasks (read_known (upload_check_spec hcheck).1), trivial⟩
  | requested r u next hfind hmove =>
    obtain ⟨hwrites, hnext, _⟩ := move_frame hmove
    obtain ⟨hrids, hmem⟩ := moved_uploads h.rids hfind next
    have hr := Rows.find_mem hfind
    refine ⟨hrids, ?_, ?_, fun q hq => g.tasks (h.writes q (hwrites ▸ hq))⟩
    · intro q hq
      change q.rid < u.next_request
      rw [hnext]
      rcases hmem q hq with ⟨stage, _, rfl⟩ | ⟨hq, _⟩
      · exact h.fresh r hr
      · exact h.fresh q hq
    · intro q hq
      rcases hmem q hq with ⟨stage, rfl, rfl⟩ | ⟨hq, _⟩
      · refine ⟨g.tasks (h.each r hr).known, ?_⟩
        have hstage := move_stage hw.item_ids (h.each r hr) hmove g rfl
        cases stage <;> exact hstage
      · exact (h.each q hq).grow g
  | worked hmove =>
    cases hmove
    case started => exact h.frame g rfl rfl (Nat.le_succ _)
    all_goals exact h.frame g rfl rfl (Nat.le_refl _)
  | cleaned hmove =>
    cases hmove
    case started => exact h.frame g rfl rfl (Nat.le_succ _)
    all_goals exact h.frame g rfl rfl (Nat.le_refl _)
  | _ => exact h.frame g rfl rfl (Nat.le_refl _)

/-- The items that a worker processes are all items of the message. -/
theorem worker_items (h : MessageFlow cfg s m) :
    Worker.Pipeline.uploadItems (toWorker m) = m.items.map itemToWorker := by
  obtain ⟨items, hl, hi⟩ := h.items
  refine List.filter_eq_self.mpr ?_
  intro w hw
  simp only [toWorker, hi, List.map_map, List.mem_map, Function.comp_apply] at hw
  obtain ⟨i, hmem, rfl⟩ := hw
  obtain ⟨_, hp, hd, _⟩ := hl.each i hmem
  exact uploadable_ofItem m.source hd hp

/-- A run that starts has an empty slot for each item. -/
theorem empty_slots (specs : List DeliveryItemSpec) :
    List.Forall₂ SlotFlow specs ((specs.map itemToWorker).map (fun _ => none)) := by
  rw [List.map_map, List.forall₂_map_right_iff]
  exact List.forall₂_same.mpr (fun _ _ => by simp [SlotFlow])

/-- What the pipeline reports about an item answers it. -/
theorem processed_slot (cfg : Config) (spec : DeliveryItemSpec) (resolved : Except String Bytes)
    (fault : Option ItemFault) :
    SlotFlow spec (some (Worker.Pipeline.processItem (itemToWorker spec)
      (resolveFault resolved fault) (limiterFault fault) (sinkFault cfg (itemToWorker spec) fault))) := by
  intro r hr
  cases hr
  refine ⟨Worker.Pipeline.processItem_itemId, ?_⟩
  unfold Worker.Pipeline.processItem
  split
  · exact .inl rfl
  · split
    · exact .inl rfl
    · split
      · exact .inl rfl
      · rename_i receipt hsink
        unfold sinkFault at hsink
        split at hsink
        · cases hsink
        · split at hsink
          · cases hsink
          · cases hsink
            exact .inr ⟨rfl, rfl⟩

theorem filled_slot (h : List.Forall₂ SlotFlow specs slots) (hspec : specs[k]? = some spec)
    (hslot : SlotFlow spec slot) : List.Forall₂ SlotFlow specs (slots.set k slot) := by
  induction h generalizing k with
  | nil => exact .nil
  | cons hhead htail ih =>
    cases k with
    | zero =>
      cases hspec
      exact .cons hslot htail
    | succ k => exact .cons hhead (ih (by simpa using hspec))

/-- Filled slots, sent as a result, answer the items of the message. -/
theorem answered (h : List.Forall₂ SlotFlow specs slots) (hs : slots.mapM id = some results) :
    List.Forall₂ Answers specs (results.map itemToControl) := by
  induction h generalizing results with
  | nil =>
    cases hs
    exact .nil
  | cons hhead htail ih =>
    rename_i spec slot specs slots
    simp only [List.mapM_cons, Option.bind_eq_bind, Option.bind_eq_some_iff] at hs
    obtain ⟨r, hr, rest, hrest, he⟩ := hs
    cases he
    obtain ⟨hid, hstatus⟩ := hhead r hr
    refine .cons ⟨by simp [itemToControl, hid], ?_⟩ (ih hrest)
    rcases hstatus with hf | ⟨hu, hk⟩
    · exact .inl hf
    · exact .inr ⟨hu, by simp [itemToControl, hk]⟩

/-- Without a failed entry every entry reports an upload. -/
theorem answers_uploaded (h : List.Forall₂ Answers specs ds) (hn : ∀ d ∈ ds, d.status ≠ "failed") :
    ∀ d ∈ ds, d.status = "uploaded" := by
  intro d hd
  obtain ⟨k, hk, rfl⟩ := List.mem_iff_getElem.mp hd
  have hpair := h.get (h.length_eq ▸ hk) hk
  rcases hpair.2 with hf | ⟨hu, _⟩
  · exact absurd hf (hn _ hd)
  · exact hu

theorem result_flow (h : RunFlow s run) (hr : run.result ended = some p) :
    p.mid = run.mid ∧ ResultFlow s p := by
  obtain ⟨m, hm, htask, hslots⟩ := h.message
  obtain ⟨results, hs, rfl⟩ := Option.map_eq_some_iff.mp hr
  have hanswers := answered hslots hs
  refine ⟨rfl, ⟨m, hm, by simp [toControl, htask, toWorker], hanswers⟩, ?_⟩
  rcases Worker.processTask_status (s := run.started) (e := ended) run.task results with
    ⟨hst, hall⟩ | ⟨hst, r, hmem, hf⟩
  · refine .inl ⟨hst, answers_uploaded hanswers ?_⟩
    intro d hd
    obtain ⟨r, hmem, rfl⟩ := List.mem_map.mp hd
    exact hall r hmem
  · exact .inr ⟨hst, itemToControl r, List.mem_map_of_mem hmem, hf⟩

theorem Work.frame (h : Work s) (g : Grows s s') (hr : s'.runs = s.runs)
    (hp : s'.results = s.results) (ha : s'.acked = s.acked) (ha' : s'.applied = s.applied)
    (hn : s.next_request ≤ s'.next_request) : Work s' :=
  ⟨hr ▸ h.wids, fun run hrun => Nat.lt_of_lt_of_le (h.fresh run (hr ▸ hrun)) hn,
    fun run hrun => (h.runs run (hr ▸ hrun)).grow g, fun p hm => (h.results p (hp ▸ hm)).grow g,
    fun mid hm => by rw [hp]; exact h.acked mid (ha ▸ hm),
    fun pid hm => by rw [hp]; exact h.applied pid (ha' ▸ hm)⟩

/-- A change to one run that keeps its key. -/
theorem updated_runs (h : Work s) (g : Grows s s') (hfind : Rows.find? s.runs wid = some run)
    (hkey : (f run).wid = run.wid) (hruns : s'.runs = Rows.update s.runs wid f)
    (hwid : ∀ run, (f run).wid = run.wid) (hnew : RunFlow s' (f run)) :
    (s'.runs.map WorkerRun.wid).Nodup ∧ (∀ run ∈ s'.runs, run.wid < s.next_request) ∧
      ∀ run ∈ s'.runs, RunFlow s' run := by
  rw [hruns]
  refine ⟨?_, ?_, ?_⟩
  · rw [Rows.update_map WorkerRun.wid hwid]
    exact h.wids
  · intro q hq
    rcases Rows.mem_update_cases h.wids hfind hq with rfl | ⟨hq, _⟩
    · rw [hkey]
      exact h.fresh run (Rows.find_mem hfind)
    · exact h.fresh q hq
  · intro q hq
    rcases Rows.mem_update_cases h.wids hfind hq with rfl | ⟨hq, _⟩
    · exact hnew
    · exact (h.runs q hq).grow g

theorem worker_work (g : Grows s s') (hm : Messages cfg s) (h : Work s)
    (hmove : WorkerMove cfg s action s') : Work s' := by
  have erased : ∀ wid, (∀ run ∈ Rows.erase s.runs wid, RunFlow s' run) := by
    intro wid run hrun
    exact (h.runs run ((Rows.erase_sublist _ _).subset hrun)).grow g
  cases hmove with
  | started m hmid =>
    refine ⟨?_, ?_, ?_, fun p hp => (h.results p hp).grow g, h.acked, h.applied⟩
    · exact Rows.append_nodup h.wids h.fresh
    · exact Rows.append_all (fun run hrun => Nat.lt_succ_of_lt (h.fresh run hrun)) (Nat.lt_succ_self _)
    · refine Rows.append_all (fun run hrun => (h.runs run hrun).grow g) ⟨⟨m, hmid, rfl, ?_⟩, by simp⟩
      rw [worker_items (hm m (List.mem_of_getElem? hmid))]
      exact empty_slots m.items
  | item run item hfind hslot hitem =>
    have hrun := h.runs run (Rows.find_mem hfind)
    obtain rfl : run.wid = _ := Rows.find_key hfind
    obtain ⟨m, hmid, htask, hslots⟩ := hrun.message
    rw [htask, worker_items (hm m (List.mem_of_getElem? hmid)), List.getElem?_map] at hitem
    obtain ⟨spec, hspec, rfl⟩ := Option.map_eq_some_iff.mp hitem
    have hslot := processed_slot cfg spec (resolve cfg s run (itemToWorker spec)).1
    obtain ⟨hn, hf, hruns⟩ := updated_runs h g hfind rfl rfl (fun _ => rfl)
      ⟨⟨m, hmid, htask, filled_slot hslots hspec (hslot _)⟩, hrun.produced⟩
    exact ⟨hn, hf, hruns, fun p hp => (h.results p hp).grow g, h.acked, h.applied⟩
  | produced run result hfind hnew hresult =>
    have hrun := h.runs run (Rows.find_mem hfind)
    obtain ⟨hmid, hflow⟩ := result_flow hrun hresult
    obtain ⟨hn, hf, hruns⟩ := updated_runs h g hfind rfl rfl (fun _ => rfl)
      ⟨(hrun.grow g).message, fun _ => ⟨result, by simp, hmid⟩⟩
    refine ⟨hn, hf, hruns, ?_, ?_, ?_⟩
    · exact Rows.append_all (fun p hp => (h.results p hp).grow g) (hflow.grow g)
    · intro mid hmem
      obtain ⟨p, hp, he⟩ := h.acked mid hmem
      exact ⟨p, List.mem_append_left _ hp, he⟩
    · intro pid hmem
      have := h.applied pid hmem
      simp only [List.length_append, List.length_singleton]
      omega
  | acked run hfind hdone =>
    have hrun := Rows.find_mem hfind
    refine ⟨h.wids.sublist ((Rows.erase_sublist _ _).map _),
      fun q hq => h.fresh q ((Rows.erase_sublist _ _).subset hq), erased _,
      fun p hp => (h.results p hp).grow g, ?_, h.applied⟩
    intro mid hmem
    rcases List.mem_cons.mp hmem with rfl | hmem
    · exact (h.runs run hrun).produced hdone
    · exact h.acked mid hmem
  | crashed run hfind =>
    exact ⟨h.wids.sublist ((Rows.erase_sublist _ _).map _),
      fun q hq => h.fresh q ((Rows.erase_sublist _ _).subset hq), erased _,
      fun p hp => (h.results p hp).grow g, h.acked, h.applied⟩

theorem step_work (g : Grows s s') (hm : Messages cfg s) (h : Work s)
    (hs : step cfg s a = some s') : Work s' := by
  cases step_moves hs with
  | read | began => exact h.frame g rfl rfl rfl rfl (Nat.le_succ _)
  | requested r u next hfind hmove =>
    obtain ⟨_, hn, hr, hp, ha, ha'⟩ := move_frame hmove
    exact h.frame g hr hp ha ha' (Nat.le_of_eq hn.symm)
  | worked hmove => exact worker_work g hm h hmove
  | applied p hp =>
    refine ⟨h.wids, h.fresh, fun run hrun => (h.runs run hrun).grow g,
      fun q hq => (h.results q hq).grow g, h.acked, ?_⟩
    intro pid hmem
    rcases List.mem_cons.mp hmem with rfl | hmem
    · exact (List.getElem?_eq_some_iff.mp hp).1
    · exact h.applied pid hmem
  | cleaned hmove =>
    cases hmove
    case started => exact h.frame g rfl rfl rfl rfl (Nat.le_succ _)
    all_goals exact h.frame g rfl rfl rfl rfl (Nat.le_refl _)
  | _ => exact h.frame g rfl rfl rfl rfl (Nat.le_refl _)

/-- What holds of the tables and of everything in flight, in every reachable state. -/
structure Invariant (cfg : Config) (s : State) : Prop where
  tables : Wellformed cfg s.db
  requests : Requests cfg s
  messages : Messages cfg s
  work : Work s

theorem step_flow (h : Invariant cfg s) (hs : step cfg s a = some s') : Invariant cfg s' :=
  have g := step_grows h.tables hs
  ⟨effect_wellformed h.tables (step_effect hs), step_requests g h.tables h.requests hs,
    step_messages g h.requests h.messages hs, step_work g h.messages h.work hs⟩

theorem initial_flow (cfg : Config) : Invariant cfg initial :=
  ⟨initial_wellformed cfg, ⟨.nil, by simp [initial], by simp [initial], by simp [initial]⟩,
    by simp [Messages, initial], ⟨.nil, by simp [initial], by simp [initial], by simp [initial],
      by simp [initial], by simp [initial]⟩⟩

theorem reachable_flow (h : Run (step cfg) ok initial s) : Invariant cfg s :=
  h.invariant (fun s => Invariant cfg s) (initial_flow cfg) (fun _ _ _ hi _ hs => step_flow hi hs)

/-- The entries of a result name distinct rows of its task. -/
theorem result_entries (h : Invariant cfg s) (hp : p ∈ s.results) :
    (p.message.items.map (·.item_id)).Nodup ∧ ∀ d ∈ p.message.items, ∃ row ∈ s.db.items,
      row.id = d.item_id ∧ row.task_id = p.message.task_id ∧ row.deliverable = true ∧
      (d.status = "failed" ∨ d.status = "uploaded" ∧
        d.key = if row.dst_path = [] then none else some row.dst_path) := by
  obtain ⟨m, hm, htask, hanswers⟩ := (h.work.results p hp).message
  obtain ⟨items, hl, hi⟩ := (h.messages m (List.mem_of_getElem? hm)).items
  rw [hi, List.forall₂_map_left_iff] at hanswers
  refine ⟨?_, ?_⟩
  · have hids : p.message.items.map (·.item_id) = items.map TaskItem.id := by
      refine List.ext_getElem (by simp [hanswers.length_eq]) (fun k hk hk' => ?_)
      simp only [List.length_map] at hk hk'
      simpa using (hanswers.get hk' hk).1
    rw [hids]
    exact hl.ids
  · intro d hd
    obtain ⟨k, hk, rfl⟩ := List.mem_iff_getElem.mp hd
    have hk' : k < items.length := hanswers.length_eq ▸ hk
    obtain ⟨hid, hstatus⟩ := hanswers.get hk' hk
    obtain ⟨ht, _, hdel, row, hrow, hcore⟩ := hl.each items[k] (List.getElem_mem hk')
    obtain ⟨hid', htask', _, hdst, hdel'⟩ := core_eq_fields hcore
    refine ⟨row, hrow, hid'.trans hid.symm, htask'.trans (ht.trans htask.symm), hdel'.trans hdel, ?_⟩
    rw [hdst]
    exact hstatus

end FileDelivery.Proofs.Flow
