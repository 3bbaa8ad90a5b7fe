import FileDelivery.Bridge.Replay
import FileDelivery.Proofs.Checksums
import FileDelivery.Proofs.SourcesAgree
import FileDelivery.Proofs.UploadRuns

namespace FileDelivery.Proofs.Completion
open FileDelivery.Library FileDelivery.Library.Runs FileDelivery.Control FileDelivery.Bridge
open FileDelivery.Bridge.UploadTask (archiveOf)
open FileDelivery.Proofs.ApplyResult FileDelivery.Proofs.Effects FileDelivery.Proofs.Tables
open FileDelivery.Proofs.Flow FileDelivery.Proofs.Sources FileDelivery.Proofs.UploadRuns

/-- What an attempt at a delivery consists of: upload requests, workers without a fault and applications.
Before it the claim with the key may expire. -/
def Undertaken (key : Text) (_ : State) : Action → Prop
  | .uploadRead _ _ | .upload _ _ | .apply _ => True
  | .worker (.start _ _) | .worker (.produce _) => True
  | .worker (.item _ _ fault) => fault = none
  | .expire k => k = key
  | _ => False

/-- A request of the task has published its pending items; nothing else has happened to them. -/
structure Sent (cfg : Config) (s : State) (actor : CurrentActor) (task : Task) (s' : State) : Prop where
  run : Run (step cfg) (Undertaken (Tasks.upload_key actor task.id)) s s'
  message : ∃ source now, s'.messages = s.messages ++ [build_delivery_task_message task
    (Tasks.upload_items s.db actor task.id) cfg.settings.s3_bucket_name source none now]
  items : s'.db.items = s.db.items
  staged : cfg.settings.object_source = true → ∃ archive,
    s'.staging (cfg.settings.staging_bucket_name, Staging.stagingKey task.id) = some archive ∧
    ∀ m ∈ s'.messages.getLast?, m.source =
      some (Staging.sourceRef cfg.py cfg.settings.staging_bucket_name task.id archive)

variable {cfg : Config} {ok : State → Action → Prop} {key : Text} {s s₀ s' : State} {actor : CurrentActor}
  {task : Task} {u : UploadRequest} {items : List TaskItem} {source : Option SourceRef}

/-- Once its claim has expired nothing keeps a request out. -/
theorem acquire_free (enabled : Bool) {store : IdempotencyGuard.Store} {key : Text} (token : Nat)
    (h : store key = none) : ∃ claims, IdempotencyGuard.acquire enabled store key token = some claims := by
  unfold IdempotencyGuard.acquire
  cases enabled with
  | false => exact ⟨store, rfl⟩
  | true =>
    rw [h]
    exact ⟨_, rfl⟩

/-- The request lists its items, after its claim. -/
theorem listing_reached (hcheck : Tasks.upload_check s.db actor task.id = .ok task)
    (hnew : ∀ q ∈ s.uploads, q.rid < s.next_request) :
    ∃ claims, At (Undertaken (Tasks.upload_key actor task.id)) cfg s ⟨s.next_request, actor, task, .checked⟩
      (.listed (Tasks.upload_items s.db actor task.id))
      { s with claims := claims, next_request := s.next_request + 1 } := by
  let key := Tasks.upload_key actor task.id
  let free : State := { s with claims := Function.update s.claims key none }
  have hexpires : Undertaken key s (.expire key) := rfl
  have hexpired : Run (step cfg) (Undertaken key) s free := (Run.refl s).tail hexpires rfl
  have hread : At (Undertaken key) cfg free ⟨s.next_request, actor, task, .checked⟩ .checked
      { free with next_request := s.next_request + 1 } :=
    read_moves (s := free) hcheck hnew trivial (fun _ _ => trivial)
  obtain ⟨claims, hclaim⟩ := acquire_free cfg.settings.redis_idempotency_enabled s.next_request
    (show free.claims key = none from Function.update_self _ _ _)
  have hclaimed : At (Undertaken key) cfg free ⟨s.next_request, actor, task, .checked⟩ .claimed
      { free with next_request := s.next_request + 1, claims := claims } :=
    hread.move .acquire (acquire_effect hclaim) rfl
  have hlisted : At (Undertaken key) cfg free ⟨s.next_request, actor, task, .checked⟩
      (.listed (Tasks.upload_items s.db actor task.id))
      { free with next_request := s.next_request + 1, claims := claims } :=
    hclaimed.move .list rfl rfl
  exact ⟨claims, hlisted.others, hlisted.allowed, hexpired.trans hlisted.run⟩

theorem record_move {source : SourceRef} (h : At ok cfg s₀ u (.staged items source) s) :
    At ok cfg s₀ u (.ready items (some source))
      { s with db := EventRepo.append s.db u.task.id (.task_staged_source u.actor source) } :=
  h.move .record rfl rfl

theorem release_run (h : At ok cfg s₀ u .releasing s) :
    Run (step cfg) ok s₀ { s with
      claims := IdempotencyGuard.release cfg.settings.redis_idempotency_enabled s.claims u.key u.rid } :=
  h.leave .release rfl rfl

/-- From its publish on the request runs to its end. -/
theorem published_ends (h : At ok cfg s₀ u (.ready items source) s) :
    ∃ s', Run (step cfg) ok s₀ s' ∧
      s'.messages = s.messages ++ [build_delivery_task_message u.task items cfg.settings.s3_bucket_name
        source none s.db.now] ∧ s'.db.items = s.db.items ∧ s'.staging = s.staging := by
  let message := u.message cfg s.db items source
  have hpublished : At ok cfg s₀ u (.published message) (Bridge.publish s message) :=
    h.move .publish rfl rfl
  have hwritten : At ok cfg s₀ u (.written message) (Bridge.publish s message) :=
    hpublished.move .write rfl rfl
  have hcommitted : At ok cfg s₀ u .releasing { Bridge.publish s message with
      db := Tasks.queue_write cfg.settings s.db u.actor u.task.id message.items.length } :=
    hwritten.move .commit rfl rfl
  refine ⟨_, release_run hcommitted, rfl, ?_, rfl⟩
  exact (update_status_same s.db u.task.id .queued (some u.actor.tenant_id) none none).1

/-- A confirmed task's items can always be sent to the workers. -/
theorem request_sends (hcheck : Tasks.upload_check s.db actor task.id = .ok task)
    (hnew : ∀ q ∈ s.uploads, q.rid < s.next_request)
    (harchive : cfg.settings.object_source = true → ∃ archive, archiveOf s task = some archive) :
    ∃ s', Sent cfg s actor task s' := by
  obtain ⟨claims, hlisted⟩ : ∃ claims, At (Undertaken (Tasks.upload_key actor task.id)) cfg s
      ⟨s.next_request, actor, task, .checked⟩ (.listed (Tasks.upload_items s.db actor task.id))
      { s with claims := claims, next_request := s.next_request + 1 } :=
    listing_reached hcheck hnew
  cases hmode : cfg.settings.object_source with
  | true =>
    obtain ⟨archive, ha⟩ := harchive hmode
    have hstaged := stage_move hlisted hmode ha false
    obtain ⟨s', hrun, hmessages, hitems, hstaging⟩ := published_ends (record_move hstaged)
    refine ⟨s', hrun, ⟨_, _, hmessages⟩, hitems, fun _ => ⟨archive, ?_, ?_⟩⟩
    · rw [hstaging]
      exact Objects.put_self _
    · intro m hm
      rw [hmessages, List.getLast?_append] at hm
      cases hm
      rfl
  | false =>
    have hready : At (Undertaken (Tasks.upload_key actor task.id)) cfg s
        ⟨s.next_request, actor, task, .checked⟩ (.ready (Tasks.upload_items s.db actor task.id) none)
        { s with claims := claims, next_request := s.next_request + 1 } := by
      refine hlisted.move (.stage false) ?_ rfl
      simp only [uploadEffect, hmode]
      rfl
    obtain ⟨s', hrun, hmessages, hitems, _⟩ := published_ends hready
    exact ⟨s', hrun, ⟨_, _, hmessages⟩, hitems, fun h => by simp [hmode] at h⟩

/-- The workers find the archive of the run's task, where they read from archives. -/
def Served (cfg : Config) (s : State) (run : WorkerRun) : Prop :=
  cfg.archive_resolver = true → ∃ ref archive, run.task.source = some ref ∧
    s.staging (ref.bucket, ref.key) = some archive

/-- What is readable for an item of a run is what its worker resolves. -/
theorem readable_resolved {k : Nat} (hi : Invariant cfg s) (hg : Genuine cfg s) (hr : run ∈ s.runs)
    (hitem : (Worker.Pipeline.uploadItems run.task)[k]? = some item) (hserved : Served cfg s run)
    (hrow : Rows.find? s.db.items (ofIdText item.itemId) = some row)
    (hread : readable cfg s row = some bytes) : (resolve cfg s run item).1 = .ok bytes := by
  obtain ⟨m, spec, own, hmid, htask, _, rfl, hfind, ht, hdst, hsrc, hsource⟩ := run_item hi hr hitem
  have hsame : own = row := by
    rw [show ofIdText (itemToWorker spec).itemId = spec.item_id from ofIdText_idText _] at hrow
    exact Option.some.inj (hfind.symm.trans hrow)
  subst hsame
  obtain ⟨owner, hknown⟩ := (hi.messages m (List.mem_of_getElem? hmid)).known
  obtain ⟨dir, hdir, hread⟩ := Option.bind_eq_some_iff.mp hread
  rw [dirOf_known hi.tables hknown ht] at hdir
  unfold resolve
  split at hread
  · rename_i hmode
    obtain ⟨archive, harchive, hentry⟩ := Option.bind_eq_some_iff.mp hread
    obtain ⟨ref, stored, href, hstored⟩ := hserved hmode
    obtain ⟨m', hmid', _, rfl⟩ := run_source hi.messages (hi.work.runs run hr) href
    cases hmid.symm.trans hmid'
    have hname : Worker.Source.entryName (itemToWorker spec) = own.src_path := by
      rcases hsource with hn | hn
      · simp [Worker.Source.entryName, itemToWorker, hn, hsrc]
      · simp only [Worker.Source.entryName, itemToWorker, hn, Option.getD_some]
        split
        · exact hsrc.symm
        · rfl
    have hopen : ∀ a, ArchiveOf s m.task_id a →
        Worker.Source.openEntry (lookup cfg m.task_id) (itemToWorker spec) a = .ok bytes := by
      rintro a ⟨owner', dir', hknown', ha⟩
      obtain ⟨_, rfl⟩ := known_unique hi.tables hknown hknown'
      obtain ⟨d, hd, ha⟩ := Option.bind_eq_some_iff.mp ha
      have hsame : a = archive := by
        cases hdir.symm.trans hd
        exact Option.some.inj (ha.symm.trans harchive)
      rw [SourcesAgree.openEntry_ok, hname, hsame]
      exact hentry
    have hgot := (fetched_genuine hg run.worker m.task_id).1
    simp only [hmode, if_true, Worker.Source.resolveArchive, href]
    cases hfetch : Worker.Source.getArchive (s.caches run.worker) s.staging (lookup cfg m.task_id) with
    | mk fetched cache =>
      rw [hfetch] at hgot
      cases fetched with
      | ok a => exact hopen a (hgot a rfl)
      | error e =>
        -- A stored object is found, cached or not.
        unfold Worker.Source.getArchive at hfetch
        split at hfetch
        · cases hfetch
        · rw [hstored] at hfetch
          cases hfetch
  · rename_i hmode
    have hpath : (itemToWorker spec).srcPath = own.src_path := hsrc.symm
    have hplace : run.task.tempDir = m.temp_dir := by
      rw [htask]
      rfl
    simp only [hmode, Worker.Source.resolveFile, hplace, hdir, hpath, Option.bind_some, hread]
    rfl

/-- A worker's run of `m` in which nothing has failed so far, and nothing else has happened. -/
structure Faultless (key : Text) (cfg : Config) (m : DeliveryTaskMessage) (wid mid : Nat) (s₀ s : State) :
    Prop where
  run : Run (step cfg) (Undertaken key) s₀ s
  db : s.db = s₀.db
  dirs : s.dirs = s₀.dirs
  staging : s.staging = s₀.staging
  messages : s.messages = s₀.messages
  results : s.results = s₀.results
  own : ∃ run, Rows.find? s.runs wid = some run ∧ run.mid = mid ∧ run.produced = false ∧
    ∀ r, some r ∈ run.slots → r.status = "uploaded"

/-- Every slot of the run is filled. -/
def Full (wid : Nat) (s : State) : Prop := ∀ run ∈ Rows.find? s.runs wid, none ∉ run.slots

def emptySlots (wid : Nat) (s : State) : Nat :=
  ((Rows.find? s.runs wid).map (fun run => run.slots.count none)).getD 0

/-- The workers can read the item's source, and the sink takes it. -/
def Deliverable (cfg : Config) (s : State) (i : TaskItem) : Prop :=
  ∃ bytes, readable cfg s i = some bytes ∧ cfg.refuses i.dst_path bytes = none

/-- The workers can do all of `m` in `s`. -/
structure Workable (cfg : Config) (s : State) (m : DeliveryTaskMessage) : Prop where
  deliverable : ∀ spec ∈ m.items, ∀ row ∈ Rows.find? s.db.items spec.item_id, Deliverable cfg s row
  served : cfg.archive_resolver = true → ∃ ref archive, m.source = some ref ∧
    s.staging (ref.bucket, ref.key) = some archive

variable {m : DeliveryTaskMessage} {wid mid : Nat}

/-- The item of a run's slot. -/
theorem slot_item {k : Nat} (hi : Invariant cfg s) (hrun : run ∈ s.runs)
    (hm : s.messages[run.mid]? = some m) (hk : run.slots[k]? = some slot) :
    run.task = toWorker m ∧ ∃ spec ∈ m.items, ∃ row, Rows.find? s.db.items spec.item_id = some row ∧
      row.dst_path = spec.dst_path ∧ (Worker.Pipeline.uploadItems run.task)[k]? = some (itemToWorker spec) := by
  obtain ⟨m', hm', htask, hslots⟩ := (hi.work.runs run hrun).message
  cases hm.symm.trans hm'
  have hlt : k < m.items.length := hslots.length_eq ▸ (List.getElem?_eq_some_iff.mp hk).1
  have hitem : (Worker.Pipeline.uploadItems run.task)[k]? = some (itemToWorker m.items[k]) := by
    rw [htask, worker_items (hi.messages m (List.mem_of_getElem? hm)), List.getElem?_map,
      List.getElem?_eq_getElem hlt]
    rfl
  obtain ⟨_, spec, row, hm', _, hspec, _, hrow, _, hdst, _⟩ := run_item hi hrun hitem
  cases hm.symm.trans hm'
  rw [List.getElem?_eq_getElem hlt] at hspec
  cases hspec
  exact ⟨htask, m.items[k], List.getElem_mem hlt, row, hrow, hdst, hitem⟩

theorem count_filled {slots : List (Option α)} [BEq α] [LawfulBEq α] {k : Nat} {x : α}
    (hk : slots[k]? = some none) : (slots.set k (some x)).count none < slots.count none := by
  obtain ⟨hlt, hget⟩ := List.getElem?_eq_some_iff.mp hk
  have hpos : 0 < slots.count none := List.count_pos_iff.mpr (List.mem_of_getElem? hk)
  have hlower : slots.count none - 1 < slots.count none := Nat.sub_one_lt_of_lt hpos
  rw [List.count_set hlt, hget]
  simpa using hlower

theorem find_updated {ρ : Type} [Rows.Row ρ] {rows : List ρ} {f : ρ → ρ} {r : ρ} {k : Nat}
    (hf : ∀ r, Rows.Row.key (f r) = Rows.Row.key r) (h : Rows.find? rows k = some r) :
    Rows.find? (Rows.update rows k f) k = some (f r) := by
  rw [Rows.find_update hf, h, Option.map_some, if_pos rfl]

/-- An empty slot can be filled with an upload. -/
theorem Faultless.fill (h₀ : Run (step cfg) Free initial s₀) (hm : s₀.messages[mid]? = some m)
    (hwork : Workable cfg s₀ m) (h : Faultless key cfg m wid mid s₀ s) (hfull : ¬Full wid s) :
    ∃ a t, Undertaken key s a ∧ step cfg s a = some t ∧ Faultless key cfg m wid mid s₀ t ∧
      emptySlots wid t < emptySlots wid s := by
  obtain ⟨run, hfind, rfl, hnew, hslots⟩ := h.own
  obtain rfl : run.wid = wid := Rows.find_key hfind
  have hreach := h₀.trans h.run.free
  have hrun := Rows.find_mem hfind
  have hempty : none ∈ run.slots := by simpa [Full, hfind] using hfull
  obtain ⟨k, hk⟩ := List.mem_iff_getElem?.mp hempty
  obtain ⟨htask, spec, hspec, row, hrow, hdst, hitem⟩ := slot_item (reachable_flow hreach) hrun
    (h.messages ▸ hm) hk
  obtain ⟨bytes, hbytes, htaken⟩ := hwork.deliverable spec hspec row (h.db ▸ hrow)
  rw [hdst] at htaken
  have hread : readable cfg s row = some bytes := by
    simpa only [readable, dirOf, h.db, h.dirs] using hbytes
  have hserved : Served cfg s run := by
    intro hmode
    obtain ⟨ref, archive, href, hstored⟩ := hwork.served hmode
    exact ⟨sourceToWorker ref, archive, by rw [htask, toWorker, href]; rfl, h.staging ▸ hstored⟩
  have hres := readable_resolved (reachable_flow hreach) (reachable_genuine hreach) hrun hitem hserved
    (by simpa [itemToWorker] using hrow) hread
  have hstep : step cfg s (.worker (.item run.wid k none)) =
      some (runItem cfg s run k (itemToWorker spec) none) := by
    simp only [step, Bridge.worker, hfind, Option.bind_some, hk, if_true, hitem, Option.map_some]
  let result := Worker.Pipeline.uploadedItem (itemToWorker spec) (receipt cfg (itemToWorker spec) bytes)
  have htaken' : cfg.refuses (itemToWorker spec).dstPath bytes = none := htaken
  have hafter : Rows.find? (runItem cfg s run k (itemToWorker spec) none).runs run.wid =
      some { run with slots := run.slots.set k (some result) } := by
    simp only [runItem, hres, Checksums.faultless_item htaken']
    exact find_updated (fun _ => rfl) hfind
  have hallowed : Undertaken key s (.worker (.item run.wid k none)) := rfl
  refine ⟨_, _, hallowed, hstep, ⟨h.run.tail hallowed hstep, h.db, h.dirs, h.staging, h.messages,
    h.results, _, hafter, rfl, hnew, ?_⟩, ?_⟩
  · intro r hr
    rcases List.mem_or_eq_of_mem_set hr with hold | hnew
    · exact hslots r hold
    · cases hnew
      rfl
  · simpa only [emptySlots, hafter, hfind, Option.map_some, Option.getD_some] using count_filled hk

/-- The worker gets through the message. -/
theorem fills (h₀ : Run (step cfg) Free initial s₀) (hm : s₀.messages[mid]? = some m)
    (hwork : Workable cfg s₀ m) (h : Faultless key cfg m wid mid s₀ s) :
    ∃ t, Faultless key cfg m wid mid s₀ t ∧ Full wid t := by
  have hstep : ∀ u, Faultless key cfg m wid mid s₀ u → ¬(Faultless key cfg m wid mid s₀ u ∧ Full wid u) →
      ∃ a t, Undertaken key u a ∧ step cfg u a = some t ∧ Faultless key cfg m wid mid s₀ t ∧
        emptySlots wid t < emptySlots wid u := by
    intro u hu hnot
    exact Faultless.fill h₀ hm hwork hu (fun hfull => hnot ⟨hu, hfull⟩)
  obtain ⟨t, _, hdone⟩ := Run.progress (Faultless key cfg m wid mid s₀)
    (fun t => Faultless key cfg m wid mid s₀ t ∧ Full wid t) (emptySlots wid) hstep h
  exact ⟨t, hdone⟩

theorem started (hm : s₀.messages[mid]? = some m) (hnew : ∀ run ∈ s₀.runs, run.wid < s₀.next_request) :
    ∃ s, Faultless key cfg m s₀.next_request mid s₀ s := by
  let run : WorkerRun := ⟨s₀.next_request, mid, 0, toWorker m,
    (Worker.Pipeline.uploadItems (toWorker m)).map (fun _ => none), s₀.db.now, false⟩
  have hstep : step cfg s₀ (.worker (.start mid 0)) =
      some { s₀ with runs := s₀.runs ++ [run], next_request := s₀.next_request + 1 } := by
    simp only [step, Bridge.worker, hm, Option.map_some]
    rfl
  have hallowed : Undertaken key s₀ (.worker (.start mid 0)) := trivial
  refine ⟨_, (Run.refl s₀).tail hallowed hstep, rfl, rfl, rfl, rfl, rfl, run, ?_, rfl, rfl, ?_⟩
  · exact Rows.find_append_new (fun q hq => Nat.ne_of_lt (hnew q hq))
  · intro r hr
    obtain ⟨_, _, hnone⟩ := List.mem_map.mp hr
    cases hnone

theorem all_filled {slots : List (Option α)} (h : none ∉ slots) :
    ∃ results, slots.mapM id = some results := by
  induction slots with
  | nil => exact ⟨[], rfl⟩
  | cons slot slots ih =>
    obtain ⟨results, hresults⟩ := ih (List.not_mem_of_not_mem_cons h)
    cases slot with
    | none => exact absurd List.mem_cons_self h
    | some r => exact ⟨r :: results, by simp [hresults]⟩

/-- A message that the workers can do gets a result without a failure. -/
theorem produces (h₀ : Run (step cfg) Free initial s₀) (hm : s₀.messages[mid]? = some m)
    (hwork : Workable cfg s₀ m) :
    ∃ p s, Run (step cfg) (Undertaken key) s₀ s ∧ s.db = s₀.db ∧ s.messages = s₀.messages ∧
      s.results = s₀.results ++ [p] ∧ p.mid = mid ∧ p.message.status = "uploaded" ∧
      ∀ d ∈ p.message.items, d.status = "uploaded" := by
  obtain ⟨s, hs⟩ : ∃ s, Faultless key cfg m s₀.next_request mid s₀ s :=
    started hm (reachable_flow h₀).work.fresh
  obtain ⟨t, ht, hfull⟩ := fills h₀ hm hwork hs
  obtain ⟨run, hfind, hmid, hnew, hslots⟩ := ht.own
  obtain ⟨results, hresults⟩ := all_filled (hfull run hfind)
  have hup : ∀ r ∈ results, r.status = "uploaded" := by
    intro r hr
    refine hslots r ?_
    rw [RecipientIsolation.filled_slots hresults]
    exact List.mem_map_of_mem hr
  let result := Worker.processTask run.task results run.started t.db.now
  have hstatus : result.status = "uploaded" := by
    rcases Worker.processTask_status (s := run.started) (e := t.db.now) run.task results with
      ⟨hst, _⟩ | ⟨_, r, hr, hf⟩
    · exact hst
    · simp [hup r hr] at hf
  have hstep : step cfg t (.worker (.produce s₀.next_request)) = some { t with
      results := t.results ++ [⟨run.mid, toControl result⟩]
      runs := Rows.update t.runs s₀.next_request (fun r => { r with produced := true }) } := by
    simp only [step, Bridge.worker, hfind, Option.bind_some, hnew, WorkerRun.result, hresults,
      Option.map_some]
    rfl
  have hallowed : Undertaken key t (.worker (.produce s₀.next_request)) := trivial
  refine ⟨⟨run.mid, toControl result⟩, _, ht.run.tail hallowed hstep, ht.db, ht.messages,
    by rw [ht.results], hmid, hstatus, ?_⟩
  intro d hd
  obtain ⟨r, hr, rfl⟩ := List.mem_map.mp hd
  exact hup r hr

/-- The task is `uploaded`, and so is each of the items, with an object under its key. -/
structure Completed (cfg : Config) (t : Nat) (items : List TaskItem) (s : State) : Prop where
  status : statusOf s.db t = some .uploaded
  items : ∀ i ∈ items, ∃ row, Rows.find? s.db.items i.id = some row ∧ row.core = i.core ∧
    row.upload_status = .uploaded ∧ row.uploaded_at.isSome ∧
    (s.sink (cfg.settings.s3_bucket_name, i.dst_path)).isSome

/-- The application of a result without a failure completes the rows that its message was built from. -/
theorem applied_completes (h : Run (step cfg) Free initial s) (hp : s.results[pid]? = some p)
    (hm : s.messages[p.mid]? = some m) (hlist : m.items = items.map (.ofItem m.source))
    (hrows : ∀ i ∈ items, i ∈ s.db.items ∧ i.task_id = m.task_id)
    (hstatus : p.message.status = "uploaded") (hall : ∀ d ∈ p.message.items, d.status = "uploaded") :
    ∃ s', step cfg s (.apply pid) = some s' ∧ Completed cfg m.task_id items s' := by
  have hi : Invariant cfg s := reachable_flow h
  have hpmem := List.mem_of_getElem? hp
  obtain ⟨m', hm', htask, hanswers⟩ := (hi.work.results p hpmem).message
  cases hm.symm.trans hm'
  obtain ⟨owner, task, hmem, hid, _⟩ := (hi.messages m (List.mem_of_getElem? hm)).known
  have hfound : Rows.find? s.db.tasks m.task_id = some task := by
    have := Rows.find_of_mem hi.tables.task_ids hmem
    rwa [task_key, hid] at this
  have hget : TaskRepo.get s.db p.message.task_id none = some task := by
    rw [htask, get_unfiltered, hfound]
  let db := (apply_delivery_result cfg.settings.s3_bucket_name s.db p.message).1
  have hstep : step cfg s (.apply pid) = some { s with db := db, applied := pid :: s.applied } := by
    simp only [step, Bridge.apply, hp, Option.map_some]
    rfl
  have hreach : Run (step cfg) Free initial { s with db := db, applied := pid :: s.applied } :=
    h.tail trivial hstep
  refine ⟨_, hstep, ?_, ?_⟩
  · have htasks : db.tasks = Rows.update s.db.tasks m.task_id (settleTask p.message) := by
      rw [← htask]
      exact apply_tasks cfg.settings.s3_bucket_name s.db p.message
    have hset : Rows.find? db.tasks m.task_id = some (settleTask p.message task) :=
      htasks ▸ find_updated (fun _ => rfl) hfound
    simp [statusOf, hset, settleTask, hstatus, TaskStatus.ofString]
  · intro i hmem
    obtain ⟨hrow, hit⟩ := hrows i hmem
    obtain ⟨k, hk, rfl⟩ := List.mem_iff_getElem.mp hmem
    rw [hlist, List.forall₂_map_left_iff] at hanswers
    have hk' : k < p.message.items.length := hanswers.length_eq ▸ hk
    have hd : p.message.items[k] ∈ p.message.items := List.getElem_mem hk'
    have hentry : items[k].id = p.message.items[k].item_id := (hanswers.get hk hk').1.symm
    have hsettled : settle p.message items[k] =
        ItemRepo.setUpload .uploaded "" (some p.message.ended_at) items[k] :=
      settle_uploaded (result_entries hi hpmem).1 hd hentry (hit.trans htask.symm) (hall _ hd)
    have hfind : Rows.find? db.items items[k].id =
        some (ItemRepo.setUpload .uploaded "" (some p.message.ended_at) items[k]) := by
      have hold := Rows.find_of_mem hi.tables.item_ids hrow
      rw [item_key] at hold
      rw [apply_items cfg.settings.s3_bucket_name hi.tables.item_ids hget,
        Rows.find_map (fun r => (core_eq_fields settle_core).1), hold, Option.map_some, hsettled]
    refine ⟨_, hfind, rfl, rfl, rfl, ?_⟩
    obtain ⟨r, hr, hcert⟩ := (Checksums.reachable_truthful hreach).entries p hpmem _ hd
    obtain ⟨row, bytes, hrid, hatt, _⟩ := hcert (by simpa [hr, itemToControl] using hall _ hd)
    have hsame : row.id = items[k].id := by
      rw [hrid, hentry, hr]
      rfl
    have hrow' := hatt.found
    rw [hsame, hfind] at hrow'
    cases hrow'
    have hpath : items[k].dst_path = r.key := hatt.path
    rw [hpath]
    exact hatt.stored

/-- An item's readable bytes stay what they are; `i` is one of a task that is there. -/
theorem readable_kept (hi : Invariant cfg s) (hk : KnownTask s.db i.task_id owner dir)
    (hmem : i ∈ s.db.items) (h : Run (step cfg) Free s s') :
    Invariant cfg s' ∧ KnownTask s'.db i.task_id owner dir ∧ ∃ row, Rows.find? s'.db.items i.id = some row ∧
      row.core = i.core ∧ readable cfg s' row = readable cfg s i := by
  refine h.invariant (fun t => Invariant cfg t ∧ KnownTask t.db i.task_id owner dir ∧
    ∃ row, Rows.find? t.db.items i.id = some row ∧ row.core = i.core ∧
      readable cfg t row = readable cfg s i) ?_ ?_
  · have hfind := Rows.find_of_mem hi.tables.item_ids hmem
    rw [item_key] at hfind
    exact ⟨hi, hk, i, hfind, rfl, rfl⟩
  · rintro t a u ⟨ht, hknown, row, hrow, hcore, hread⟩ _ hs
    have g := step_grows ht.tables hs
    have hu := step_flow ht hs
    obtain ⟨row', hmem', hcore'⟩ := g.items ⟨row, Rows.find_mem hrow, rfl⟩
    have hid : row'.id = i.id := (core_eq_fields (hcore'.trans hcore)).1
    have hfind := Rows.find_of_mem hu.tables.item_ids hmem'
    rw [item_key, hid] at hfind
    have htask : row.task_id = i.task_id := (core_eq_fields hcore).2.1
    have htask' : row'.task_id = i.task_id := (core_eq_fields (hcore'.trans hcore)).2.1
    have hsrc : row'.src_path = row.src_path := (core_eq_fields hcore').2.2.1
    refine ⟨hu, g.tasks hknown, row', hfind, hcore'.trans hcore, Eq.trans ?_ hread⟩
    unfold readable
    rw [dirOf_known hu.tables (g.tasks hknown) htask', dirOf_known ht.tables hknown htask, g.dirs hknown,
      hsrc]

/-- An item is `uploaded` after a result where it was before, or the result says so. -/
theorem effects_uploaded (ds : List DeliveryResultItemSpec)
    (h : (ds.foldl (itemEffect p) i).upload_status = .uploaded) :
    i.upload_status = .uploaded ∨ ∃ d ∈ ds, d.status = "uploaded" ∧ i.id = d.item_id := by
  induction ds generalizing i with
  | nil => exact .inl h
  | cons d ds ih =>
    have hid : (itemEffect p i d).id = i.id := (core_eq_fields itemEffect_core).1
    rcases ih h with hnow | ⟨e, he, hrest⟩
    · unfold itemEffect at hnow
      split at hnow
      · rename_i hown
        split at hnow
        · rename_i hst
          exact .inr ⟨d, List.mem_cons_self, hst, hown.1⟩
        · split at hnow
          · cases hnow
          · exact .inl hnow
      · exact .inl hnow
    · rw [hid] at hrest
      exact .inr ⟨e, List.mem_cons_of_mem _ he, hrest⟩

/-- What is `uploaded` was deliverable. -/
def Sourced (cfg : Config) (s : State) : Prop :=
  ∀ i ∈ s.db.items, i.upload_status = .uploaded → Deliverable cfg s i

theorem step_sourced (hi : Invariant cfg s) (ht : Checksums.Truthful cfg s) (hs : step cfg s a = some s')
    (h : Sourced cfg s) : Sourced cfg s' := by
  have g := step_grows hi.tables hs
  have hi' := step_flow hi hs
  have kept : ∀ i i', i'.core = i.core → Deliverable cfg s i → Deliverable cfg s' i' := by
    rintro i i' hcore ⟨bytes, hbytes, htaken⟩
    obtain ⟨_, _, _, hdst, _⟩ := core_eq_fields hcore
    exact ⟨bytes, Checksums.readable_grow g hi'.tables hcore hbytes, hdst ▸ htaken⟩
  cases step_effect hs with
  | quiet _ he _ | created _ _ _ _ _ he _ _ | confirmed _ _ _ _ he _ | queued _ _ _ _ _ he _ =>
    intro i hmem hup
    exact kept i i rfl (h i (he ▸ hmem) hup)
  | classified rows _ _ hpending _ he _ _ =>
    intro i hmem hup
    rw [he] at hmem
    rcases List.mem_append.mp hmem with hmem | hmem
    · exact kept i i rfl (h i hmem hup)
    · rw [hpending i hmem] at hup
      cases hup
  | retried r _ _ _ _ he _ =>
    intro i hmem hup
    rw [he] at hmem
    obtain ⟨j, hj, rfl⟩ := List.mem_map.mp hmem
    unfold resetRow at hup ⊢
    split at hup
    · cases hup
    · rename_i hno
      rw [if_neg hno]
      exact kept j j rfl (h j hj hup)
  | applied p hp hdb =>
    intro i hmem hup
    rw [hdb] at hmem
    rcases apply_items_cases cfg.settings.s3_bucket_name hi.tables.item_ids p.message with
      ⟨_, hsame⟩ | hitems
    · exact kept i i rfl (h i (hsame ▸ hmem) hup)
    · rw [hitems] at hmem
      obtain ⟨j, hj, rfl⟩ := List.mem_map.mp hmem
      rcases effects_uploaded p.message.items hup with hold | ⟨d, hd, hst, hid⟩
      · exact kept j _ settle_core (h j hj hold)
      · obtain ⟨r, rfl, hcert⟩ := ht.entries p (List.mem_of_getElem? hp) d hd
        obtain ⟨row, bytes, hrid, hatt, _⟩ := hcert hst
        have hsame : row = j := Rows.eq_of_key hi.tables.item_ids (Rows.find_mem hatt.found) hj
          (hrid.trans hid.symm)
        subst hsame
        exact kept row _ settle_core ⟨bytes, hatt.source, hatt.path ▸ hatt.taken⟩

theorem reachable_sourced (h : Run (step cfg) ok initial s) : Sourced cfg s :=
  h.invariant_given (fun s => Sourced cfg s) (fun s => Invariant cfg s ∧ Checksums.Truthful cfg s)
    (fun _ ht => ⟨reachable_flow ht, Checksums.reachable_truthful ht⟩) (by simp [Sourced, initial])
    (fun _ _ _ ⟨hi, ht⟩ hinv _ hs => step_sourced hi ht hs hinv)

theorem listed_rows (h : i ∈ Tasks.upload_items db actor t) : i ∈ db.items ∧ i.task_id = t := by
  have hmem := (List.mem_insertionSort _).mp (List.mem_filter.mp h).1
  simp only [List.mem_filter, Bool.and_eq_true, beq_iff_eq] at hmem
  exact ⟨hmem.1, hmem.2.1⟩

/-- A readable item of the task leads to the task's archive. -/
theorem archive_there (hi : Invariant cfg s) (hk : KnownTask s.db i.task_id owner task.temp_dir)
    (hmode : cfg.archive_resolver = true) (hread : (readable cfg s i).isSome) :
    ∃ archive, archiveOf s task = some archive := by
  obtain ⟨bytes, hread⟩ := Option.isSome_iff_exists.mp hread
  obtain ⟨dir, hdir, hread⟩ := Option.bind_eq_some_iff.mp hread
  rw [if_pos hmode] at hread
  obtain ⟨archive, harchive, _⟩ := Option.bind_eq_some_iff.mp hread
  rw [dirOf_known hi.tables hk rfl] at hdir
  exact ⟨archive, Option.bind_eq_some_iff.mpr ⟨dir, hdir, harchive⟩⟩

/-- What stands in the row of an item of the task says nothing new about whether it can be delivered. -/
theorem deliverable_kept (hi : Invariant cfg s) (hk : KnownTask s.db task.id owner dir)
    (hitem : i ∈ Tasks.upload_items s.db actor task.id) (h : Run (step cfg) Free s s')
    (hrow : Rows.find? s'.db.items i.id = some row) : Deliverable cfg s' row ↔ Deliverable cfg s i := by
  obtain ⟨hdb, htask⟩ := listed_rows hitem
  obtain ⟨_, _, row', hrow', hcore, hsame⟩ := readable_kept hi (htask ▸ hk) hdb h
  obtain rfl : row' = row := Option.some.inj (hrow'.symm.trans hrow)
  obtain ⟨_, _, _, hdst, _⟩ := core_eq_fields hcore
  rw [Deliverable, Deliverable, hsame, hdst]

/-- The workers can do what the request has published. -/
theorem sent_workable (h : Run (step cfg) Free initial s) (hsent : Sent cfg s actor task s')
    (hmode : cfg.settings.object_source = cfg.archive_resolver)
    (hk : KnownTask s.db task.id owner dir)
    (hdeliver : ∀ i ∈ Tasks.upload_items s.db actor task.id, Deliverable cfg s i) :
    ∃ m, s'.messages[s.messages.length]? = some m ∧ m.task_id = task.id ∧
      m.items = (Tasks.upload_items s.db actor task.id).map (.ofItem m.source) ∧ Workable cfg s' m := by
  have hi : Invariant cfg s := reachable_flow h
  obtain ⟨source, now, hmessages⟩ := hsent.message
  let m := build_delivery_task_message task (Tasks.upload_items s.db actor task.id)
    cfg.settings.s3_bucket_name source none now
  have hm : s'.messages[s.messages.length]? = some m := by simp [hmessages, m]
  refine ⟨m, hm, rfl, rfl, ?_, ?_⟩
  · intro spec hspec row hrow
    obtain ⟨i, hmem, rfl⟩ := List.mem_map.mp hspec
    exact (deliverable_kept hi hk hmem hsent.run.free hrow).mpr (hdeliver i hmem)
  · intro hresolver
    obtain ⟨archive, hstored, hlast⟩ := hsent.staged (hmode.trans hresolver)
    have hsource : m.source = some (Staging.sourceRef cfg.py cfg.settings.staging_bucket_name task.id
        archive) := hlast m (by simp [hmessages, m])
    exact ⟨_, archive, hsource, hstored⟩

/-- A task that an upload request accepts, with deliverable items, is delivered by an attempt. -/
theorem attempt_completes (h : Run (step cfg) Free initial s)
    (hmode : cfg.settings.object_source = cfg.archive_resolver)
    (hcheck : Tasks.upload_check s.db actor task.id = .ok task)
    (hleft : Tasks.upload_items s.db actor task.id ≠ [])
    (hdeliver : ∀ i ∈ Tasks.upload_items s.db actor task.id, Deliverable cfg s i) :
    ∃ s', Run (step cfg) (Undertaken (Tasks.upload_key actor task.id)) s s' ∧
      Completed cfg task.id (Tasks.upload_items s.db actor task.id) s' := by
  have hi : Invariant cfg s := reachable_flow h
  have hk : KnownTask s.db task.id actor.tenant_id task.temp_dir :=
    read_known (upload_check_spec hcheck).1
  have harchive : cfg.settings.object_source = true → ∃ archive, archiveOf s task = some archive := by
    intro hobject
    obtain ⟨i, hmem⟩ := List.exists_mem_of_ne_nil _ hleft
    obtain ⟨_, htask⟩ := listed_rows hmem
    obtain ⟨bytes, hbytes, _⟩ := hdeliver i hmem
    exact archive_there hi (htask ▸ hk) (hmode.symm.trans hobject) (Option.isSome_of_eq_some hbytes)
  obtain ⟨sent, hsent⟩ := request_sends hcheck hi.requests.fresh harchive
  have hreach := h.trans hsent.run.free
  obtain ⟨m, hm, htask, hlist, hwork⟩ := sent_workable h hsent hmode hk hdeliver
  obtain ⟨p, done, hrun, hdb, hmessages, hresults, hmid, hstatus, hall⟩ := produces hreach hm hwork
  have hp : done.results[sent.results.length]? = some p := by simp [hresults]
  have hm' : done.messages[p.mid]? = some m := by rw [hmessages, hmid, hm]
  obtain ⟨s', hstep, hcompleted⟩ := applied_completes (hreach.trans hrun.free) hp hm' hlist
    (fun i hmem => by
      obtain ⟨hrow, ht⟩ := listed_rows hmem
      exact ⟨by rwa [hdb, hsent.items], ht.trans htask.symm⟩) hstatus hall
  have hallowed : Undertaken (Tasks.upload_key actor task.id) done (.apply sent.results.length) := trivial
  exact ⟨s', (hsent.run.trans hrun).tail hallowed hstep, htask ▸ hcompleted⟩

/-- An item that cannot be delivered is never `uploaded`. -/
theorem undeliverable_stays (h : Run (step cfg) Free initial s) (hk : KnownTask s.db task.id owner dir)
    (hitem : i ∈ Tasks.upload_items s.db actor task.id) (hbad : ¬Deliverable cfg s i)
    (hrun : Run (step cfg) Free s s') (hrow : Rows.find? s'.db.items i.id = some row) :
    row.upload_status ≠ .uploaded := by
  intro hup
  have hnow := reachable_sourced (h.trans hrun) row (Rows.find_mem hrow) hup
  exact hbad ((deliverable_kept (reachable_flow h) hk hitem hrun hrow).mp hnow)

/-- From every reachable state a task that an upload request accepts can be brought to `uploaded`, with
all its pending items delivered, by an attempt alone, if and only if the workers can read each of these
items and the sink takes it. What cannot be delivered never is, whatever else is done. The resolver of the
workers is the one that the messages are made for. -/
theorem confirmed_completes_iff (h : Run (step cfg) Free initial s)
    (hmode : cfg.settings.object_source = cfg.archive_resolver)
    (hcheck : Tasks.upload_check s.db actor task.id = .ok task)
    (hleft : Tasks.upload_items s.db actor task.id ≠ []) :
    ((∃ s', Run (step cfg) (Undertaken (Tasks.upload_key actor task.id)) s s' ∧
        Completed cfg task.id (Tasks.upload_items s.db actor task.id) s') ↔
      ∀ i ∈ Tasks.upload_items s.db actor task.id, Deliverable cfg s i) ∧
    ∀ i ∈ Tasks.upload_items s.db actor task.id, ¬Deliverable cfg s i →
      ∀ s', Run (step cfg) Free s s' → ∀ row ∈ Rows.find? s'.db.items i.id, row.upload_status ≠ .uploaded := by
  have hk : KnownTask s.db task.id actor.tenant_id task.temp_dir :=
    read_known (upload_check_spec hcheck).1
  refine ⟨⟨?_, attempt_completes h hmode hcheck hleft⟩, ?_⟩
  · rintro ⟨s', hrun, hdone⟩ i hmem
    by_contra hbad
    obtain ⟨row, hrow, _, hup, _⟩ := hdone.items i hmem
    exact undeliverable_stays h hk hmem hbad hrun.free hrow hup
  · intro i hmem hbad s' hrun row hrow
    exact undeliverable_stays h hk hmem hbad hrun hrow

instance (cfg : Config) (s : State) (i : TaskItem) : Decidable (Deliverable cfg s i) :=
  decidable_of_iff (∃ bytes ∈ readable cfg s i, cfg.refuses i.dst_path bytes = none) Iff.rfl

/-- A confirmed task with something to upload, all of it deliverable. -/
def Startable (task : Task) (s : State) : Prop :=
  Tasks.upload_check s.db Sample.actor task.id = .ok task ∧
    Tasks.upload_items s.db Sample.actor task.id ≠ [] ∧
    ∀ i ∈ Tasks.upload_items s.db Sample.actor task.id, Deliverable Sample.cfg s i

instance (task : Task) (s : State) : Decidable (Startable task s) := inferInstanceAs (Decidable (_ ∧ _))

/-- Two files, of which the first upload has failed for one; its task is retried. -/
def retried : List Action :=
  Sample.confirmed 0 0 [("acme/a.txt".toList, [1]), ("beta/b.txt".toList, [2])] ++ Sample.upload 0 1 ++
    Sample.run 2 0 [none, some (.limiter "later")] ++ [.apply 0] ++ Sample.retry 0 3

theorem confirmed_completes_retried : ∃ (s s' : State) (task : Task), task ∈ s.db.tasks ∧
    Run (step Sample.cfg) (Undertaken (Tasks.upload_key Sample.actor task.id)) s s' ∧
    statusOf s'.db task.id = some .uploaded := by
  obtain ⟨s, h, task, hmem, hcheck, hleft, hdeliver⟩ := run_of_replay Free
    (p := fun s => ∃ task ∈ s.db.tasks, Startable task s) Sample.cfg initial retried (by decide +kernel)
  obtain ⟨s', hrun, hdone⟩ := (confirmed_completes_iff h rfl hcheck hleft).1.mpr hdeliver
  exact ⟨s, s', task, hmem, hrun, hdone.status⟩

end FileDelivery.Proofs.Completion
