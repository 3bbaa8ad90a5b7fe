import FileDelivery.Bridge.Replay
import FileDelivery.Proofs.Flow
import FileDelivery.Proofs.PythonBackend

namespace FileDelivery.Proofs.BackendsAgree
open FileDelivery.Library FileDelivery.Library.Runs FileDelivery.Library.Fallible FileDelivery.Control
open FileDelivery.Control.TaskRunner FileDelivery.Bridge FileDelivery.Bridge.Backends
open FileDelivery.Proofs.ApplyResult FileDelivery.Proofs.Flow FileDelivery.Proofs.RunSteps
open FileDelivery.Proofs.PythonBackend

variable {cfg : Config} {fs : FileSystem} {cwd : List Text} {db : Db} {actor : CurrentActor}
  {task : Task} {t rid : Nat} {started ended : Time}

/-- The bytes that a worker reads for an item. -/
def workerSource (fs : FileSystem) (cwd : List Text) (task : Task) (item : TaskItem) : Option Bytes :=
  fs (locate cwd (filepathJoin task.temp_dir item.src_path))

/-- The row that an upload request reads. -/
theorem checked_row (h : Tasks.upload_check db actor t = .ok task) :
    TaskRepo.get db t none = some task ∧ task.id = t ∧ task.owner_tenant_id = actor.tenant_id ∧
      task.status = .confirmed := by
  obtain ⟨hread, hst⟩ := upload_check_spec h
  obtain ⟨hfind, howner⟩ := Flow.read_spec hread
  exact ⟨(get_unfiltered db t).trans hfind, Rows.find_key hfind, howner, hst⟩

/-- Both backends find the task confirmed. -/
theorem run_check (h : Tasks.upload_check db actor t = .ok task) : check db t = .ok task := by
  obtain ⟨hget, _, _, hst⟩ := checked_row h
  simp [check, hget, hst]

/-- Both backends select the same items. -/
theorem mem_upload_items (h : Tasks.upload_check db actor t = .ok task) {i : TaskItem} :
    i ∈ Tasks.upload_items db actor task.id ↔ i ∈ uploadable db t := by
  obtain ⟨hget, rfl, howner, _⟩ := checked_row h
  have hallows : ItemRepo.ownerAllows db (some actor.tenant_id) task.id = true :=
    howner ▸ get_owner hget
  rw [mem_uploadable]
  simp [Tasks.upload_items, ItemRepo.list_by_task, hallows, and_assoc]

/-- The items that the worker gets. -/
theorem message_items (cfg : Config) (db : Db) (actor : CurrentActor) (task : Task) :
    Worker.Pipeline.uploadItems (toWorker (uploadMessage cfg db actor task)) =
      (Tasks.upload_items db actor task.id).map (fun i => itemToWorker (.ofItem none i)) := by
  have hitems : (toWorker (uploadMessage cfg db actor task)).items =
      (Tasks.upload_items db actor task.id).map (fun i => itemToWorker (.ofItem none i)) := by
    simp [toWorker, uploadMessage, build_delivery_task_message, Function.comp_def]
  rw [Worker.Pipeline.uploadItems, hitems]
  refine List.filter_eq_self.mpr ?_
  intro w hw
  obtain ⟨i, hi, rfl⟩ := List.mem_map.mp hw
  have hcond := (List.mem_filter.mp hi).2
  simp only [Bool.and_eq_true, beq_iff_eq] at hcond
  exact uploadable_ofItem none hcond.1 hcond.2

/-- The worker's source of an item, opened. -/
theorem open_source (fs : FileSystem) (cwd : List Text) (task : Task) (i : TaskItem)
    (message : DeliveryTaskMessage) (h : message.temp_dir = task.temp_dir) :
    (openSource fs cwd (toWorker message) (itemToWorker (.ofItem none i))).toOption =
      workerSource fs cwd task i := by
  have hpath : filepathJoin (toWorker message).tempDir (itemToWorker (.ofItem none i)).srcPath =
      filepathJoin task.temp_dir i.src_path := by
    rw [← h]
    rfl
  unfold openSource
  rw [hpath, workerSource]
  cases fs (locate cwd (filepathJoin task.temp_dir i.src_path)) <;> rfl

/-- The objects that the worker leaves are its items' sources under their destinations. -/
theorem worker_puts (h : Tasks.upload_check db actor t = .ok task) (put : Text × Bytes) :
    put ∈ workerPuts fs cwd (uploadMessage cfg db actor task) ↔
      ∃ i ∈ uploadable db t, i.dst_path = put.1 ∧ workerSource fs cwd task i = some put.2 := by
  have hopen := fun i => open_source fs cwd task i (uploadMessage cfg db actor task) rfl
  rw [workerPuts, message_items, List.mem_filterMap]
  constructor
  · rintro ⟨w, hw, hput⟩
    obtain ⟨i, hi, rfl⟩ := List.mem_map.mp hw
    rw [hopen] at hput
    obtain ⟨data, hdata, rfl⟩ := Option.map_eq_some_iff.mp hput
    exact ⟨i, (mem_upload_items h).mp hi, rfl, hdata⟩
  · rintro ⟨i, hi, hdst, hsrc⟩
    refine ⟨_, List.mem_map_of_mem ((mem_upload_items h).mpr hi), ?_⟩
    rw [hopen, hsrc]
    exact congrArg some (Prod.ext hdst rfl)

/-- The task is still there once the request has committed `queued`. -/
theorem queued_get (settings : Settings) (actor : CurrentActor) (n : Nat)
    (h : TaskRepo.get db t none = some task) :
    ∃ row, TaskRepo.get (Tasks.queue_write settings db actor t n) t none = some row := by
  rw [get_unfiltered] at h
  rw [get_unfiltered]
  unfold Tasks.queue_write TaskRepo.update_status
  split
  · exact ⟨task, h⟩
  · have hkey : ∀ r : Task, Rows.Row.key ({ r with
        status := .queued
        confirmed_at := none.or r.confirmed_at
        finished_at := none.or r.finished_at } : Task) = Rows.Row.key r := fun _ => rfl
    refine Option.isSome_iff_exists.mp ?_
    simp only [EventRepo.append]
    rw [Rows.find_update hkey, h]
    rfl

/-- What the worker reports about an item. -/
def entry (cfg : Config) (fs : FileSystem) (cwd : List Text) (message : DeliveryTaskMessage)
    (i : TaskItem) : DeliveryResultItemSpec :=
  itemToControl (workerItem cfg fs cwd (toWorker message) (itemToWorker (.ofItem none i)))

theorem result_items (cfg : Config) (fs : FileSystem) (cwd : List Text) (db : Db)
    (actor : CurrentActor) (task : Task) (started ended : Time) :
    (workerResult cfg fs cwd (uploadMessage cfg db actor task) started ended).items =
      (Tasks.upload_items db actor task.id).map (entry cfg fs cwd (uploadMessage cfg db actor task)) := by
  simp only [workerResult, toControl, Worker.processTask_items, message_items, List.map_map]
  rfl

@[simp] theorem entry_id (cfg : Config) (fs : FileSystem) (cwd : List Text)
    (message : DeliveryTaskMessage) (i : TaskItem) : (entry cfg fs cwd message i).item_id = i.id := by
  simp only [entry, itemToControl, workerItem, Worker.Pipeline.processItem_itemId]
  exact ofIdText_idText i.id

/-- The outcome of an item is that of the open of its source. -/
theorem entry_status (cfg : Config) (fs : FileSystem) (cwd : List Text) (task : Task) (i : TaskItem)
    (message : DeliveryTaskMessage) (h : message.temp_dir = task.temp_dir) :
    (entry cfg fs cwd message i).status =
      if (workerSource fs cwd task i).isSome then "uploaded" else "failed" := by
  rw [← open_source fs cwd task i message h]
  unfold entry itemToControl workerItem Worker.Pipeline.processItem
  cases openSource fs cwd (toWorker message) (itemToWorker (.ofItem none i)) <;> rfl

/-- The row of an item once the worker's result is applied. -/
theorem worker_row (hn : (db.items.map TaskItem.id).Nodup)
    (h : Tasks.upload_check db actor t = .ok task) {row : TaskItem} (started ended : Time) :
    row ∈ (workerDb cfg fs cwd db actor task started ended).items ↔
      ∃ i ∈ db.items,
        settle (workerResult cfg fs cwd (uploadMessage cfg db actor task) started ended) i = row := by
  obtain ⟨hget, rfl, _, _⟩ := checked_row h
  have hqueued : (Tasks.queue_write cfg.settings db actor task.id
      (uploadMessage cfg db actor task).items.length).items = db.items :=
    (update_status_same db task.id .queued (some actor.tenant_id) none none).1
  obtain ⟨row', hrow'⟩ := queued_get cfg.settings actor
    (uploadMessage cfg db actor task).items.length hget
  have hid : (workerResult cfg fs cwd (uploadMessage cfg db actor task) started ended).task_id =
      task.id := ofIdText_idText task.id
  have hitems := apply_items cfg.settings.s3_bucket_name (hqueued ▸ hn)
    (m := workerResult cfg fs cwd (uploadMessage cfg db actor task) started ended)
    ((congrArg (TaskRepo.get _ · none) hid).trans hrow')
  rw [workerDb, hitems, hqueued, List.mem_map]

theorem worker_uploaded (hn : (db.items.map TaskItem.id).Nodup)
    (h : Tasks.upload_check db actor t = .ok task) (started ended : Time) :
    AllUploaded (uploadable db t) (workerDb cfg fs cwd db actor task started ended) ↔
      ∀ i ∈ uploadable db t, (workerSource fs cwd task i).isSome := by
  obtain ⟨_, htask, _, _⟩ := checked_row h
  let m := workerResult cfg fs cwd (uploadMessage cfg db actor task) started ended
  have hm : m.items = (Tasks.upload_items db actor task.id).map
      (entry cfg fs cwd (uploadMessage cfg db actor task)) := result_items ..
  have hmid : m.task_id = t := (ofIdText_idText task.id).trans htask
  have hids : (m.items.map (·.item_id)).Nodup := by
    rw [hm, List.map_map]
    have hlist := (upload_items_listed hn actor task.id).ids
    convert hlist using 2
    funext i
    exact entry_id ..
  have hentry : ∀ i ∈ uploadable db t,
      entry cfg fs cwd (uploadMessage cfg db actor task) i ∈ m.items := by
    intro i hi
    rw [hm]
    exact List.mem_map_of_mem ((mem_upload_items h).mpr hi)
  have hstatus := fun i => entry_status cfg fs cwd task i (uploadMessage cfg db actor task) rfl
  constructor
  · intro hall i hi
    obtain ⟨row, hrow, hid, hup⟩ := hall i hi
    obtain ⟨j, hj, rfl⟩ := (worker_row hn h started ended).mp hrow
    obtain ⟨hi', hti, _, _⟩ := mem_uploadable.mp hi
    have hji : j.id = i.id := (core_eq_fields settle_core).1.symm.trans hid
    obtain rfl : j = i := Rows.eq_of_key hn hj hi' hji
    by_contra hnone
    have hfail := settle_failed hids (hentry j hi) (entry_id ..).symm (hti.trans hmid.symm)
      (by rw [hstatus, if_neg hnone])
    rw [show settle m j = _ from hfail] at hup
    cases hup
  · intro hsrc i hi
    obtain ⟨hi', hti, _, _⟩ := mem_uploadable.mp hi
    have hup := settle_uploaded hids (hentry i hi) (entry_id ..).symm (hti.trans hmid.symm)
      (by rw [hstatus, if_pos (hsrc i hi)])
    exact ⟨settle m i, (worker_row hn h started ended).mpr ⟨i, hi', rfl⟩,
      (core_eq_fields settle_core).1, by rw [hup]; rfl⟩

/-- What a run of the Python backend and the worker leave agree exactly where each item's two
paths lead to the same bytes. -/
theorem agree_iff {python worker : List Text} {s : PythonRun}
    (hn : (db.items.map TaskItem.id).Nodup) (h : Tasks.upload_check db actor t = .ok task)
    (hdst : ((uploadable db t).map TaskItem.dst_path).Nodup)
    (hs : Works fs python db t s) (hend : s.run.stage = .ended) (started ended : Time) :
    Agree (uploadable db t) s (workerPuts fs worker (uploadMessage cfg db actor task))
        (workerDb cfg fs worker db actor task started ended) ↔
      ∀ i ∈ uploadable db t, SameSource fs python worker task i := by
  constructor
  · rintro ⟨hput, hpython, hworker⟩ i hi
    obtain ⟨data, hdata⟩ :=
      Option.isSome_iff_exists.mp ((ended_uploaded hs hend).mp hpython i hi)
    have hstored := (ended_puts hs hend (i.dst_path, data)).mpr ⟨i, hi, rfl, hdata⟩
    obtain ⟨j, hj, hjdst, hjdata⟩ := (worker_puts h _).mp ((hput _).mp hstored)
    obtain rfl : j = i := List.inj_on_of_nodup_map hdst hj hi hjdst
    exact ⟨data, hdata, hjdata⟩
  · intro hall
    refine ⟨fun put => ?_, ?_, ?_⟩
    · rw [ended_puts hs hend, worker_puts h]
      refine exists_congr (fun i => and_congr_right (fun hi => and_congr_right (fun _ => ?_)))
      obtain ⟨data, hpython, hworker⟩ := hall i hi
      rw [show source fs python i = some data from hpython,
        show workerSource fs worker task i = some data from hworker]
    · refine (ended_uploaded hs hend).mpr (fun i hi => ?_)
      obtain ⟨data, hpython, _⟩ := hall i hi
      exact Option.isSome_iff_exists.mpr ⟨data, hpython⟩
    · refine (worker_uploaded hn h started ended).mpr (fun i hi => ?_)
      obtain ⟨data, _, hworker⟩ := hall i hi
      exact Option.isSome_iff_exists.mpr ⟨data, hworker⟩

/-- A Python run of a confirmed task whose calls succeed comes to an end, and has then stored and
delivered what the worker does if and only if each item's `src_path` leads to the same bytes from
the control plane's working directory as below `temp_dir` from the worker's. -/
theorem same_objects_iff {s : Bridge.State} (h : Run (Bridge.step cfg) Free Bridge.initial s)
    (hcheck : Tasks.upload_check s.db actor t = .ok task)
    (hdst : ((uploadable s.db t).map TaskItem.dst_path).Nodup)
    (fs : FileSystem) (python worker : List Text) (rid : Nat) (started ended : Time) :
    (∃ run, Run Backends.step (Served fs python) (scheduled s.db rid t) run ∧
      run.run.stage = .ended) ∧
    ∀ run, Run Backends.step (Served fs python) (scheduled s.db rid t) run →
      run.run.stage = .ended →
      (Agree (uploadable s.db t) run (workerPuts fs worker (uploadMessage cfg s.db actor task))
          (workerDb cfg fs worker s.db actor task started ended) ↔
        ∀ i ∈ uploadable s.db t, SameSource fs python worker task i) := by
  have hn := (Tables.reachable_wellformed h).item_ids
  refine ⟨ends hn (run_check hcheck), fun run hrun hend => ?_⟩
  exact agree_iff hn hcheck hdst (run_works hn (run_check hcheck) hrun) hend started ended

/-- A deployment whose tasks live below an absolute path. -/
def mounted : Config :=
  { Sample.cfg with settings := { Sample.cfg.settings with task_dir_base := "/srv/tasks".toList } }

/-- A host on which the archive of task 0 is extracted, and nothing else. -/
def extracted : FileSystem := fun path =>
  if path = ["srv".toList, "tasks".toList, "0".toList, "acme".toList, "report.txt".toList]
  then some [1] else none

/-- The state that an upload request of task 0 finds, and a run of the other backend on it. -/
theorem python_replay (fs : FileSystem) (cwd : List Text) (actions : List RunAction)
    {p : Bridge.State → Task → PythonRun → Prop} [∀ s task run, Decidable (p s task run)]
    (h : (replay (Bridge.step mounted) Free Bridge.initial
      (Sample.confirmed 0 0 [("acme/report.txt".toList, [1])])).any (fun s =>
        (Tasks.upload_check s.db Sample.actor 0).toOption.any (fun task =>
          (replay Backends.step (Served fs cwd) (scheduled s.db 0 0) actions).any (fun run =>
            decide (p s task run)))) = true) :
    ∃ s task run, Run (Bridge.step mounted) Free Bridge.initial s ∧
      Tasks.upload_check s.db Sample.actor 0 = .ok task ∧
      Run Backends.step (Served fs cwd) (scheduled s.db 0 0) run ∧ p s task run := by
  obtain ⟨s, hs, h⟩ := (Option.any_eq_true ..).mp h
  obtain ⟨task, hcheck, h⟩ := ok_of_any h
  obtain ⟨run, hrun, hp⟩ := replay_reaches _ _ (p := p s task) _ _ h
  exact ⟨s, task, run, .of_replay hs, hcheck, hrun, hp⟩

/-- From a working directory where the extracted tree can be seen, both backends deliver. -/
theorem task_dir_agrees :
    ∃ s task run, Run (Bridge.step mounted) Free Bridge.initial s ∧
      Tasks.upload_check s.db Sample.actor 0 = .ok task ∧
      Run Backends.step (Served extracted ["srv".toList, "tasks".toList, "0".toList])
        (scheduled s.db 0 0) run ∧ run.run.stage = .ended ∧
      Agree (uploadable s.db 0) run
        (workerPuts extracted ["app".toList] (uploadMessage mounted s.db Sample.actor task))
        (workerDb mounted extracted ["app".toList] s.db Sample.actor task 0 0) := by
  let cwd := ["srv".toList, "tasks".toList, "0".toList]
  obtain ⟨s, task, run, hs, hcheck, hrun, hend, hdst, hsame⟩ := python_replay extracted cwd
    [.read, .start, .list, .plan, .item 2 .mark, .item 2 (.store [1]), .item 2 .done,
      .item 2 .publish, .finalize, .publish]
    (p := fun s task run => run.run.stage = .ended ∧
      ((uploadable s.db 0).map TaskItem.dst_path).Nodup ∧
      ∀ i ∈ uploadable s.db 0, extracted (locate cwd i.src_path) = some [1] ∧
        extracted (locate ["app".toList] (filepathJoin task.temp_dir i.src_path)) = some [1])
    (by decide +kernel)
  have hagree := (same_objects_iff hs hcheck hdst extracted cwd ["app".toList] 0 0 0).2 run hrun hend
  exact ⟨s, task, run, hs, hcheck, hrun, hend, hagree.mpr (fun i hi => ⟨_, hsame i hi⟩)⟩

/-- From another one the Python backend does not find what the worker delivers. -/
theorem relative_source_is_not_found :
    ∃ s task run, Run (Bridge.step mounted) Free Bridge.initial s ∧
      Tasks.upload_check s.db Sample.actor 0 = .ok task ∧
      Run Backends.step (Served extracted ["app".toList]) (scheduled s.db 0 0) run ∧
      run.run.stage = .ended ∧ statusOf run.db 0 = some .partial_failed ∧
      ((uploadable s.db 0).map TaskItem.dst_path).Nodup ∧
      (∀ dir ∈ s.dirs task.temp_dir, ∀ file ∈ dir.files,
        extracted (locate ["app".toList] task.temp_dir ++ file.1) = some file.2) ∧
      AllUploaded (uploadable s.db 0)
        (workerDb mounted extracted ["app".toList] s.db Sample.actor task 0 0) ∧
      ¬Agree (uploadable s.db 0) run
        (workerPuts extracted ["app".toList] (uploadMessage mounted s.db Sample.actor task))
        (workerDb mounted extracted ["app".toList] s.db Sample.actor task 0 0) := by
  obtain ⟨s, task, run, hs, hcheck, hrun, hend, hst, hdst, hfiles, hworker, hlost⟩ :=
    python_replay extracted ["app".toList]
      [.read, .start, .list, .plan, .item 2 .mark, .item 2 (.raise "No such file or directory"),
        .item 2 .fail, .item 2 .report, .finalize, .publish]
      (p := fun s task run => run.run.stage = .ended ∧ statusOf run.db 0 = some .partial_failed ∧
        ((uploadable s.db 0).map TaskItem.dst_path).Nodup ∧
        (∀ dir ∈ s.dirs task.temp_dir, ∀ file ∈ dir.files,
          extracted (locate ["app".toList] task.temp_dir ++ file.1) = some file.2) ∧
        AllUploaded (uploadable s.db 0)
          (workerDb mounted extracted ["app".toList] s.db Sample.actor task 0 0) ∧
        ¬AllUploaded (uploadable s.db 0) run.db)
      (by decide +kernel)
  exact ⟨s, task, run, hs, hcheck, hrun, hend, hst, hdst, hfiles, hworker,
    fun hagree => hlost hagree.python⟩

end FileDelivery.Proofs.BackendsAgree
