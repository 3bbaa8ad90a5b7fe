import FileDelivery.Proofs.DeliveredStays
import FileDelivery.Proofs.PlatformTables

namespace FileDelivery.Proofs.StatusEdges
open FileDelivery.Library FileDelivery.Library.Runs FileDelivery.Control FileDelivery.Bridge
open FileDelivery.Proofs.ApplyResult FileDelivery.Proofs.Effects FileDelivery.Proofs.Tables
open FileDelivery.Proofs.RunMoves FileDelivery.Proofs.PlatformTables

/-- A status that the model of tasks lists. -/
def Documented : TaskStatus → Prop
  | .other _ => False
  | _ => True

/-- draft -> classified -> confirmed -> {queued, uploading} -> {uploaded, partial_failed, failed} -/
def Forward : TaskStatus → TaskStatus → Prop
  | .draft, .classified | .classified, .confirmed => True
  | .confirmed, .queued | .confirmed, .uploading => True
  | .queued, n | .uploading, n => n = .uploaded ∨ n = .partial_failed ∨ n = .failed
  | _, _ => False

/-- The write of a retry request. -/
def Retries (s : Platform.State) : Platform.Action → Prop
  | .request (.write rid) => ∃ r, Rows.find? s.base.writes rid = some r ∧ r.kind = .retry
  | _ => False

def Edge (s : Platform.State) (a : Platform.Action) (o n : TaskStatus) : Prop :=
  Forward o n ∨ Retries s a ∧ (o = .failed ∨ o = .partial_failed) ∧ n = .confirmed

/-- The statuses that an action may set a task to. -/
def Sets (s : Platform.State) : Platform.Action → TaskStatus → Prop
  | .request (.classify _ _ _), st => st = .classified
  | .request (.write _), st => st = .confirmed
  | .request (.upload _ .commit), st => st = .queued
  | .request (.apply pid), st => ∃ p, s.base.results[pid]? = some p ∧ st = .ofString p.message.status
  | .run _ .start, st => st = .uploading
  | .run _ .complete, st => st = .uploaded
  | .run _ .finalize, st => st = .uploaded ∨ st = .partial_failed
  | .run _ .fail, st => st = .failed
  | .deliver message, st => st = .ofString message.status
  | _, _ => False

/-- Each task's row is as it was, unless the action's status is the one it had or an edge
leads there; new rows are drafts. -/
structure Legal (s : Platform.State) (a : Platform.Action) (t : Platform.State) : Prop where
  rows : ∀ x ∈ s.base.db.tasks, ∃ y ∈ t.base.db.tasks, y.id = x.id ∧
    (y = x ∨ Sets s a y.status ∧ (y.status = x.status ∨ Edge s a x.status y.status))
  drafts : ∀ y ∈ t.base.db.tasks, (∃ x ∈ s.base.db.tasks, x.id = y.id) ∨ y.status = .draft

/-- The task, if the query finds it, has one of the statuses. -/
def Finds (db : Db) (k : Nat) (tenant_id : Option String) (statuses : List TaskStatus) : Prop :=
  ∀ x ∈ TaskRepo.get db k tenant_id, x.status ∈ statuses

instance : Decidable (Finds db k tenant_id statuses) :=
  inferInstanceAs (Decidable (∀ _ ∈ _, _))

/-- Where a result of a status is in time. -/
def expected : TaskStatus → List TaskStatus
  | .draft => [.draft]
  | .classifying => [.classifying]
  | .classified => [.draft, .classified]
  | .classification_failed => [.classification_failed]
  | .confirmed => [.classified, .confirmed]
  | .queued => [.confirmed, .queued]
  | .uploading => [.confirmed, .uploading]
  | .uploaded => [.queued, .uploading, .uploaded]
  | .partial_failed => [.queued, .uploading, .partial_failed]
  | .failed => [.queued, .uploading, .failed]
  | .other _ => []

def InTime (db : Db) (m : DeliveryResultMessage) : Prop :=
  Finds db m.task_id none (expected (.ofString m.status))

/-- The write of a confirm or retry request comes while its task still has a status that it
is for, or has the new one already. -/
def WriteInTime (db : Db) (r : WriteRequest) : Prop :=
  match r.kind with
  | .confirm => Finds db r.task.id (some r.actor.tenant_id) [.classified, .confirmed]
  | .retry => Reopens db r →
      Finds db r.task.id none [.classified, .confirmed, .partial_failed, .failed]

/-- What the operations do not check when they write a status. -/
def Guarded (s : Platform.State) : Platform.Action → Prop
  | .request (.classify actor t _) =>
    Finds s.base.db t (some actor.tenant_id) [.draft, .classified]
  | .request (.write rid) => ∀ r ∈ Rows.find? s.base.writes rid, WriteInTime s.base.db r
  | .request (.upload rid .commit) => ∀ r ∈ Rows.find? s.base.uploads rid,
    Finds s.base.db r.task.id (some r.actor.tenant_id) [.confirmed, .queued]
  | .request (.apply pid) => ∀ p ∈ s.base.results[pid]?, InTime s.base.db p.message
  | .run rid .start => ∀ run ∈ Rows.find? s.runs rid,
    Finds s.base.db run.task_id none [.confirmed, .uploading]
  | .run rid .complete => ∀ run ∈ Rows.find? s.runs rid,
    Finds s.base.db run.task_id none [.queued, .uploading, .uploaded]
  | .run rid .finalize => ∀ run ∈ Rows.find? s.runs rid,
    ∀ results ∈ TaskRunner.all_results run.items, Finds s.base.db run.task_id none
      [.queued, .uploading, TaskRunner.final_status (results.count false)]
  | .run rid .fail => ∀ run ∈ Rows.find? s.runs rid,
    Finds s.base.db run.task_id none [.queued, .uploading, .failed]
  | .deliver message => InTime s.base.db message
  | _ => True

theorem mem_expected (st : TaskStatus) (ho : Documented o) :
    o ∈ expected st ↔ o = st ∨ Forward o st := by
  cases st <;> cases o <;> simp_all [expected, Forward, Documented]

theorem edge_plain (h : ¬Retries s a) : Edge s a o n ↔ Forward o n := by
  simp [Edge, h]

/-- What one step does to the table of tasks. -/
inductive TaskStep (s : Platform.State) (a : Platform.Action) (t : Platform.State) : Prop
  | same (ht : t.base.db.tasks = s.base.db.tasks) (hg : Guarded s a)
  | created (task : Task) (hst : task.status = .draft)
      (ht : t.base.db.tasks = s.base.db.tasks ++ [task]) (hg : Guarded s a)
  | set (x : Task) (f) (st : TaskStatus) (statuses : List TaskStatus)
      (hx : Rows.find? s.base.db.tasks x.id = some x)
      (hw : StatusWrite x.id st f s.base.db.tasks t.base.db.tasks) (hsets : Sets s a st)
      (hg : Guarded s a ↔ x.status ∈ statuses)
      (hl : ∀ o, Documented o → (o ∈ statuses ↔ o = st ∨ Edge s a o st))

/-- A status write that a tenant's query precedes. -/
theorem TaskStep.of_write (k : Nat) (ten : Option String) (st : TaskStatus)
    (hw : TaskRepo.get s.base.db k ten = none ∧ t.base.db.tasks = s.base.db.tasks ∨
      (TaskRepo.get s.base.db k ten).isSome ∧
        ∃ f, StatusWrite k st f s.base.db.tasks t.base.db.tasks)
    (hsets : Sets s a st) (hg : Guarded s a ↔ Finds s.base.db k ten statuses)
    (hl : ∀ o, Documented o → (o ∈ statuses ↔ o = st ∨ Edge s a o st)) : TaskStep s a t := by
  rcases hw with ⟨hnone, hsame⟩ | ⟨hsome, f, hw⟩
  · refine .same hsame (hg.mpr ?_)
    intro x hx
    rw [hnone] at hx
    cases hx
  · obtain ⟨x, hx⟩ := Option.isSome_iff_exists.mp hsome
    have hfind := (Option.filter_eq_some_iff.mp hx).1
    have hid : x.id = k := Rows.find_key hfind
    subst hid
    refine .set x f st statuses hfind hw hsets ?_ hl
    rw [hg, Finds, hx]
    simp

/-- The writes of confirm and retry requests. -/
theorem write_step (hr : Rows.find? s.base.writes rid = some r)
    (ht : t.base.db.tasks = (writeDb s.base.db r).tasks) : TaskStep s (.request (.write rid)) t := by
  have hguard : Guarded s (.request (.write rid)) ↔ WriteInTime s.base.db r := by
    simp [Guarded, hr]
  have hretries : Retries s (.request (.write rid)) ↔ r.kind = .retry := by
    simp [Retries, hr]
  cases hk : r.kind with
  | confirm =>
    have hwrite := update_status_tasks s.base.db r.task.id .confirmed (some r.actor.tenant_id)
      (some s.base.db.now) none
    rw [show (TaskRepo.update_status s.base.db r.task.id .confirmed (some r.actor.tenant_id)
      (some s.base.db.now) none).tasks = t.base.db.tasks by rw [ht, writeDb, hk]; rfl] at hwrite
    refine .of_write _ _ _ hwrite rfl (hguard.trans (by rw [WriteInTime, hk])) ?_
    intro o ho
    rw [edge_plain (by simp [hretries, hk])]
    exact mem_expected .confirmed ho
  | retry =>
    obtain ⟨hquiet, hwrite, _⟩ := retry_tables s.base.db r
    have ht : t.base.db.tasks = (Tasks.retry_write s.base.db r.actor r.task).tasks := by
      rw [ht, writeDb, hk]
    have hguard := hguard.trans (by rw [WriteInTime, hk])
    by_cases hre : Reopens s.base.db r
    · refine .of_write r.task.id none .confirmed ?_ rfl
        (hguard.trans (forall_prop_of_true hre)) ?_
      · cases hf : Rows.find? s.base.db.tasks r.task.id with
        | none =>
          refine .inl ⟨by rw [get_unfiltered, hf], ?_⟩
          rw [ht, hwrite hre, Rows.update_absent hf]
        | some x =>
          refine .inr ⟨by rw [get_unfiltered, hf]; rfl, Tasks.reopen r.task, ?_, fun _ => rfl,
            fun _ => rfl, fun _ => rfl, fun _ => rfl⟩
          rw [ht, hwrite hre]
      · intro o ho
        have hedge : Edge s (.request (.write rid)) o .confirmed ↔
            Forward o .confirmed ∨ o = .failed ∨ o = .partial_failed := by
          simp [Edge, hretries, hk]
        rw [hedge]
        cases o <;> simp [Forward]
    · exact .same (ht.trans (hquiet hre)) (hguard.mpr (fun h => absurd h hre))

/-- A result that arrives at a database. -/
theorem result_step (ht : t.base.db.tasks = (apply_delivery_result bucket s.base.db m).1.tasks)
    (hsets : Sets s a (.ofString m.status)) (hg : Guarded s a ↔ InTime s.base.db m)
    (hr : ¬Retries s a) : TaskStep s a t := by
  refine .of_write m.task_id none (.ofString m.status) ?_ hsets hg ?_
  · rw [apply_tasks] at ht
    cases hf : Rows.find? s.base.db.tasks m.task_id with
    | none => exact .inl ⟨by rw [get_unfiltered, hf], by rw [ht, Rows.update_absent hf]⟩
    | some x => exact .inr ⟨by rw [get_unfiltered, hf]; rfl, _, ht ▸ settle_write m s.base.db.tasks⟩
  · intro o ho
    rw [edge_plain hr]
    exact mem_expected _ ho

theorem request_step (h : Bridge.step cfg s.base a = some base) :
    TaskStep s (.request a) { s with base := base } := by
  have hmove := Moves.step_moves h
  cases a with
  | create actor key uploads label =>
    cases hmove with
    | created db t dir hcreate =>
      obtain ⟨text, rfl, rfl⟩ := create_spec hcreate
      exact .created (Tasks.draftTask cfg.settings s.base.db _ _ text) rfl rfl trivial
  | classify actor t profile =>
    cases hmove with
    | classified dir db hclassify =>
      refine .of_write t (some actor.tenant_id) .classified (.inr (classify_write hclassify)) rfl
        .rfl ?_
      intro o ho
      rw [edge_plain (a := .request (.classify actor t profile)) id]
      exact mem_expected .classified ho
  | write rid =>
    cases hmove with
    | wrote r hr => exact write_step hr rfl
  | upload rid action =>
    cases hmove with
    | requested r u next hr hmove =>
      generalize r.stage = stage at hmove
      cases hmove with
      | committed =>
        have hguard : Guarded s (.request (.upload rid .commit)) ↔ Finds s.base.db r.task.id
            (some r.actor.tenant_id) (expected .queued) := by
          simp [Guarded, hr, expected]
        refine .of_write _ _ _ (update_status_tasks s.base.db r.task.id .queued
          (some r.actor.tenant_id) none none) rfl hguard ?_
        intro o ho
        rw [edge_plain (a := .request (.upload rid .commit)) id]
        exact mem_expected .queued ho
      | _ => exact .same rfl trivial
  | apply pid =>
    cases hmove with
    | applied p hp => exact result_step rfl ⟨p, hp, rfl⟩ (by simp [Guarded, hp]) id
  | worker action =>
    cases hmove with
    | worked hmove => exact .same (congrArg Db.tasks (worker_db hmove)) trivial
  | cleanup action =>
    cases hmove with
    | cleaned hmove =>
      refine .same ?_ trivial
      cases hmove with
      | committed c hc => exact (appends_frame c.events s.base.db).1
      | _ => rfl
  | _ =>
    cases hmove
    exact .same rfl trivial

/-- A status that a background run writes, with its event. -/
theorem run_write {action : RunAction}
    (hdb : t.base.db = EventRepo.append (TaskRepo.update_status s.base.db k st none c f) k payload)
    (hsets : Sets s (.run rid action) st)
    (hg : Guarded s (.run rid action) ↔ Finds s.base.db k none (expected st)) :
    TaskStep s (.run rid action) t := by
  refine .of_write k none st ?_ hsets hg ?_
  · rw [hdb, append_tasks]
    exact update_status_tasks s.base.db k st none c f
  · intro o ho
    rw [edge_plain (a := .run rid action) id]
    exact mem_expected _ ho

theorem run_step (hr : Rows.find? s.runs rid = some run)
    (hm : RunMove s.base.db run action t.base.db next) : TaskStep s (.run rid action) t := by
  have hsame := move_tasks hm
  generalize hdb : t.base.db = db at hm hsame
  cases hm with
  | started => exact run_write hdb rfl (by simp [Guarded, hr, expected])
  | completed => exact run_write hdb rfl (by simp [Guarded, hr, expected])
  | failed => exact run_write hdb rfl (by simp [Guarded, hr, expected])
  | finalized results hst hres =>
    refine run_write hdb ?_ ?_
    · simp only [Sets, TaskRunner.final_status]
      split <;> simp
    · simp only [Guarded, hr, hres, Option.mem_def, Option.some.injEq, forall_eq']
      unfold TaskRunner.final_status
      split <;> rfl
  | item =>
    refine .same ?_ trivial
    rw [hdb]
    exact hsame
  | _ => exact .same (congrArg Db.tasks hdb) trivial

theorem step_tasks (h : Platform.step cfg s a = some t) : TaskStep s a t := by
  cases platform_moves h with
  | requested base hb => exact request_step hb
  | scheduled r _ _ hdb => exact .same (by rw [hdb]; rfl) trivial
  | advanced run next _ hr hm _ => exact run_step hr hm
  | delivered => exact result_step rfl rfl .rfl id

def AllDocumented (s : Platform.State) : Prop := ∀ x ∈ s.base.db.tasks, Documented x.status

theorem edge_documented (he : o = n ∨ Edge s a o n) (ho : Documented o) : Documented n := by
  rcases he with rfl | hf | ⟨_, _, rfl⟩
  · exact ho
  · cases o <;> cases n <;> simp_all [Forward, Documented]
  · trivial

/-- The row that a write is made to, and the rows it is not made to. -/
theorem write_legal (hn : (s.base.db.tasks.map Task.id).Nodup)
    (hx : Rows.find? s.base.db.tasks x.id = some x)
    (hw : StatusWrite x.id st f s.base.db.tasks t.base.db.tasks) (hsets : Sets s a st) :
    Legal s a t ↔ x.status = st ∨ Edge s a x.status st := by
  constructor
  · intro hlegal
    obtain ⟨y, hy, hid, hyx⟩ := hlegal.rows x (Rows.find_mem hx)
    obtain ⟨_, _, _, _, _, ⟨_, hst⟩ | ⟨hne, _⟩⟩ := hw.mem hy
    · rcases hyx with rfl | ⟨_, hsame | hedge⟩
      · exact .inl hst
      · exact .inl (hsame.symm.trans hst)
      · exact .inr (hst ▸ hedge)
    · exact absurd hid hne
  · intro hedge
    refine ⟨fun z hz => ?_, fun y hy => ?_⟩
    · by_cases hk : z.id = x.id
      · have hzx : z = x := Rows.eq_of_key hn hz (Rows.find_mem hx) hk
        refine ⟨f x, ?_, hw.id x ▸ hk.symm, .inr ?_⟩
        · rw [hw.rows]
          exact Rows.mem_update_of_mem (Rows.find_mem hx) rfl
        · rw [hw.status, hzx]
          exact ⟨hsets, hedge.imp_left Eq.symm⟩
      · refine ⟨z, ?_, rfl, .inl rfl⟩
        rw [hw.rows]
        exact Rows.mem_update_of_ne hz hk
    · obtain ⟨z, hz, hid, _⟩ := hw.mem hy
      exact .inl ⟨z, hz, hid⟩

theorem step_legal (hw : Wellformed cfg s.base.db) (hd : AllDocumented s)
    (h : Platform.step cfg s a = some t) : Legal s a t ↔ Guarded s a := by
  cases step_tasks h with
  | same ht hg =>
    refine ⟨fun _ => hg, fun _ => ⟨fun x hx => ⟨x, ht ▸ hx, rfl, .inl rfl⟩, fun y hy => ?_⟩⟩
    exact .inl ⟨y, ht ▸ hy, rfl⟩
  | created task hst ht hg =>
    refine ⟨fun _ => hg, fun _ => ⟨fun x hx => ⟨x, ?_, rfl, .inl rfl⟩, fun y hy => ?_⟩⟩
    · rw [ht]
      exact List.mem_append_left _ hx
    · rw [ht] at hy
      rcases List.mem_append.mp hy with hy | hy
      · exact .inl ⟨y, hy, rfl⟩
      · exact .inr (List.mem_singleton.mp hy ▸ hst)
  | set x f st statuses hx hwrite hsets hg hl =>
    rw [write_legal hw.task_ids hx hwrite hsets, hg, hl x.status (hd x (Rows.find_mem hx))]

theorem step_documented (hd : AllDocumented s) (hok : Guarded s a)
    (h : Platform.step cfg s a = some t) : AllDocumented t := by
  intro y hy
  cases step_tasks h with
  | same ht _ => exact hd y (ht ▸ hy)
  | created task hst ht _ =>
    rw [ht] at hy
    rcases List.mem_append.mp hy with hy | hy
    · exact hd y hy
    · rw [List.mem_singleton.mp hy, hst]
      trivial
  | set x f st statuses hx hwrite _ hg hl =>
    have hfound := hd x (Rows.find_mem hx)
    obtain ⟨z, hz, _, _, _, ⟨_, hst⟩ | ⟨_, rfl⟩⟩ := hwrite.mem hy
    · rw [hst]
      exact edge_documented ((hl x.status hfound).mp (hg.mp hok)) hfound
    · exact hd y hz

theorem reachable_documented (h : Run (Platform.step cfg) Guarded Platform.initial s) :
    AllDocumented s :=
  h.invariant AllDocumented (fun _ hx => nomatch hx) (fun _ _ _ hd hok hs => step_documented hd hok hs)

/-- Where every status is written in time, all statuses are documented; a step from there
follows the edges if and only if it writes in time as well. -/
theorem statuses_follow_edges (h : Run (Platform.step cfg) Guarded Platform.initial s) :
    AllDocumented s ∧ ∀ a t, Platform.step cfg s a = some t → (Legal s a t ↔ Guarded s a) :=
  ⟨reachable_documented h,
    fun _ _ hs => step_legal (reachable_wellformed h) (reachable_documented h) hs⟩

instance (db : Db) (r : WriteRequest) : Decidable (Reopens db r) :=
  inferInstanceAs (Decidable ((∃ _ ∈ _, _) ∧ _))

instance (db : Db) (m : DeliveryResultMessage) : Decidable (InTime db m) :=
  inferInstanceAs (Decidable (Finds _ _ _ _))

instance (db : Db) : (r : WriteRequest) → Decidable (WriteInTime db r)
  | ⟨_, .confirm, _, _⟩ => inferInstanceAs (Decidable (Finds _ _ _ _))
  | ⟨rid, .retry, actor, task⟩ =>
    inferInstanceAs (Decidable (Reopens db ⟨rid, .retry, actor, task⟩ → Finds _ _ _ _))

instance (s : Platform.State) : (a : Platform.Action) → Decidable (Guarded s a)
  | .request (.classify _ _ _) => inferInstanceAs (Decidable (Finds _ _ _ _))
  | .request (.write _) => inferInstanceAs (Decidable (∀ _ ∈ _, _))
  | .request (.upload _ .commit) => inferInstanceAs (Decidable (∀ _ ∈ _, _))
  | .request (.apply _) => inferInstanceAs (Decidable (∀ _ ∈ _, _))
  | .run _ .start | .run _ .complete | .run _ .fail => inferInstanceAs (Decidable (∀ _ ∈ _, _))
  | .run _ .finalize => inferInstanceAs (Decidable (∀ _ ∈ _, ∀ _ ∈ _, _))
  | .deliver _ => inferInstanceAs (Decidable (InTime _ _))
  | .request (.create _ _ _ _) | .request (.read _ _ _) | .request (.uploadRead _ _)
  | .request (.worker _) | .request (.cleanup _) | .request (.workspace _ _ _ _)
  | .request (.expire _) | .request .tick | .schedule _ => .isTrue trivial
  | .request (.upload _ .acquire) | .request (.upload _ .list) | .request (.upload _ (.stage _))
  | .request (.upload _ .record) | .request (.upload _ .publish) | .request (.upload _ .write)
  | .request (.upload _ (.publishRaises _)) | .request (.upload _ .raise)
  | .request (.upload _ .delete) | .request (.upload _ .recordDelete)
  | .request (.upload _ .release) | .request (.upload _ .crash) => .isTrue trivial
  | .run _ .read | .run _ .list | .run _ .plan | .run _ (.item _ _) | .run _ .publish
  | .run _ (.raise _) | .run _ .lose | .run _ .leave | .run _ .crash => .isTrue trivial

/-- A delivery that fails, is retried and then succeeds. -/
def retried : List Bridge.Action :=
  Sample.confirmed 0 0 [("acme/a.txt", [1])] ++ Sample.upload 0 1 ++
    Sample.run 2 0 [some (.sink "timeout" false)] ++ [.apply 0] ++ Sample.retry 0 3 ++
    Sample.upload 0 4 ++ Sample.run 5 1 [none] ++ [.apply 1]

theorem retried_follows_edges : ∃ s : Platform.State, statusOf s.base.db 0 = some .uploaded ∧
    AllDocumented s ∧ ∀ a t, Platform.step Sample.cfg s a = some t → (Legal s a t ↔ Guarded s a) := by
  obtain ⟨s, hrun, hst⟩ := replay_reaches (Platform.step Sample.cfg) Guarded
    (p := fun s => statusOf s.base.db 0 = some .uploaded) Platform.initial
    (retried.map Platform.Action.request) (by decide +kernel)
  exact ⟨s, hst, statuses_follow_edges hrun⟩

/-- The result of the run that failed comes after the other one: uploaded -> partial_failed. -/
theorem late_result_takes_no_edge :
    ¬ ∀ (cfg : Config) (s t : Platform.State) (a : Platform.Action),
      Run (Platform.step cfg) Free Platform.initial s → Platform.step cfg s a = some t →
      AllDocumented s ∧ Legal s a t := by
  intro h
  obtain ⟨s, hrun, hold, hnew⟩ := replay_reaches (Platform.step Sample.cfg) Free
    (p := fun s => (∃ x ∈ s.base.db.tasks, x.status = .uploaded) ∧
      (Platform.step Sample.cfg s (.request (.apply 1))).any (fun t =>
        t.base.db.tasks.all (·.status == .partial_failed)))
    Platform.initial ((DeliveredStays.twice ++ [Action.apply 0]).map Platform.Action.request)
    (by decide +kernel)
  obtain ⟨x, hx, hup⟩ := hold
  obtain ⟨t, ht, hall⟩ := (Option.any_eq_true _ _).mp hnew
  obtain ⟨y, hy, _, hyx⟩ := (h Sample.cfg s t _ hrun ht).2.rows x hx
  have hfailed : y.status = .partial_failed := by simpa using List.all_eq_true.mp hall y hy
  rcases hyx with rfl | ⟨_, hsame | hedge⟩
  · simp [hup] at hfailed
  · simp [hup, hfailed] at hsame
  · rw [hup, hfailed, edge_plain (a := .request (.apply 1)) id] at hedge
    exact hedge

end FileDelivery.Proofs.StatusEdges
