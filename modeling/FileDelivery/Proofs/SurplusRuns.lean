import FileDelivery.Bridge.Announcements
import FileDelivery.Bridge.Replay
import FileDelivery.Proofs.RunnerRecovery

namespace FileDelivery.Proofs.SurplusRuns
open FileDelivery.Library FileDelivery.Library.Runs FileDelivery.Control
open FileDelivery.Control.TaskRunner FileDelivery.Bridge.Announcements
open FileDelivery.Proofs.ApplyResult (get_unfiltered)
open FileDelivery.Proofs.RunMoves FileDelivery.Proofs.RunnerRecovery

/-- The steps of the system, with what they record. -/
inductive RecordMove (cfg : Bridge.Config) (s : State) (a : Action) : State → Prop
  | request (action : Bridge.Action) (ha : a.action = .request action)
      (h : Bridge.step cfg s.base.base action = some u) :
      RecordMove cfg s a { s with base := { s.base with base := u } }
  | scheduled (rid t : Nat) (u : Bridge.State) (ha : a.action = .schedule rid)
      (hn : u.next_request = s.base.base.next_request + 1) :
      RecordMove cfg s a { s with
        base := { base := u
                  runs := s.base.runs ++ [⟨s.base.base.next_request, t, .fresh, .starting, []⟩] } }
  | advanced (rid : Nat) (run : TaskRun) (action : RunAction) (ha : a.action = .run rid action)
      (hfind : Rows.find? s.base.runs rid = some run)
      (hrun : run_task s.base.base.db run action = some (db', next)) :
      RecordMove cfg s a (recorded s
        { base := { s.base.base with
            db := db', sink := Bridge.Background.sinkAfter cfg s.base.base.sink run action }
          runs := Bridge.Background.setRun s.base.runs rid next } run a.published action)

variable {cfg : Bridge.Config} {s s' : State} {db db' : Db} {run q : TaskRun} {rid : Nat}
  {next : Option TaskRun} {action : RunAction}

/-- No surplus run has changed a row, or told anyone that the task has failed or is over. -/
def Undamaged (s : State) : Prop :=
  ∀ rid ∈ s.surplus, rid ∉ s.wrote ∧ ∀ e ∈ s.sent, e.1 = rid →
    e.2 ≠ .close ∧ ∀ error, e.2 ≠ .task_failed error

/-- A surplus run does not get its failure into the database, nor out on the bus. -/
def Harmless (s : State) (a : Action) : Prop :=
  match a.action with
  | .run rid .fail => rid ∈ s.surplus → a.published = 0 ∧
      ∀ run ∈ Rows.find? s.base.runs rid, ∀ t ∈ s.base.base.db.tasks, t.id = run.task_id →
        t.status = .failed ∧ t.finished_at = some s.base.base.db.now
  | .run rid .lose => rid ∈ s.surplus → a.published = 0
  | _ => True

/-- What the record has to do with the runs that are still there. -/
structure Recorded (s : State) : Prop where
  rids : (s.base.runs.map TaskRun.rid).Nodup
  fresh : ∀ run ∈ s.base.runs, run.rid < s.base.base.next_request
  surplus : ∀ rid ∈ s.surplus, rid < s.base.base.next_request
  sent : ∀ e ∈ s.sent, e.1 < s.base.base.next_request
  wrote : ∀ rid ∈ s.wrote, rid < s.base.base.next_request
  /-- A run that has read nothing yet has done nothing. -/
  starting : ∀ run ∈ s.base.runs, run.stage = .starting →
    run.items = [] ∧ run.rid ∉ s.surplus ∧ run.rid ∉ s.wrote ∧ ∀ e ∈ s.sent, e.1 ≠ run.rid
  /-- A surplus run has nothing left but its handler. -/
  handling : ∀ run ∈ s.base.runs, run.rid ∈ s.surplus →
    run.items = [] ∧ (run.stage = .ended ∨ ∃ error, run.stage = .failing error)

theorem step_moves {a : Action} (h : step cfg s a = some s') : RecordMove cfg s a s' := by
  obtain ⟨base, hbase, rfl⟩ := Option.map_eq_some_iff.mp h
  obtain ⟨action, published⟩ := a
  cases action with
  | request action =>
    simp only [Bridge.Background.step] at hbase
    split at hbase
    · obtain ⟨u, hu, rfl⟩ := Option.map_eq_some_iff.mp hbase
      exact .request action rfl hu
    · cases hbase
  | schedule rid =>
    obtain ⟨r, _, hbase⟩ := Option.bind_eq_some_iff.mp hbase
    split at hbase
    · cases hbase
      exact .scheduled rid r.task.id _ rfl rfl
    · cases hbase
  | run rid action =>
    obtain ⟨run, hfind, hbase⟩ := Option.bind_eq_some_iff.mp hbase
    obtain ⟨⟨db', next⟩, hrun, rfl⟩ := Option.map_eq_some_iff.mp hbase
    simp only [hfind]
    exact .advanced rid run action rfl hfind hrun

/-- The write of the handler, by row. -/
theorem fail_tables (db : Db) (t : Nat) (error : String) :
    (fail db t error).items = db.items ∧ (fail db t error).tasks = Rows.update db.tasks t (fun task =>
      { task with status := .failed, finished_at := some db.now }) := by
  unfold fail TaskRepo.update_status
  rw [get_unfiltered]
  cases hf : Rows.find? db.tasks t with
  | none => exact ⟨rfl, (Rows.update_absent hf).symm⟩
  | some task => exact ⟨rfl, rfl⟩

theorem fail_same_iff (db : Db) (t : Nat) (error : String) :
    (fail db t error).tasks = db.tasks ↔
      ∀ task ∈ db.tasks, task.id = t → task.status = .failed ∧ task.finished_at = some db.now := by
  rw [(fail_tables db t error).2]
  rw [Rows.update_eq_iff]
  simp only [task_key]
  constructor
  · intro h task ht hid
    have he := h task ht hid
    exact ⟨(congrArg Task.status he).symm, (congrArg Task.finished_at he).symm⟩
  · intro h task ht hid
    obtain ⟨hst, hfinished⟩ := h task ht hid
    cases task
    simp_all

/-- What is announced does not say that the task has failed or is over. -/
def Silent (announcements : List Announcement) : Prop :=
  ∀ e ∈ announcements, e ≠ .close ∧ ∀ error, e ≠ .task_failed error

theorem wrote_of_change {base : Bridge.Background.State} (hne : ¬(base.base.db.tasks =
    s.base.base.db.tasks ∧ base.base.db.items = s.base.base.db.items)) (n : Nat) :
    run.rid ∈ (recorded s base run n action).wrote := by
  unfold recorded
  rw [if_neg hne]
  exact List.mem_cons_self

/-- A step of a run damages nothing just where its run is not surplus, or leaves the rows as they
are and keeps silent. -/
theorem recorded_undamaged_iff (hr : Recorded s) (hu : Undamaged s) (hmem : run ∈ s.base.runs)
    (hread : action = .read → run.stage = .starting) (base : Bridge.Background.State) (n : Nat) :
    Undamaged (recorded s base run n action) ↔
      (run.rid ∈ (recorded s base run n action).surplus →
        (base.base.db.tasks = s.base.base.db.tasks ∧ base.base.db.items = s.base.base.db.items) ∧
        Silent (announced run n action)) := by
  have hnew : run.rid ∈ (recorded s base run n action).surplus →
      run.rid ∉ s.wrote ∧ ∀ e ∈ s.sent, e.1 = run.rid →
        e.2 ≠ .close ∧ ∀ error, e.2 ≠ .task_failed error := by
    intro hs
    by_cases hold : run.rid ∈ s.surplus
    · exact hu run.rid hold
    · have hact : action = .read := by
        simp only [recorded] at hs
        split at hs
        · rename_i hc
          exact hc.1
        · exact absurd hs hold
      obtain ⟨_, _, hwrote, hsent⟩ := hr.starting run hmem (hread hact)
      exact ⟨hwrote, fun e he hid => absurd hid (hsent e he)⟩
  constructor
  · intro h hs
    obtain ⟨hwrote, hsent⟩ := h run.rid hs
    refine ⟨?_, ?_⟩
    · by_contra hne
      exact hwrote (wrote_of_change hne n)
    · intro e he
      exact hsent (run.rid, e) (List.mem_append_right _ (List.mem_map_of_mem he)) rfl
  · intro h k hk
    by_cases hrid : k = run.rid
    · subst hrid
      obtain ⟨hsame, hsilent⟩ := h hk
      obtain ⟨hwrote, hsent⟩ := hnew hk
      refine ⟨?_, ?_⟩
      · simpa [recorded, hsame] using hwrote
      · intro e he hid
        rcases List.mem_append.mp he with he | he
        · exact hsent e he hid
        · obtain ⟨announcement, ha, rfl⟩ := List.mem_map.mp he
          exact hsilent announcement ha
    · have hold : k ∈ s.surplus := by
        simp only [recorded] at hk
        split at hk
        · exact (List.mem_cons.mp hk).resolve_left hrid
        · exact hk
      obtain ⟨hwrote, hsent⟩ := hu k hold
      refine ⟨?_, ?_⟩
      · simp only [recorded]
        split
        · exact hwrote
        · simp [hrid, hwrote]
      · intro e he hid
        rcases List.mem_append.mp he with he | he
        · exact hsent e he hid
        · obtain ⟨announcement, _, rfl⟩ := List.mem_map.mp he
          exact absurd hid.symm hrid

/-- Of the two messages of the handler neither may get out. -/
theorem silent_take_iff (error : String) (n : Nat) :
    Silent ([Announcement.task_failed error, .close].take n) ↔ n = 0 := by
  cases n with
  | zero => simp [Silent]
  | succ n =>
    constructor
    · intro h
      exact absurd rfl ((h (.task_failed error) (by simp)).2 error)
    · intro h
      cases h

theorem silent_nil : Silent [] := by simp [Silent]

theorem silent_raise (run : TaskRun) (n : Nat) (error : String) :
    Silent (announced run n (.raise error)) := by
  intro e he
  simp only [announced] at he
  split at he
  · obtain rfl := List.mem_singleton.mp (List.mem_of_mem_take he)
    simp
  · cases he

/-- Only its read makes a run surplus. -/
theorem recorded_surplus (hne : action ≠ .read) (base : Bridge.Background.State) (n : Nat) :
    (recorded s base run n action).surplus = s.surplus := by
  simp [recorded, hne]

/-- Along any run, a step does damage just where it is not harmless. -/
theorem step_undamaged_iff (hr : Recorded s) (hu : Undamaged s) {a : Action}
    (h : step cfg s a = some s') : Undamaged s' ↔ Harmless s a := by
  cases step_moves h with
  | request action ha => exact ⟨fun _ => by simp [Harmless, ha], fun _ => hu⟩
  | scheduled rid _ _ ha => exact ⟨fun _ => by simp [Harmless, ha], fun _ => hu⟩
  | advanced rid run action ha hfind hrun =>
    have hm := run_moves hrun
    have hmem := Rows.find_mem hfind
    have hrid : run.rid = rid := Rows.find_key hfind
    have hread : action = .read → run.stage = .starting := by
      intro heq
      subst heq
      cases hm <;> assumption
    have hidle := hr.handling run hmem
    rw [recorded_undamaged_iff hr hu hmem hread]
    cases hm with
    | checked | refused => simp [Harmless, ha, announced, silent_nil]
    | listed | planned => simp [Harmless, ha, announced, silent_nil]
    | left | crashed => simp [Harmless, ha, announced, silent_nil]
    | raised e => simp [Harmless, ha, silent_raise]
    | failed e hst =>
      rw [recorded_surplus (by simp)]
      simp only [Harmless, ha, announced, hst, silent_take_iff, fail_same_iff,
        (fail_tables s.base.base.db run.task_id e).1, hfind, Option.mem_some_iff, forall_eq',
        and_true, hrid]
      exact ⟨fun hc hs => (hc hs).symm, fun hc hs => (hc hs).symm⟩
    | lost e hst =>
      rw [recorded_surplus (by simp)]
      simp only [Harmless, ha, announced, hst, silent_take_iff, true_and, hrid]
    | started hst | completed _ hst | finalized _ hst | published hst =>
      rw [recorded_surplus (by simp)]
      simp only [Harmless, ha, iff_true]
      intro hs
      rcases (hidle hs).2 with he | ⟨_, he⟩
      · simp [hst] at he
      · simp [hst] at he
    | item i _ _ hi =>
      rw [recorded_surplus (by simp)]
      simp only [Harmless, ha, iff_true]
      intro hs
      rw [(hidle hs).1] at hi
      cases hi

/-- A run that goes on from its read has found its task confirmed. -/
theorem read_surplus (h : run_task db run .read = some (db', next))
    (hs : superfluous db run.task_id = true) : ∀ r ∈ next, ∃ error, r.stage = .failing error := by
  simp only [run_task] at h
  split at h
  · split at h
    · rename_i task hcheck
      simp only [superfluous, check] at hs hcheck
      split at hcheck
      · cases hcheck
      · rename_i found hget
        rw [hget] at hs
        split at hcheck
        · cases hcheck
        · rename_i hst
          exact absurd (by simpa using hs) hst
    · cases h
      intro r hr
      cases hr
      exact ⟨_, rfl⟩
  · cases h

theorem listed_stage (db : Db) (t : Nat) :
    listed db t ≠ .starting ∧ listed db t ≠ .ended ∧ ∀ error, listed db t ≠ .failing error := by
  unfold listed
  split <;> simp

/-- A run does not return to its start. -/
theorem move_starts (hm : RunMove db run action db' next) (hr : q ∈ next) (hst : q.stage = .starting)
    (hitems : run.stage = .starting → run.items = []) : False := by
  cases hm with
  | item i _ stage hi =>
    cases hr
    rw [hitems hst] at hi
    cases hi
  | listed =>
    cases hr
    exact (listed_stage db run.task_id).1 hst
  | left | crashed => cases hr
  | _ =>
    cases hr
    cases hst

/-- A run in its handler stays there. -/
theorem move_handling (hm : RunMove db run action db' next) (hr : q ∈ next) (hne : action ≠ .read)
    (hitems : run.items = []) (hst : run.stage = .ended ∨ ∃ error, run.stage = .failing error) :
    q.items = [] ∧ (q.stage = .ended ∨ ∃ error, q.stage = .failing error) := by
  cases hm with
  | checked | refused => exact absurd rfl hne
  | started h | completed _ h | planned _ h | finalized _ h | published h | listed h =>
    rcases hst with he | ⟨_, he⟩
    · simp [h] at he
    · simp [h] at he
  | item i _ stage hi =>
    rw [hitems] at hi
    cases hi
  | raised e =>
    cases hr
    exact ⟨hitems, .inr ⟨e, rfl⟩⟩
  | failed | lost =>
    cases hr
    exact ⟨hitems, .inl rfl⟩
  | left | crashed => cases hr

/-- The runs after a step of one of them: that one as it is then, and the others. -/
theorem mem_setRun {runs : List TaskRun} (hn : (runs.map TaskRun.rid).Nodup)
    (hfind : Rows.find? runs rid = some run) (hq : q ∈ Bridge.Background.setRun runs rid next) :
    q ∈ next ∨ q ∈ runs ∧ q.rid ≠ rid := by
  cases next with
  | none => exact .inr (Rows.mem_erase.mp hq)
  | some r =>
    rcases Rows.mem_update_cases hn hfind hq with rfl | hq
    · exact .inl rfl
    · exact .inr hq

theorem setRun_rids {runs : List TaskRun} (hn : (runs.map TaskRun.rid).Nodup)
    (hnext : ∀ r ∈ next, r.rid = rid) :
    ((Bridge.Background.setRun runs rid next).map TaskRun.rid).Nodup := by
  cases next with
  | none => exact hn.sublist ((Rows.erase_sublist _ _).map _)
  | some r => exact (Rows.replace_keys (r := r) (hnext r rfl)).symm ▸ hn

theorem mem_surplus {base : Bridge.Background.State} {n : Nat}
    (h : rid ∈ (recorded s base run n action).surplus) :
    rid ∈ s.surplus ∨ (rid = run.rid ∧ action = .read ∧ superfluous s.base.base.db run.task_id = true) := by
  simp only [recorded] at h
  split at h
  · rename_i hc
    rcases List.mem_cons.mp h with h | h
    · exact .inr ⟨h, hc⟩
    · exact .inl h
  · exact .inl h

theorem mem_wrote {base : Bridge.Background.State} {n : Nat}
    (h : rid ∈ (recorded s base run n action).wrote) : rid ∈ s.wrote ∨ rid = run.rid := by
  simp only [recorded] at h
  split at h
  · exact .inl h
  · exact (List.mem_cons.mp h).symm

theorem mem_sent {base : Bridge.Background.State} {n : Nat}
    (h : e ∈ (recorded s base run n action).sent) : e ∈ s.sent ∨ e.1 = run.rid := by
  rcases List.mem_append.mp h with h | h
  · exact .inl h
  · obtain ⟨_, _, rfl⟩ := List.mem_map.mp h
    exact .inr rfl

theorem scheduled_recorded (hr : Recorded s) (t : Nat) {u : Bridge.State}
    (hn : u.next_request = s.base.base.next_request + 1) :
    Recorded { s with
      base := { base := u
                runs := s.base.runs ++ [⟨s.base.base.next_request, t, .fresh, .starting, []⟩] } } := by
  have hlt : ∀ {k}, k < s.base.base.next_request → k < u.next_request := by
    intro k hk
    omega
  refine ⟨?_, ?_, fun k hk => hlt (hr.surplus k hk), fun e he => hlt (hr.sent e he),
    fun k hk => hlt (hr.wrote k hk), ?_, ?_⟩
  · exact Rows.append_nodup hr.rids hr.fresh
  · refine Rows.append_all (fun q hq => hlt (hr.fresh q hq)) ?_
    rw [hn]
    exact Nat.lt_succ_self _
  · refine Rows.append_all hr.starting (fun _ => ⟨rfl, fun hk => ?_, fun hk => ?_, fun e he hid => ?_⟩)
    · exact absurd (hr.surplus _ hk) (Nat.lt_irrefl _)
    · exact absurd (hr.wrote _ hk) (Nat.lt_irrefl _)
    · exact absurd (hr.sent e he) (by simp [hid])
  · exact Rows.append_all hr.handling (fun hk => absurd (hr.surplus _ hk) (Nat.lt_irrefl _))

theorem advanced_recorded (hr : Recorded s) (hfind : Rows.find? s.base.runs rid = some run)
    (hrun : run_task s.base.base.db run action = some (db', next)) {base : Bridge.Background.State}
    (hruns : base.runs = Bridge.Background.setRun s.base.runs rid next)
    (hnext : base.base.next_request = s.base.base.next_request) (n : Nat) :
    Recorded (recorded s base run n action) := by
  have hm := run_moves hrun
  have hmem := Rows.find_mem hfind
  have hrid : run.rid = rid := Rows.find_key hfind
  have hlt := hr.fresh run hmem
  have hsame : ∀ r ∈ next, r.rid = rid := fun r hr => (move_run hm r hr).1.trans hrid
  have hcases : ∀ q ∈ base.runs, q ∈ next ∨ q ∈ s.base.runs ∧ q.rid ≠ rid := by
    intro q hq
    rw [hruns] at hq
    exact mem_setRun hr.rids hfind hq
  refine ⟨hruns ▸ setRun_rids hr.rids hsame, ?_, ?_, ?_, ?_, ?_, ?_⟩
  · intro q hq
    show q.rid < base.base.next_request
    rw [hnext]
    rcases hcases q hq with hq | ⟨hq, _⟩
    · rw [hsame q hq, ← hrid]
      exact hlt
    · exact hr.fresh q hq
  · intro k hk
    show k < base.base.next_request
    rw [hnext]
    rcases mem_surplus hk with hk | ⟨rfl, _⟩
    · exact hr.surplus k hk
    · exact hlt
  · intro e he
    show e.1 < base.base.next_request
    rw [hnext]
    rcases mem_sent he with he | he
    · exact hr.sent e he
    · exact he ▸ hlt
  · intro k hk
    show k < base.base.next_request
    rw [hnext]
    rcases mem_wrote hk with hk | rfl
    · exact hr.wrote k hk
    · exact hlt
  · intro q hq hst
    rcases hcases q hq with hq | ⟨hq, hne⟩
    · exact (move_starts hm hq hst (fun h => (hr.starting run hmem h).1)).elim
    · obtain ⟨hitems, hsurplus, hwrote, hsent⟩ := hr.starting q hq hst
      have hother : q.rid ≠ run.rid := fun he => hne (he.trans hrid)
      refine ⟨hitems, fun hk => ?_, fun hk => ?_, fun e he hid => ?_⟩
      · rcases mem_surplus hk with hk | ⟨hk, _⟩
        · exact hsurplus hk
        · exact hother hk
      · rcases mem_wrote hk with hk | hk
        · exact hwrote hk
        · exact hother hk
      · rcases mem_sent he with he | he
        · exact hsent e he hid
        · exact hother (hid.symm.trans he)
  · intro q hq hk
    rcases hcases q hq with hmoved | ⟨hq, hne⟩
    · have hqrid : q.rid = run.rid := (hsame q hmoved).trans hrid.symm
      by_cases hact : action = .read
      · subst hact
        have hst : run.stage = .starting := by cases hm <;> assumption
        obtain ⟨hitems, hnot, _, _⟩ := hr.starting run hmem hst
        rw [hqrid] at hk
        rcases mem_surplus hk with hk | ⟨_, _, hsuper⟩
        · exact absurd hk hnot
        · refine ⟨?_, .inr (read_surplus hrun hsuper q hmoved)⟩
          cases hm <;> cases hmoved <;> exact hitems
      · rw [recorded_surplus hact, hqrid] at hk
        obtain ⟨hitems, hst⟩ := hr.handling run hmem hk
        exact move_handling hm hmoved hact hitems hst
    · have hother : q.rid ≠ run.rid := fun he => hne (he.trans hrid)
      rcases mem_surplus hk with hk | ⟨hk, _⟩
      · exact hr.handling q hq hk
      · exact absurd hk hother

theorem step_recorded (hr : Recorded s) {a : Action} (h : step cfg s a = some s') : Recorded s' := by
  cases step_moves h with
  | request action ha hs =>
    have hle := (step_uploads hs).1
    exact ⟨hr.rids, fun q hq => Nat.lt_of_lt_of_le (hr.fresh q hq) hle,
      fun k hk => Nat.lt_of_lt_of_le (hr.surplus k hk) hle,
      fun e he => Nat.lt_of_lt_of_le (hr.sent e he) hle,
      fun k hk => Nat.lt_of_lt_of_le (hr.wrote k hk) hle, hr.starting, hr.handling⟩
  | scheduled rid t u ha hn => exact scheduled_recorded hr t hn
  | advanced rid run action ha hfind hrun =>
    refine advanced_recorded hr hfind hrun ?_ ?_ a.published
    · rfl
    · rfl

theorem initial_recorded : Recorded initial := by
  constructor <;> simp [initial, Bridge.Background.initial]

theorem reachable_recorded {ok : State → Action → Prop} (h : Run (step cfg) ok initial s) :
    Recorded s :=
  h.invariant Recorded initial_recorded (fun _ _ _ hr _ hs => step_recorded hr hs)

theorem run_undamaged (h : Run (step cfg) Harmless initial s) : Undamaged s := by
  refine h.invariant_given Undamaged Recorded (fun _ hrun => reachable_recorded hrun) ?_ ?_
  · intro rid hrid
    cases hrid
  · intro _ _ _ hr hu hok hs
    exact (step_undamaged_iff hr hu hs).mpr hok

/-- A step of a surplus run that is not on record as a writer leaves the rows as they are. -/
theorem surplus_step_same (hu : Undamaged s') {a : Action} (h : step cfg s a = some s')
    (ha : a.action = .run rid action) (hs : rid ∈ s'.surplus) :
    s'.base.base.db.tasks = s.base.base.db.tasks ∧ s'.base.base.db.items = s.base.base.db.items := by
  cases step_moves h with
  | request _ hother => rw [ha] at hother; cases hother
  | scheduled _ _ _ hother => rw [ha] at hother; cases hother
  | advanced rid' run action' hact hfind hrun =>
    rw [ha] at hact
    cases hact
    have hrid : run.rid = rid := Rows.find_key hfind
    have hwrote := (hu rid hs).1
    by_contra hne
    have hmem : run.rid ∈ (recorded s _ run a.published action).wrote :=
      wrote_of_change hne a.published
    exact hwrote (hrid ▸ hmem)

/-- As long as no surplus run gets its failure out, surplus runs do no damage, and in every run up
to then the first step that does damage is one of those. -/
theorem surplus_runs_harmless (cfg : Bridge.Config) :
    (∀ s, Run (step cfg) Harmless initial s → Undamaged s ∧
      ∀ a s', Harmless s a → step cfg s a = some s' → ∀ rid action, a.action = .run rid action →
        rid ∈ s'.surplus → s'.base.base.db.tasks = s.base.base.db.tasks ∧
          s'.base.base.db.items = s.base.base.db.items) ∧
    ∀ s, Run (step cfg) Free initial s → Undamaged s → ∀ a s', step cfg s a = some s' →
      (Undamaged s' ↔ Harmless s a) := by
  constructor
  · intro s hrun
    refine ⟨run_undamaged hrun, ?_⟩
    intro a s' hok hstep rid action ha hs
    have hu : Undamaged s' :=
      (step_undamaged_iff (reachable_recorded hrun) (run_undamaged hrun) hstep).mpr hok
    exact surplus_step_same hu hstep ha hs
  · intro s hrun hu a s' hstep
    exact step_undamaged_iff (reachable_recorded hrun) hu hstep

/-- The guard is off, as it is by default. -/
def unguarded : Bridge.Config :=
  { Bridge.Sample.cfg with
    settings := { Bridge.Sample.cfg.settings with redis_idempotency_enabled := false } }

/-- A run that delivers the one item `item_id` of its task. -/
def delivering (rid item_id : Nat) : List Bridge.Background.Action :=
  ([.read, .start, .list, .plan, .item item_id .mark, .item item_id (.store [1]), .item item_id .done,
    .item item_id .publish, .finalize, .publish] : List RunAction).map (.run rid)

/-- Two upload requests that are accepted while the task is confirmed. -/
def acceptedTwice : List Bridge.Action :=
  Bridge.Sample.confirmed 0 0 [("acme/report.txt".toList, [1])] ++
    ([.uploadRead Bridge.Sample.actor 0, .uploadRead Bridge.Sample.actor 0,
      .upload 1 .acquire, .upload 2 .acquire] : List Bridge.Action)

/-- The run of the first delivers the task, the run of the second finds it `uploaded` and fails it. -/
def secondRun : List Action :=
  (acceptedTwice.map Bridge.Background.Action.request ++
    ([.schedule 1, .schedule 2] : List Bridge.Background.Action) ++ delivering 3 2 ++
    ([.run 4 .read, .run 4 .fail] : List Bridge.Background.Action)).map (⟨·, 2⟩)

theorem second_run_fails_task :
    ¬∀ (cfg : Bridge.Config) (s : State), Run (step cfg) Free initial s → Undamaged s := by
  intro h
  have hrun : ∃ s, Run (step unguarded) Free initial s ∧ (4 ∈ s.surplus ∧ 4 ∈ s.wrote ∧
      s.base.base.db.tasks.map Task.status = [.failed] ∧
      s.base.base.db.items.map TaskItem.upload_status = [.uploaded] ∧ (4, .close) ∈ s.sent) :=
    replay_reaches (step unguarded) Free initial secondRun (by decide +kernel)
  obtain ⟨s, hrun, hsurplus, hwrote, _⟩ := hrun
  exact (h unguarded s hrun 4 hsurplus).1 hwrote

end FileDelivery.Proofs.SurplusRuns
