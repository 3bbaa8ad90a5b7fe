import FileDelivery.Bridge.Replay
import FileDelivery.Control.CreateTask
import FileDelivery.Library.Fallible
import FileDelivery.Library.Runs

namespace FileDelivery.Proofs.CreateOnce
open FileDelivery.Library FileDelivery.Library.Runs FileDelivery.Library.Commits FileDelivery.Control
open FileDelivery.Control.CreateTask

/-- What one step of `create_task` may do. -/
inductive Move (py : Python) (settings : Settings) (s : State) (r : Request) :
    Stage → RequestAction → State → Stage → Bool → Prop
  | acquired (claims : IdempotencyGuard.Store) :
      Move py settings s r .starting .acquire { s with claims := claims } .claimed false
  | refused : Move py settings s r .starting .acquire s .failed false
  | existing (task : Task) (h : findKey s.tables r.key r.actor.tenant_id = some task) :
      Move py settings s r .claimed .lookup s (.releasing (some (respond 200 task))) false
  | absent : Move py settings s r .claimed .lookup s .absent false
  | prepared (archive : FolderUpload.PreparedArchive) :
      Move py settings s r .absent .prepare s (.prepared archive) false
  | inserted (archive : FolderUpload.PreparedArchive) (id : Nat) :
      Move py settings s r (.prepared archive) (.insert id) s
        (.inserted archive (newTask r archive.label id s.now)) false
  | logged (archive : FolderUpload.PreparedArchive) (task : Task) (event : TaskEvent) :
      Move py settings s r (.inserted archive task) (.log event.id) s (.logged archive task event) false
  | extracted (archive : FolderUpload.PreparedArchive) (task : Task) (event : TaskEvent)
      (dirs : Text → Option TaskDir) :
      Move py settings s r (.logged archive task event) .extract { s with dirs := dirs }
        (.extracted { task with temp_dir := extractDir settings task.id } event) false
  | committed (task : Task) (event : TaskEvent) (h : Accepts s.tables task) :
      Move py settings s r (.extracted task event) .commit
        { s with tables := s.tables.add r.rid task event } (.committed task.id) true
  | committedRaised (task : Task) (event : TaskEvent) (h : Accepts s.tables task) :
      Move py settings s r (.extracted task event) (.commitRaises true)
        { s with tables := s.tables.add r.rid task event } (.releasing none) true
  | found (task_id : Nat) (response : Option Response)
      (h : response = (findTask s.tables task_id).map (respond 201)) :
      Move py settings s r (.committed task_id) .read s (.releasing response) false
  | released (response : Option Response) (claims : IdempotencyGuard.Store) :
      Move py settings s r (.releasing response) .release { s with claims := claims }
        ((response.map .answered).getD .failed) false
  /-- A check that fails or an exception; nothing is committed. -/
  | gaveUp (h : stage = .releasing none ∨ stage = .failed) :
      Move py settings s r old action s stage false

variable {py : Python} {settings : Settings} {s s' next : State} {r q : Request} {old stage : Stage}
  {action : RequestAction} {committed : Bool} {tables : Tables}

theorem raisedTo_gives_up (h : raisedTo old = some stage) :
    stage = .releasing none ∨ stage = .failed := by
  cases old <;> cases h <;> first | exact .inl rfl | exact .inr rfl

theorem effect_move (h : requestEffect py settings s r old action = some (next, stage, committed)) :
    Move py settings s r old action next stage committed := by
  cases action with
  | acquire =>
    cases old <;> try cases h
    simp only [requestEffect] at h
    split at h
    · cases h
      exact .acquired _
    · cases h
      exact .refused
  | lookup =>
    cases old <;> try cases h
    simp only [requestEffect] at h
    split at h
    · rename_i task hfind
      cases h
      exact .existing task hfind
    · cases h
      exact .absent
  | prepare =>
    cases old <;> try cases h
    simp only [requestEffect] at h
    split at h
    · cases h
      exact .prepared _
    · cases h
      exact .gaveUp (.inl rfl)
  | insert id =>
    cases old <;> try cases h
    simp only [requestEffect] at h
    split at h
    · cases h
      exact .inserted _ id
    · cases h
      exact .gaveUp (.inl rfl)
  | log id =>
    cases old <;> cases h
    exact .logged _ _ ⟨id, _, _, _⟩
  | extract =>
    cases old <;> try cases h
    simp only [requestEffect] at h
    split at h
    · cases h
      exact .extracted _ _ _ _
    · cases h
      exact .gaveUp (.inl rfl)
  | commit =>
    cases old <;> try cases h
    simp only [requestEffect] at h
    split at h
    · rename_i haccepts
      cases h
      exact .committed _ _ haccepts
    · cases h
      exact .gaveUp (.inl rfl)
  | commitRaises done =>
    cases old <;> try cases h
    simp only [requestEffect] at h
    split at h
    · rename_i haccepts
      cases h
      obtain ⟨rfl, haccepts⟩ := haccepts
      exact .committedRaised _ _ haccepts
    · cases h
      exact .gaveUp (.inl rfl)
  | read =>
    cases old <;> cases h
    exact .found _ _ rfl
  | release =>
    cases old <;> cases h
    exact .released _ _
  | raise =>
    obtain ⟨target, htarget, he⟩ : ∃ target, raisedTo old = some target ∧
        (s, target, false) = (next, stage, committed) := by
      cases old <;> exact Option.map_eq_some_iff.mp h
    cases he
    exact .gaveUp (raisedTo_gives_up htarget)
  | crash =>
    cases old <;> cases h
    all_goals exact .gaveUp (.inr rfl)

/-- A committed row of this owner and key with this primary key. -/
def Holds (tables : Tables) (r : Request) (task_id : Nat) : Prop :=
  ∃ w ∈ tables.tasks, ownerKey w.row = (r.actor.tenant_id, r.key) ∧ w.row.id = task_id

/-- What a request knows at its stage. -/
def StageOk (tables : Tables) (r : Request) : Stage → Prop
  | .inserted _ task | .logged _ task _ | .extracted task _ =>
    ownerKey task = (r.actor.tenant_id, r.key)
  | .committed task_id => Holds tables r task_id
  | .releasing (some response) | .answered response =>
    (response.status_code = 200 ∨ response.status_code = 201) ∧ Holds tables r response.task_id
  | _ => True

/-- The request has written no row. -/
structure Unwritten (tables : Tables) (rid : Nat) : Prop where
  tasks : ∀ w ∈ tables.tasks, w.writer ≠ some rid
  items : ∀ w ∈ tables.items, w.writer ≠ some rid
  events : ∀ w ∈ tables.events, w.writer ≠ some rid

/-- The constraints hold, and writers are requests that have arrived. -/
structure Consistent (tables : Tables) (next_request : Nat) : Prop where
  ids : Unique Task.id tables.tasks
  keys : Unique ownerKey tables.tasks
  fresh : ∀ rid, next_request ≤ rid → Unwritten tables rid

structure Invariant (s : State) : Prop where
  tables : Consistent s.tables s.next_request
  rids : (s.requests.map Request.rid).Nodup
  fresh : ∀ r ∈ s.requests, r.rid < s.next_request
  stages : ∀ r ∈ s.requests, StageOk s.tables r r.stage
  unwritten : ∀ r ∈ s.requests, r.committed = false → Unwritten s.tables r.rid

/-- What the tables do in a step of a request. -/
theorem move_tables (h : Move py settings s r old action next stage committed) :
    next.requests = s.requests ∧ next.next_request = s.next_request ∧
      ((committed = false ∧ next.tables = s.tables) ∨ (committed = true ∧ ∃ task event,
        old = .extracted task event ∧ Accepts s.tables task ∧
        next.tables = s.tables.add r.rid task event)) := by
  cases h with
  | committed task event haccepts => exact ⟨rfl, rfl, .inr ⟨rfl, task, event, rfl, haccepts, rfl⟩⟩
  | committedRaised task event haccepts => exact ⟨rfl, rfl, .inr ⟨rfl, task, event, rfl, haccepts, rfl⟩⟩
  | _ => exact ⟨rfl, rfl, .inl ⟨rfl, rfl⟩⟩

theorem Holds.grow (h : Holds tables r task_id) (hp : tables.tasks <+: tables'.tasks) :
    Holds tables' r task_id := by
  obtain ⟨w, hw, hrest⟩ := h
  exact ⟨w, hp.subset hw, hrest⟩

theorem StageOk.grow {tables' : Tables} (h : StageOk tables r stage)
    (hp : tables.tasks <+: tables'.tasks) : StageOk tables' r stage := by
  cases stage with
  | committed id => exact Holds.grow h hp
  | answered response => exact ⟨h.1, Holds.grow h.2 hp⟩
  | releasing response =>
    cases response with
    | none => trivial
    | some response => exact ⟨h.1, Holds.grow h.2 hp⟩
  | inserted | logged | extracted => exact h
  | _ => trivial

theorem move_stage (hu : Unique Task.id s.tables.tasks)
    (hm : Move py settings s r old action next stage committed) (h : StageOk s.tables r old) :
    StageOk next.tables r stage := by
  cases hm with
  | existing task hfind =>
    obtain ⟨w, hw, rfl⟩ := Option.map_eq_some_iff.mp hfind
    have hkey := List.find?_some hw
    exact ⟨.inl rfl, w, List.mem_of_find?_eq_some hw, by simpa using hkey, rfl⟩
  | inserted => rfl
  | logged => exact h
  | extracted => exact h
  | committed task event =>
    exact ⟨_, List.mem_append_right _ (List.mem_singleton_self _), h, rfl⟩
  | found task_id response he =>
    cases response with
    | none => trivial
    | some response =>
      obtain ⟨task, hfind, rfl⟩ := Option.map_eq_some_iff.mp he.symm
      obtain ⟨w, hw, rfl⟩ := Option.map_eq_some_iff.mp hfind
      obtain ⟨v, hv, hkey, hid⟩ := h
      have hwid : w.row.id = task_id := by simpa using List.find?_some hw
      obtain rfl : v = w := hu.eq hv (List.mem_of_find?_eq_some hw) (hid.trans hwid.symm)
      exact ⟨.inr rfl, v, hv, hkey, rfl⟩
  | released response =>
    cases response with
    | none => trivial
    | some response => exact h
  | gaveUp hend => rcases hend with rfl | rfl <;> trivial
  | _ => trivial

theorem Consistent.later (h : Consistent tables n) (hn : n ≤ m) : Consistent tables m :=
  ⟨h.ids, h.keys, fun rid hrid => h.fresh rid (Nat.le_trans hn hrid)⟩

/-- A request adds rows of its own only. -/
theorem Unwritten.add {rid other : Nat} {task : Task} {event : TaskEvent}
    (h : Unwritten tables other) (hne : other ≠ rid) : Unwritten (tables.add rid task event) other := by
  have hwriter : some rid ≠ some other := fun he => hne (Option.some.inj he).symm
  refine ⟨fun w hw => ?_, h.items, fun w hw => ?_⟩
  · rcases List.mem_append.mp hw with hw | hw
    · exact h.tasks w hw
    · rw [List.mem_singleton.mp hw]
      exact hwriter
  · rcases List.mem_append.mp hw with hw | hw
    · exact h.events w hw
    · rw [List.mem_singleton.mp hw]
      exact hwriter

theorem Consistent.add {rid : Nat} {task : Task} {event : TaskEvent} (h : Consistent tables n)
    (ha : Accepts tables task) (hrid : rid < n) : Consistent (tables.add rid task event) n :=
  ⟨h.ids.commit ha.1 _, h.keys.commit ha.2 _,
    fun other ho => (h.fresh other ho).add (Nat.ne_of_gt (Nat.lt_of_lt_of_le hrid ho))⟩

/-- The tables after a step of a request have the rows that they had, and its own. -/
theorem moved_tables (h : (committed = false ∧ next.tables = s.tables) ∨
      (committed = true ∧ ∃ task event, old = .extracted task event ∧ Accepts s.tables task ∧
        next.tables = s.tables.add r.rid task event)) (hc : Consistent s.tables n) (hr : r.rid < n) :
    Consistent next.tables n ∧ s.tables.tasks <+: next.tables.tasks ∧
      ∀ other, (other = r.rid → committed = false) → Unwritten s.tables other →
        Unwritten next.tables other := by
  rcases h with ⟨_, hsame⟩ | ⟨hcommitted, task, event, _, haccepts, hadd⟩
  · rw [hsame]
    exact ⟨hc, List.prefix_refl _, fun _ _ hu => hu⟩
  · rw [hadd]
    refine ⟨hc.add haccepts hr, List.prefix_append _ _, fun other hne hu => hu.add (fun he => ?_)⟩
    have := hne he
    rw [hcommitted] at this
    cases this

/-- A request that arrives has done nothing. -/
theorem arrive_invariant (hi : Invariant s) (hrid : r.rid = s.next_request)
    (hstart : r.stage = .starting) :
    Invariant { s with requests := s.requests ++ [r], next_request := s.next_request + 1 } := by
  refine ⟨hi.tables.later (Nat.le_succ _), ?_, ?_, ?_, ?_⟩
  · exact Rows.append_nodup hi.rids (fun q hq => hrid ▸ hi.fresh q hq)
  · refine Rows.append_all (fun q hq => Nat.lt_succ_of_lt (hi.fresh q hq)) ?_
    rw [hrid]
    exact Nat.lt_succ_self _
  · refine Rows.append_all hi.stages ?_
    rw [hstart]
    trivial
  · refine Rows.append_all hi.unwritten (fun _ => ?_)
    rw [hrid]
    exact hi.tables.fresh _ (Nat.le_refl _)

/-- A step of a request changes that request and, when it commits, the tables. -/
theorem move_invariant (hi : Invariant s) (hfind : Rows.find? s.requests r.rid = some r)
    (hmove : Move py settings s r r.stage action next stage committed) :
    Invariant { next with
      requests := Rows.update s.requests r.rid (fun q =>
        { q with stage := stage, committed := q.committed || committed }) } ∧
      s.tables.tasks <+: next.tables.tasks := by
  obtain ⟨hrequests, hnext, htables⟩ := move_tables hmove
  have hr := Rows.find_mem hfind
  obtain ⟨hconsistent, hprefix, hunwritten⟩ := moved_tables htables hi.tables (hi.fresh r hr)
  have hkeys : (Rows.update s.requests r.rid (fun q =>
      { q with stage := stage, committed := q.committed || committed })).map Request.rid =
      s.requests.map Request.rid := Rows.update_map Request.rid (fun _ => rfl)
  have hcases : ∀ q ∈ Rows.update s.requests r.rid (fun q =>
      { q with stage := stage, committed := q.committed || committed }),
      q = { r with stage := stage, committed := r.committed || committed } ∨
        q ∈ s.requests ∧ q.rid ≠ r.rid := fun q hq => Rows.mem_update_cases hi.rids hfind hq
  refine ⟨⟨hnext ▸ hconsistent, hkeys ▸ hi.rids, ?_, ?_, ?_⟩, hprefix⟩
  · intro q hq
    rcases hcases q hq with rfl | ⟨hq, _⟩
    · exact hnext ▸ hi.fresh r hr
    · exact hnext ▸ hi.fresh q hq
  · intro q hq
    rcases hcases q hq with rfl | ⟨hq, _⟩
    · have hstage := move_stage hi.tables.ids hmove (hi.stages r hr)
      exact hstage
    · exact (hi.stages q hq).grow hprefix
  · intro q hq hno
    rcases hcases q hq with rfl | ⟨hq, hne⟩
    · obtain ⟨hr', hc'⟩ := Bool.or_eq_false_iff.mp hno
      exact hunwritten _ (fun _ => hc') (hi.unwritten r hr hr')
    · exact hunwritten _ (fun he => absurd he hne) (hi.unwritten q hq hno)

theorem step_invariant {a : CreateTask.Action} (hi : Invariant s)
    (h : step py settings s a = some s') : Invariant s' ∧ s.tables.tasks <+: s'.tables.tasks := by
  cases a with
  | arrive actor idempotency_key uuid files submission_label =>
    simp only [step] at h
    split at h
    · cases h
      exact ⟨arrive_invariant hi rfl rfl, List.prefix_refl _⟩
    · cases h
  | request rid action =>
    obtain ⟨r, hfind, h⟩ := Option.bind_eq_some_iff.mp h
    obtain ⟨⟨next, stage, committed⟩, heffect, rfl⟩ := Option.map_eq_some_iff.mp h
    obtain rfl : r.rid = rid := Rows.find_key hfind
    exact move_invariant hi hfind (effect_move heffect)
  | expire key =>
    cases h
    exact ⟨⟨hi.tables, hi.rids, hi.fresh, hi.stages, hi.unwritten⟩, List.prefix_refl _⟩
  | tick =>
    cases h
    exact ⟨⟨hi.tables, hi.rids, hi.fresh, hi.stages, hi.unwritten⟩, List.prefix_refl _⟩

/-- No request has committed anything yet, and the constraints hold. -/
structure Loaded (tables : Tables) : Prop where
  ids : Unique Task.id tables.tasks
  keys : Unique ownerKey tables.tasks
  writers : ∀ rid, Unwritten tables rid

variable {dirs : Text → Option TaskDir} {claims : IdempotencyGuard.Store} {now : Time}

theorem reachable_invariant (hl : Loaded tables)
    (h : Run (step py settings) Free (initial tables dirs claims now) s) : Invariant s := by
  refine h.invariant Invariant ⟨⟨hl.ids, hl.keys, fun rid _ => hl.writers rid⟩, ?_, ?_, ?_, ?_⟩
    (fun _ _ _ hi _ hs => (step_invariant hi hs).1)
  all_goals simp [initial]

/-- Committed tasks stay. -/
theorem run_grows (hi : Invariant s) (h : Run (step py settings) Free s s') :
    s.tables.tasks <+: s'.tables.tasks := by
  have hall : Invariant s' ∧ s.tables.tasks <+: s'.tables.tasks := by
    refine h.invariant (fun u => Invariant u ∧ s.tables.tasks <+: u.tables.tasks)
      ⟨hi, List.prefix_refl _⟩ ?_
    rintro u a v ⟨hu, hp⟩ _ hs
    obtain ⟨hv, hstep⟩ := step_invariant hu hs
    exact ⟨hv, hp.trans hstep⟩
  exact hall.2

/-- Whatever the interleaving and the failures: one committed task for an owner and a key, which
stays and which all answers name, and nothing of a request that has not committed. -/
theorem created_once (py : Python) (settings : Settings) (hl : Loaded tables)
    (h : Run (step py settings) Free (initial tables dirs claims now) s) (tenant key : String) :
    (s.tables.tasks.filter (fun w => ownerKey w.row == (tenant, key))).length ≤ 1 ∧
    (∀ u, Run (step py settings) Free s u → s.tables.tasks <+: u.tables.tasks) ∧
    (∀ r ∈ s.requests, r.actor.tenant_id = tenant → r.key = key → ∀ response,
      r.stage = .answered response →
        (response.status_code = 200 ∨ response.status_code = 201) ∧
        ∃ w ∈ s.tables.tasks, ownerKey w.row = (tenant, key) ∧ w.row.id = response.task_id) ∧
    (∀ r ∈ s.requests, r.committed = false → Unwritten s.tables r.rid) := by
  have hi := reachable_invariant hl h
  refine ⟨hi.tables.keys.count (tenant, key), fun u hu => run_grows hi hu, ?_, hi.unwritten⟩
  rintro r hr rfl rfl response hst
  have hok := hi.stages r hr
  rw [hst] at hok
  exact hok

/-- Two requests pass the look-up before either has committed; a third one comes later. -/
theorem concurrent_creates :
    ∃ s, Run (step Bridge.Sample.py
        { Bridge.Sample.cfg.settings with redis_idempotency_enabled := false }) Free
        (initial ⟨[], [], []⟩ (fun _ => none) (fun _ => none) 0) s ∧
      s.requests.map (·.stage) =
        [.answered ⟨201, 10, .draft⟩, .failed, .answered ⟨200, 10, .draft⟩] ∧
      (s.tables.tasks.filter (fun w => ownerKey w.row == ("hq", "k"))).length ≤ 1 ∧
      ∀ r ∈ s.requests, r.committed = false → Unwritten s.tables r.rid := by
  let both : RequestAction → RequestAction → List CreateTask.Action :=
    fun a b => [.request 0 a, .request 1 b]
  let arrive : CreateTask.Action :=
    .arrive Bridge.Sample.actor (some "k") "" [("acme/a.txt".toList, [1])] none
  obtain ⟨s, hs, hp⟩ := replay_reaches (step Bridge.Sample.py
      { Bridge.Sample.cfg.settings with redis_idempotency_enabled := false }) Free
    (p := fun s => s.requests.map (·.stage) =
      [.answered ⟨201, 10, .draft⟩, .failed, .answered ⟨200, 10, .draft⟩])
    (initial ⟨[], [], []⟩ (fun _ => none) (fun _ => none) 0)
    ([arrive, arrive] ++ both .acquire .acquire ++ both .lookup .lookup ++ both .prepare .prepare ++
      both (.insert 10) (.insert 20) ++ both (.log 11) (.log 21) ++ both .extract .extract ++
      both .commit .commit ++ both .read .release ++ [.request 0 .release, arrive, .request 2 .acquire,
        .request 2 .lookup, .request 2 .release])
    (by decide +kernel)
  have hl : Loaded ⟨[], [], []⟩ :=
    ⟨.nil, .nil, fun _ => ⟨by simp, by simp, by simp⟩⟩
  obtain ⟨hone, _, _, hnone⟩ := created_once _ _ hl hs "hq" "k"
  exact ⟨s, hs, hp, hone, hnone⟩

/-- `get_by_idempotency_key` on the rows alone. -/
theorem find_key_rows (tables : Tables) (key tenant_id : String) :
    findKey tables key tenant_id = (tables.tasks.map (·.row)).find? (fun t =>
      t.idempotency_key == key && tenantAllows (some tenant_id) t.owner_tenant_id) := by
  rw [List.find?_map, findKey]
  congr 2
  funext w
  simp only [ownerKey, tenantAllows, Function.comp_apply]
  rw [Bool.eq_iff_iff]
  simp only [Bool.and_eq_true, beq_iff_eq, Prod.mk.injEq]
  exact ⟨fun ⟨howner, hkey⟩ => ⟨hkey, howner.symm⟩, fun ⟨hkey, howner⟩ => ⟨howner.symm, hkey⟩⟩

/-- A step of the request that has arrived last. -/
theorem advance_last {earlier : List Request} (hlast : s.requests = earlier ++ [r])
    (hnew : ∀ q ∈ earlier, q.rid ≠ r.rid)
    (h : requestEffect py settings s r r.stage action = some (next, stage, committed)) :
    step py settings s (.request r.rid action) = some { next with
      requests := earlier ++ [{ r with stage := stage, committed := r.committed || committed }] } := by
  have hfind : Rows.find? s.requests r.rid = some r := by
    rw [hlast]
    exact Rows.find_append_new hnew
  have hupdate : Rows.update (earlier ++ [r]) r.rid (fun q =>
      { q with stage := stage, committed := q.committed || committed }) =
      earlier ++ [{ r with stage := stage, committed := r.committed || committed }] :=
    Rows.update_append_new hnew
  simp only [step, advance, hfind, Option.bind_some, h, Option.map_some]
  rw [hlast]
  exact congrArg some (congrArg (fun requests => { next with requests := requests }) hupdate)

/-- The same at the end of a run. -/
theorem run_last {start : State} {earlier : List Request} (hrun : Run (step py settings) Free start s)
    (hlast : s.requests = earlier ++ [r]) (hnew : ∀ q ∈ earlier, q.rid ≠ r.rid)
    (h : requestEffect py settings s r r.stage action = some (next, stage, committed)) :
    ∃ t, Run (step py settings) Free start t ∧ t.tables = next.tables ∧ t.dirs = next.dirs ∧
      t.now = next.now ∧
      t.requests = earlier ++ [{ r with stage := stage, committed := r.committed || committed }] :=
  ⟨_, .tail hrun trivial (advance_last hlast hnew h), rfl, rfl, rfl, rfl⟩

/-- The committed rows are those of a database. -/
def Agrees (tables : Tables) (db : Db) : Prop :=
  tables.tasks.map (·.row) = db.tasks ∧ tables.events.map (·.row) = db.events

section Steps
variable {archive : FolderUpload.PreparedArchive} {task : Task} {event : TaskEvent} {id : Nat}

theorem acquire_granted {claims : IdempotencyGuard.Store}
    (h : IdempotencyGuard.acquire settings.redis_idempotency_enabled s.claims r.claim r.rid =
      some claims) :
    requestEffect py settings s r .starting .acquire =
      some ({ s with claims := claims }, .claimed, false) := by
  simp only [requestEffect, h]

theorem lookup_absent (h : findKey s.tables r.key r.actor.tenant_id = none) :
    requestEffect py settings s r .claimed .lookup = some (s, .absent, false) := by
  simp only [requestEffect, h]

theorem prepare_ok (h : FolderUpload._prepare_folder_upload py settings.limits
      (r.files.filter (fun f => f.1 ≠ [])) r.submission_label = .ok archive) :
    requestEffect py settings s r .absent .prepare = some (s, .prepared archive, false) := by
  simp only [requestEffect, h]

theorem insert_ok (id : Nat) (h : Accepts s.tables (newTask r archive.label id s.now)) :
    requestEffect py settings s r (.prepared archive) (.insert id) =
      some (s, .inserted archive (newTask r archive.label id s.now), false) := by
  simp only [requestEffect, if_pos h]

theorem log_ok (event : TaskEvent) (ht : event.task_id = task.id) (hn : event.created_at = s.now)
    (hp : event.payload = .task_created r.actor (String.ofList archive.label)) :
    requestEffect py settings s r (.inserted archive task) (.log event.id) =
      some (s, .logged archive task event, false) := by
  simp only [requestEffect, ← ht, ← hn, ← hp]

theorem extract_ok {files : List (List Text × Bytes)} {dir : Text} {stored : TaskDir}
    (h : FolderUpload._extract_internal_archive settings.limits archive.archive = .ok files)
    (hd : extractDir settings task.id = dir)
    (hs : FolderUpload.taskDir py archive.archive files = stored) :
    requestEffect py settings s r (.logged archive task event) .extract =
      some ({ s with dirs := Function.update s.dirs dir (some stored) },
        .extracted { task with temp_dir := dir } event, false) := by
  subst hd hs
  simp only [requestEffect, h]

theorem commit_ok (h : Accepts s.tables task) :
    requestEffect py settings s r (.extracted task event) .commit =
      some ({ s with tables := s.tables.add r.rid task event }, .committed task.id, true) := by
  simp only [requestEffect, if_pos h]

theorem read_ok (h : findTask s.tables id = some task) :
    requestEffect py settings s r (.committed id) .read =
      some (s, .releasing (some (respond 201 task)), false) := by
  simp only [requestEffect, h, Option.map_some]

theorem release_ok (py : Python) (settings : Settings) (s : State) (r : Request) (response : Response) :
    ∃ claims, requestEffect py settings s r (.releasing (some response)) .release =
      some ({ s with claims := claims }, .answered response, false) := ⟨_, rfl⟩

/-- A row is found at its primary key once it is added. -/
theorem find_added {rid : Nat} (hids : ∀ w ∈ tables.tasks, w.row.id ≠ task.id) :
    findTask (tables.add rid task event) task.id = some task := by
  have hnone : tables.tasks.find? (fun w => w.row.id == task.id) = none :=
    List.find?_eq_none.mpr (fun w hw he => hids w hw (beq_iff_eq.mp he))
  simp [findTask, Tables.add, List.find?_append, hnone]

/-- All steps of a request that nothing comes between. -/
theorem run_alone {start : State} {earlier : List Request} {files : List (List Text × Bytes)}
    {label : String} (id event_id : Nat) (hrun : Run (step py settings) Free start s)
    (hlast : s.requests = earlier ++ [r]) (hnew : ∀ q ∈ earlier, q.rid ≠ r.rid)
    (hstart : r.stage = .starting) (hlabel : String.ofList archive.label = label)
    (hclaims : IdempotencyGuard.acquire settings.redis_idempotency_enabled s.claims r.claim r.rid =
      some claims)
    (habsent : findKey s.tables r.key r.actor.tenant_id = none)
    (hprepare : FolderUpload._prepare_folder_upload py settings.limits
      (r.files.filter (fun f => f.1 ≠ [])) r.submission_label = .ok archive)
    (hextract : FolderUpload._extract_internal_archive settings.limits archive.archive = .ok files)
    (hids : ∀ w ∈ s.tables.tasks, w.row.id ≠ id) :
    ∃ s', Run (step py settings) Free start s' ∧
      s'.tables = s.tables.add r.rid
        { newTask r archive.label id s.now with temp_dir := extractDir settings id }
        ⟨event_id, id, .task_created r.actor label, s.now⟩ ∧
      s'.dirs = Function.update s.dirs (extractDir settings id)
        (some (FolderUpload.taskDir py archive.archive files)) ∧
      s'.requests = earlier ++
        [{ r with stage := .answered ⟨201, id, .draft⟩, committed := r.committed || true }] := by
  subst hlabel
  have haccepts : ∀ task : Task, task.id = id → ownerKey task = (r.actor.tenant_id, r.key) →
      Accepts s.tables task := by
    intro task hid howner
    refine ⟨fun w hw he => hids w hw (he.trans hid), fun w hw he => ?_⟩
    have hother := List.find?_eq_none.mp (Option.map_eq_none_iff.mp habsent) w hw
    exact hother (beq_iff_eq.mpr (he.trans howner))
  let added := newTask r archive.label id s.now
  let stored := { added with temp_dir := extractDir settings id }
  let event : TaskEvent := ⟨event_id, id, .task_created r.actor (String.ofList archive.label), s.now⟩
  obtain ⟨s₁, h₁, ht₁, hd₁, hn₁, hr₁⟩ := run_last hrun hlast hnew
    (by rw [hstart]; exact acquire_granted hclaims)
  obtain ⟨s₂, h₂, ht₂, hd₂, hn₂, hr₂⟩ := run_last h₁ hr₁ hnew
    (lookup_absent (by rw [ht₁]; exact habsent))
  obtain ⟨s₃, h₃, ht₃, hd₃, hn₃, hr₃⟩ := run_last h₂ hr₂ hnew (prepare_ok hprepare)
  have hnow₃ : s₃.now = s.now := hn₃.trans (hn₂.trans hn₁)
  have htables₃ : s₃.tables = s.tables := ht₃.trans (ht₂.trans ht₁)
  have hadded : Accepts s₃.tables added := htables₃ ▸ haccepts added rfl rfl
  obtain ⟨s₄, h₄, ht₄, hd₄, hn₄, hr₄⟩ := run_last h₃ hr₃ hnew
    (insert_ok id (by rw [hnow₃]; exact hadded))
  obtain ⟨s₅, h₅, ht₅, hd₅, hn₅, hr₅⟩ := run_last h₄ hr₄ hnew
    (log_ok event rfl (hn₄.trans hnow₃).symm rfl)
  obtain ⟨s₆, h₆, ht₆, hd₆, hn₆, hr₆⟩ := run_last h₅ hr₅ hnew (extract_ok hextract rfl rfl)
  have hstored₆ : s₆.requests = earlier ++ [{ r with stage := .extracted stored event }] := by
    rw [hr₆, hnow₃]
    simp only [Bool.or_false]
    rfl
  have htables₆ : s₆.tables = s.tables := ht₆.trans (ht₅.trans (ht₄.trans htables₃))
  have hdirs₅ : s₅.dirs = s.dirs := hd₅.trans (hd₄.trans (hd₃.trans (hd₂.trans hd₁)))
  obtain ⟨s₇, h₇, ht₇, hd₇, _, hr₇⟩ := run_last h₆ hstored₆ hnew
    (commit_ok (htables₆ ▸ haccepts stored rfl rfl))
  have htables₇ : s₇.tables = s.tables.add r.rid stored event := by rw [ht₇, htables₆]
  obtain ⟨s₈, h₈, ht₈, hd₈, _, hr₈⟩ := run_last h₇ hr₇ hnew
    (read_ok (by rw [htables₇]; exact find_added hids))
  let answering := { r with
    stage := .releasing (some (respond 201 stored)), committed := r.committed || true }
  have hanswering₈ : s₈.requests = earlier ++ [answering] := by simpa only [Bool.or_false] using hr₈
  obtain ⟨_, hrelease⟩ := release_ok py settings s₈ answering (respond 201 stored)
  obtain ⟨s₉, h₉, ht₉, hd₉, _, hr₉⟩ := run_last h₈ hanswering₈ hnew hrelease
  refine ⟨s₉, h₉, ht₉.trans (ht₈.trans htables₇), ?_, ?_⟩
  · rw [hd₉, hd₈, hd₇, hd₆, hdirs₅]
    rfl
  · rw [hr₉]
    simp only [answering, Bool.or_false]
    rfl

end Steps

/-- A request as it comes in, with the key that its client has sent. -/
def arriving (s : State) (actor : CurrentActor) (key uuid : String) (files : List (Text × Bytes))
    (label : Option Text) : Request :=
  ⟨s.next_request, actor, some key, uuid, files, label, .starting, false⟩

theorem run_arrives {actor : CurrentActor} (hactor : actor.can_write_tasks = true) (s : State)
    (key uuid : String) (files : List (Text × Bytes)) (label : Option Text) :
    Run (step py settings) Free s { s with
      requests := s.requests ++ [arriving s actor key uuid files label]
      next_request := s.next_request + 1 } := by
  refine .tail (.refl s) trivial (a := Action.arrive actor (some key) uuid files label) ?_
  simp only [step, if_pos hactor]
  rfl

theorem arriving_key (hkey : key ≠ "") : (arriving s actor key uuid files label).key = key := by
  simp [arriving, Request.key, Option.filter, hkey]

/-- It does what `create_task` does in one step. -/
theorem alone_created {db db' : Db} {actor : CurrentActor} {key uuid : String}
    {files : List (Text × Bytes)} {label : Option Text} {id : Nat} {dir : TaskDir}
    (hcreate : Tasks.create_task py settings db actor key files label = .ok (.created db' id dir))
    (hs : Agrees s.tables db) (hnow : s.now = db.now) (hfresh : ∀ t ∈ db.tasks, t.id < db.next_id)
    (hrids : ∀ q ∈ s.requests, q.rid < s.next_request) (hkey : key ≠ "")
    (hclaim : ∀ claim, (IdempotencyGuard.acquire settings.redis_idempotency_enabled s.claims claim
      s.next_request).isSome) :
    ∃ s', Run (step py settings) Free s s' ∧ Agrees s'.tables db' ∧
      s'.dirs = Function.update s.dirs (extractDir settings id) (some dir) ∧
      ∃ r ∈ s'.requests, r.rid = s.next_request ∧ r.stage = .answered ⟨201, id, .draft⟩ := by
  unfold Tasks.create_task at hcreate
  split at hcreate
  swap
  · cases hcreate
  rename_i hwriter
  split at hcreate
  · cases hcreate
  rename_i hnone
  obtain ⟨archive, hprepare, hcreate⟩ := Fallible.bind_ok.mp hcreate
  obtain ⟨extracted, hextract, hcreate⟩ := Fallible.map_ok.mp hcreate
  cases hcreate
  let r := arriving s actor key uuid files label
  have hrkey : r.key = key := arriving_key hkey
  have habsent : findKey s.tables r.key r.actor.tenant_id = none := by
    rw [find_key_rows, hs.1, hrkey]
    exact hnone
  have hids : ∀ w ∈ s.tables.tasks, w.row.id ≠ db.next_id :=
    fun w hw => Nat.ne_of_lt (hfresh w.row (hs.1 ▸ List.mem_map_of_mem hw))
  obtain ⟨claims, hclaims⟩ := Option.isSome_iff_exists.mp (hclaim r.claim)
  obtain ⟨t, hrun, htables, hdirs, hrequests⟩ := run_alone db.next_id (db.next_id + 1)
    (run_arrives hwriter s key uuid files label) rfl
    (fun q hq => Nat.ne_of_lt (hrids q hq)) rfl rfl hclaims habsent hprepare hextract hids
  refine ⟨t, hrun, ⟨?_, ?_⟩, hdirs, _,
    hrequests ▸ List.mem_append_right _ (List.mem_singleton_self _), rfl, rfl⟩
  · rw [htables, Tables.add, List.map_append, hs.1]
    simp only [newTask, arriving_key hkey, hnow]
    rfl
  · rw [htables, Tables.add, List.map_append, hs.2]
    simp only [hnow]
    rfl

end FileDelivery.Proofs.CreateOnce
