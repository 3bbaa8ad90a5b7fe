import FileDelivery.Library.Runs
import FileDelivery.Proofs.RunSteps

namespace FileDelivery.Proofs.RunnerRecovery
open FileDelivery.Library FileDelivery.Library.Runs FileDelivery.Control
open FileDelivery.Control.TaskRunner FileDelivery.Bridge FileDelivery.Proofs.Moves
open FileDelivery.Proofs.Effects FileDelivery.Proofs.Tables FileDelivery.Proofs.Flow
open FileDelivery.Proofs.Recovery FileDelivery.Proofs.RunMoves FileDelivery.Proofs.RunCover
open FileDelivery.Proofs.RunSteps

variable {cfg : Config} {s s' : Background.State} {db db' : Db} {t : Task} {run r : TaskRun}
  {runs : List TaskRun} {rid k : Nat}

/-- No upload of the task has started. -/
def NotStarted (db : Db) (t : Nat) : Prop :=
  statusOf db t = some .draft ∨ statusOf db t = some .classified ∨ statusOf db t = some .confirmed

instance (db : Db) (t : Nat) : Decidable (NotStarted db t) :=
  inferInstanceAs (Decidable (_ ∨ _ ∨ _))

/-- The write of a confirmation comes before any upload. The write of a retry that resets
items has read the failed status it finds, and no run is engaged with the task. -/
structure CurrentWrite (s : Background.State) (r : WriteRequest) : Prop where
  confirm : r.kind = .confirm → NotStarted s.base.db r.task.id
  retry : r.kind = .retry →
    (∃ i ∈ s.base.db.items,
      ItemRepo.resettable s.base.db r.task.id (some r.actor.tenant_id) i = true) →
    (∀ run ∈ s.runs, Engaged run → run.task_id ≠ r.task.id) ∧
      ((statusOf s.base.db r.task.id = some .failed ∨
          statusOf s.base.db r.task.id = some .partial_failed) →
        (r.task.status = .failed ∨ r.task.status = .partial_failed))

instance (s : Background.State) (r : WriteRequest) : Decidable (CurrentWrite s r) :=
  decidable_of_iff (_ ∧ _) ⟨fun h => ⟨h.1, h.2⟩, fun h => ⟨h.confirm, h.retry⟩⟩

/-- The steps of the python backend that strand no task. -/
def Unbroken (s : Background.State) : Background.Action → Prop
  | .request (.classify _ t _) => NotStarted s.base.db t
  | .request (.write rid) => ∀ r ∈ Rows.find? s.base.writes rid, CurrentWrite s r
  | .run rid action => ∀ run ∈ Rows.find? s.runs rid, LeavesNothing s run action
  | _ => True

instance (s : Background.State) : (a : Background.Action) → Decidable (Unbroken s a)
  | .request (.classify _ t _) => inferInstanceAs (Decidable (NotStarted s.base.db t))
  | .request (.write rid) =>
    inferInstanceAs (Decidable (∀ r ∈ Rows.find? s.base.writes rid, CurrentWrite s r))
  | .run rid action =>
    inferInstanceAs (Decidable (∀ run ∈ Rows.find? s.runs rid, LeavesNothing s run action))
  | .schedule _ => .isTrue trivial
  | .request (.create _ _ _ _) | .request (.read _ _ _) | .request (.uploadRead _ _)
  | .request (.upload _ _) | .request (.worker _) | .request (.apply _) | .request (.cleanup _)
  | .request (.workspace _ _ _ _) | .request (.expire _) | .request .tick => .isTrue trivial

/-- Every key that rows, requests and runs refer to is used up. -/
structure Bounds (cfg : Config) (s : Background.State) : Prop where
  tables : Wellformed cfg s.base.db
  items : ∀ i ∈ s.base.db.items, i.task_id < s.base.db.next_id
  uploads : ∀ r ∈ s.base.uploads, r.task.id < s.base.db.next_id
  rids : (s.runs.map TaskRun.rid).Nodup
  fresh : ∀ run ∈ s.runs, run.rid < s.base.next_request
  known : ∀ run ∈ s.runs, run.task_id < s.base.db.next_id

theorem covered_same (h : Covered db runs) (ht : db'.tasks = db.tasks) (hi : db'.items = db.items) :
    Covered db' runs := by
  refine ⟨h.consistent, h.alone, fun q hq he => ?_, fun t hmem hnone => ?_⟩
  · have hactive := h.active q hq he
    exact hactive.frame (fun t hmem => hactive.status t (ht ▸ hmem)) (fun i _ => by rw [hi])
  · rw [hi]
    exact h.rest t (ht ▸ hmem) hnone

/-- A change to a task that no run is engaged with. -/
theorem covered_unowned (h : Covered db runs) (ho : Outside k db db')
    (hnone : ∀ q ∈ runs, Engaged q → q.task_id ≠ k)
    (hrest : ∀ t ∈ db'.tasks, t.id = k → AtRest db'.items t) : Covered db' runs := by
  refine ⟨h.consistent, h.alone, fun q hq he => (h.active q hq he).outside ho (hnone q hq he),
    fun t ht hq => ?_⟩
  by_cases hid : t.id = k
  · exact hrest t ht hid
  · exact (h.rest t (ho.tasks t ht hid) hq).outside ho hid

theorem not_started_find (h : NotStarted db k) : ∃ t ∈ db.tasks, t.id = k ∧
    (t.status = .draft ∨ t.status = .classified ∨ t.status = .confirmed) := by
  rcases h with h | h | h
  all_goals obtain ⟨t, ht, hid, hst⟩ := find_status h
  · exact ⟨t, ht, hid, .inl hst⟩
  · exact ⟨t, ht, hid, .inr (.inl hst)⟩
  · exact ⟨t, ht, hid, .inr (.inr hst)⟩

/-- Before its upload starts, a task has no engaged run, and no failed item. -/
theorem not_started_rest (h : Covered db runs) (hn : NotStarted db k) :
    (∀ q ∈ runs, Engaged q → q.task_id ≠ k) ∧
      ∀ i ∈ db.items, i.task_id = k → i.deliverable = true → Decided i ∧ i.upload_status ≠ .failed := by
  obtain ⟨t, ht, rfl, hst⟩ := not_started_find hn
  have hnone : ∀ q ∈ runs, Engaged q → q.task_id ≠ t.id := by
    intro q hq he hid
    have hbad := (h.active q hq he).status t ht hid.symm
    rcases hst with hst | hst | hst
    all_goals
      rw [hst] at hbad
      split at hbad <;> simp at hbad
  refine ⟨hnone, fun i hi hti hdel => ?_⟩
  have hrest := h.rest t ht hnone
  exact ⟨hrest.each i hi hti hdel, hrest.none_failed hst i hi hti hdel⟩

/-- A write of a status without promises, before the upload starts. -/
theorem not_started_write (h : Covered db runs) (hn : NotStarted db k)
    (hw : StatusWrite k st g db.tasks db'.tasks)
    (hst : st = .classified ∨ st = .confirmed)
    (hi : ∃ rows, db'.items = db.items ++ rows ∧
      ∀ i ∈ rows, i.task_id = k ∧ i.upload_status = .pending) : Covered db' runs := by
  obtain ⟨rows, hitems, hrows⟩ := hi
  obtain ⟨hnone, hold⟩ := not_started_rest h hn
  have hall : ∀ i ∈ db'.items, i.task_id = k → i.deliverable = true →
      Decided i ∧ i.upload_status ≠ .failed := by
    intro i hi hti hdel
    rcases List.mem_append.mp (hitems ▸ hi) with hi | hi
    · exact hold i hi hti hdel
    · have hp := (hrows i hi).2
      exact ⟨.inl hp, by simp [hp]⟩
  have ho : Outside k db db' := by
    refine ⟨fun _ ht hne => written_other hw ht hne, fun i hne => ?_⟩
    rw [hitems, List.mem_append, or_iff_left]
    exact fun hmem => hne (hrows i hmem).1
  refine covered_unowned h ho hnone (fun t ht hid => ?_)
  refine ⟨fun i hi hti hdel => (hall i hi (hti.trans hid) hdel).1, .inl ⟨?_, fun i hi hti hdel =>
    (hall i hi (hti.trans hid) hdel).2⟩⟩
  rw [written_status hw ht hid]
  exact .inr hst

/-- A retry that resets items of a task without an engaged run. -/
theorem retried_rest {r : WriteRequest} (hnt : (db.tasks.map Task.id).Nodup)
    (hreset : ItemRepo.resettable db r.task.id (some r.actor.tenant_id) j = true)
    (hj : j ∈ db.items)
    (hcur : (statusOf db r.task.id = some .failed ∨ statusOf db r.task.id = some .partial_failed) →
      (r.task.status = .failed ∨ r.task.status = .partial_failed))
    (hquiet : ¬Reopens db r → db'.tasks = db.tasks)
    (hwrite : Reopens db r → ∃ f, StatusWrite r.task.id .confirmed f db.tasks db'.tasks)
    (hitems : db'.items = db.items.map (resetRow db r))
    (hrest : ∀ t ∈ db.tasks, t.id = r.task.id → AtRest db.items t) (ht : t ∈ db'.tasks)
    (hid : t.id = r.task.id) : AtRest db'.items t := by
  have hnone : ∀ i ∈ db'.items, i.task_id = t.id → i.deliverable = true → i.upload_status ≠ .failed :=
    fun i hi hti _ => reset_none_failed hreset (hitems ▸ hi) (hti.trans hid)
  have mapped : ∀ p : TaskItem → Prop, (∀ i, p i → p (resetRow db r i)) →
      (∀ i ∈ db.items, i.task_id = t.id → i.deliverable = true → p i) →
      ∀ i ∈ db'.items, i.task_id = t.id → i.deliverable = true → p i := by
    intro p hp hold i hi hti hdel
    obtain ⟨q, hq, rfl⟩ := List.mem_map.mp (hitems ▸ hi)
    obtain ⟨_, htask, _, _, hdel'⟩ := core_eq_fields (resetRow_core db r q)
    exact hp q (hold q hq (htask ▸ hti) (hdel' ▸ hdel))
  by_cases hread : r.task.status = .failed ∨ r.task.status = .partial_failed
  · obtain ⟨f, hw⟩ := hwrite ⟨⟨j, hj, hreset⟩, hread⟩
    obtain ⟨y, hy, hyid, _⟩ := hw.mem ht
    refine ⟨mapped _ (fun _ => resetRow_decided) ?_, .inl ⟨.inr (.inr (written_status hw ht hid)), hnone⟩⟩
    rw [← hyid]
    exact (hrest y hy (hyid.trans hid)).each
  · have hold : t ∈ db.tasks := hquiet (fun hre => hread hre.2) ▸ ht
    have hr := hrest t hold hid
    refine ⟨mapped _ (fun _ => resetRow_decided) hr.each, ?_⟩
    rcases hr.status with ⟨hst, _⟩ | ⟨hst, hup⟩ | ⟨hst, _⟩
    · exact .inl ⟨hst, hnone⟩
    · exact .inr (.inl ⟨hst, mapped _ (fun i hi => (reset_uploaded db r i).mpr hi) hup⟩)
    · have hof := status_of hnt hold
      rw [hid] at hof
      rw [hof] at hcur
      rcases hst with hst | hst
      · exact absurd (hcur (.inl (by rw [hst]))) hread
      · exact absurd (hcur (.inr (by rw [hst]))) hread

/-- No step of a request uncovers a task. -/
theorem request_covered (hb : Bounds cfg s) (h : Covered s.base.db s.runs)
    (hshared : Background.shared a = true) (hok : Unbroken s (.request a))
    (hs : Bridge.step cfg s.base a = some u) : Covered u.db s.runs := by
  cases step_effect hs with
  | quiet ht hi _ => exact covered_same h ht hi
  | created task hid hst _ ht hi _ _ =>
    refine ⟨h.consistent, h.alone, fun q hq he => ?_, fun t hmem hnone => ?_⟩
    · have hactive := h.active q hq he
      refine hactive.frame (fun t hmem htid => ?_) (fun i _ => by rw [hi])
      rcases List.mem_append.mp (ht ▸ hmem) with hmem | hmem
      · exact hactive.status t hmem htid
      · have := hb.known q hq
        rw [List.mem_singleton.mp hmem] at htid
        omega
    · rw [hi]
      rcases List.mem_append.mp (ht ▸ hmem) with hmem | hmem
      · exact h.rest t hmem hnone
      · obtain rfl := List.mem_singleton.mp hmem
        have hempty : ∀ i ∈ s.base.db.items, i.task_id ≠ t.id := by
          intro i hmemi hti
          have := hb.items i hmemi
          omega
        exact ⟨fun i hmemi hti => absurd hti (hempty i hmemi),
          .inl ⟨.inl hst, fun i hmemi hti => absurd hti (hempty i hmemi)⟩⟩
  | classified rows _ htask hpending ht hi _ _ =>
    obtain ⟨f, hw⟩ := ht
    exact not_started_write h hok hw (.inl rfl) ⟨rows, hi, fun i hmem => ⟨htask i hmem, hpending i hmem⟩⟩
  | confirmed r hr hkind ht hi _ =>
    obtain ⟨f, hw⟩ := ht
    have hcur := (hok r hr : CurrentWrite s r).confirm hkind
    exact not_started_write h hcur hw (.inr rfl) ⟨[], by simp [hi], by simp⟩
  | retried r hr hkind hquiet hwrite hi _ =>
    have hcur := (hok r hr : CurrentWrite s r).retry hkind
    by_cases hreset : ∃ i ∈ s.base.db.items,
        ItemRepo.resettable s.base.db r.task.id (some r.actor.tenant_id) i = true
    case neg =>
      rw [reset_nothing hreset] at hi
      exact covered_same h (hquiet (fun hre => hreset hre.1)) hi
    obtain ⟨hnone, hread⟩ := hcur hreset
    obtain ⟨j, hj, hjreset⟩ := hreset
    have ho : Outside r.task.id s.base.db u.db := by
      refine ⟨fun t ht hne => ?_, fun i hne => ?_⟩
      · by_cases hre : Reopens s.base.db r
        · obtain ⟨f, hw⟩ := hwrite hre
          exact written_other hw ht hne
        · exact hquiet hre ▸ ht
      · rw [hi]
        exact mem_map_other (resetRow_core _ r) (fun _ hk => resetRow_other (hk ▸ hne)) rfl
    refine covered_unowned h ho hnone (fun t ht hid => ?_)
    exact retried_rest hb.tables.task_ids hjreset hj hread hquiet hwrite hi
      (fun y hy hyid => h.rest y hy (fun q hq he => hyid ▸ hnone q hq he)) ht hid
  | queued r message hr hstage ht hi _ => cases hshared
  | applied p hp hdb => cases hshared

theorem request_items (hb : Bounds cfg s) (hok : Unbroken s (.request a))
    (hshared : Background.shared a = true) (he : Effect cfg s.base u a) :
    s.base.db.next_id ≤ u.db.next_id ∧ ∀ i ∈ u.db.items, i.task_id < u.db.next_id := by
  have same : s.base.db.next_id ≤ u.db.next_id → u.db.items = s.base.db.items →
      s.base.db.next_id ≤ u.db.next_id ∧ ∀ i ∈ u.db.items, i.task_id < u.db.next_id :=
    fun hn hi => ⟨hn, fun i hmem => Nat.lt_of_lt_of_le (hb.items i (hi ▸ hmem)) hn⟩
  cases he with
  | quiet _ hi ho => exact same ho.next hi
  | created _ _ _ _ _ hi _ ho => exact same ho.next hi
  | classified rows _ htask _ _ hi _ ho =>
    refine ⟨ho.next, fun i hmem => ?_⟩
    obtain ⟨t, ht, hid, _⟩ := not_started_find hok
    have := hb.tables.task_fresh t ht
    have := ho.next
    rcases List.mem_append.mp (hi ▸ hmem) with hmem | hmem
    · have := hb.items i hmem
      omega
    · have := htask i hmem
      omega
  | confirmed _ _ _ _ hi ho => exact same ho.next hi
  | retried r _ _ _ _ hi ho =>
    refine ⟨ho.next, fun i hmem => ?_⟩
    obtain ⟨j, hj, rfl⟩ := List.mem_map.mp (hi ▸ hmem)
    rw [(core_eq_fields (resetRow_core s.base.db r j)).2.1]
    exact Nat.lt_of_lt_of_le (hb.items j hj) ho.next
  | queued _ _ _ _ _ _ _ => cases hshared
  | applied _ _ _ => cases hshared

/-- The rows that upload requests have read are rows of tasks. -/
theorem step_uploads (hs : Bridge.step cfg u a = some v) :
    u.next_request ≤ v.next_request ∧ ∀ r ∈ v.uploads,
      (∃ q ∈ u.uploads, q.task = r.task) ∨ ∃ t ∈ u.db.tasks, t.id = r.task.id := by
  have same : ∀ r ∈ u.uploads, (∃ q ∈ u.uploads, q.task = r.task) ∨ ∃ t ∈ u.db.tasks, t.id = r.task.id :=
    fun r hr => .inl ⟨r, hr, rfl⟩
  cases step_moves hs with
  | read => exact ⟨Nat.le_succ _, same⟩
  | began task hcheck =>
    refine ⟨Nat.le_succ _, fun r hr => ?_⟩
    rcases List.mem_append.mp hr with hr | hr
    · exact same r hr
    · obtain ⟨row, hrow, hid, _⟩ := read_known (upload_check_spec hcheck).1
      rw [List.mem_singleton.mp hr]
      exact .inr ⟨row, hrow, hid⟩
  | requested q w next hfind hmove =>
    refine ⟨Nat.le_of_eq (move_frame hmove).2.1.symm, fun r hr => ?_⟩
    cases next with
    | none => exact same r ((Rows.erase_sublist _ _).subset hr)
    | some stage =>
      obtain ⟨p, hp, rfl⟩ := Rows.mem_update.mp hr
      refine .inl ⟨p, hp, ?_⟩
      split <;> rfl
  | worked hmove =>
    cases hmove
    case started => exact ⟨Nat.le_succ _, same⟩
    all_goals exact ⟨Nat.le_refl _, same⟩
  | cleaned hmove =>
    cases hmove
    case started => exact ⟨Nat.le_succ _, same⟩
    all_goals exact ⟨Nat.le_refl _, same⟩
  | _ => exact ⟨Nat.le_refl _, same⟩

theorem request_bounds (hb : Bounds cfg s) (hok : Unbroken s (.request a))
    (hshared : Background.shared a = true) (hs : Bridge.step cfg s.base a = some u) :
    Bounds cfg { s with base := u } := by
  have he := step_effect hs
  obtain ⟨hnext, hitems⟩ := request_items hb hok hshared he
  obtain ⟨hreq, huploads⟩ := step_uploads hs
  refine ⟨effect_wellformed hb.tables he, hitems, fun r hr => ?_, hb.rids,
    fun run hrun => Nat.lt_of_lt_of_le (hb.fresh run hrun) hreq,
    fun run hrun => Nat.lt_of_lt_of_le (hb.known run hrun) hnext⟩
  refine Nat.lt_of_lt_of_le ?_ hnext
  rcases huploads r hr with ⟨q, hq, htask⟩ | ⟨t, ht, hid⟩
  · exact htask ▸ hb.uploads q hq
  · exact hid ▸ hb.tables.task_fresh t ht

theorem move_run (hm : RunMove db run action db' next) :
    ∀ r ∈ next, r.rid = run.rid ∧ r.task_id = run.task_id := by
  intro r hr
  cases hm <;> cases hr
  all_goals exact ⟨rfl, rfl⟩

theorem advance_bounds (hb : Bounds cfg s) (hfind : Rows.find? s.runs rid = some run)
    (hm : RunMove s.base.db run action db' next) (sink : Objects Bytes) :
    Bounds cfg { base := { s.base with db := db', sink := sink }, runs := Background.setRun s.runs rid next } := by
  obtain ⟨hw, hnext, hitems⟩ := move_tables hb.tables hm
  have hruns : ∀ q ∈ Background.setRun s.runs rid next,
      ∃ p ∈ s.runs, q.rid = p.rid ∧ q.task_id = p.task_id := by
    intro q hq
    cases next with
    | none => exact ⟨q, (Rows.erase_sublist _ _).subset hq, rfl, rfl⟩
    | some r =>
      rcases Rows.mem_update_cases hb.rids hfind hq with rfl | ⟨hq, _⟩
      · exact ⟨run, Rows.find_mem hfind, move_run hm q rfl⟩
      · exact ⟨q, hq, rfl, rfl⟩
  refine ⟨hw, fun i hi => ?_, fun r hr => Nat.lt_of_lt_of_le (hb.uploads r hr) hnext, ?_,
    fun q hq => ?_, fun q hq => ?_⟩
  · obtain ⟨j, hj, he⟩ := List.mem_map.mp (hitems ▸ List.mem_map_of_mem hi)
    exact he ▸ Nat.lt_of_lt_of_le (hb.items j hj) hnext
  · cases next with
    | none => exact hb.rids.sublist ((Rows.erase_sublist _ _).map _)
    | some r =>
      have hrid : r.rid = rid := (move_run hm r rfl).1.trans (Rows.find_key hfind)
      exact (Rows.replace_keys (r := r) hrid).symm ▸ hb.rids
  · obtain ⟨p, hp, hrid, _⟩ := hruns q hq
    exact hrid ▸ hb.fresh p hp
  · obtain ⟨p, hp, _, hid⟩ := hruns q hq
    exact hid ▸ Nat.lt_of_lt_of_le (hb.known p hp) hnext

/-- A run that has just been scheduled. -/
theorem covered_scheduled (h : Covered db runs) (hp : r.phase = .fresh) (hi : r.items = [])
    (hst : r.stage = .starting) : Covered db (runs ++ [r]) := by
  have hne : ¬Engaged r := by
    rintro (he | ⟨c, hc, _⟩)
    · rw [hp] at he
      cases he
    · simp [hi] at hc
  have old : ∀ q ∈ runs ++ [r], Engaged q → q ∈ runs := by
    intro q hq he
    rcases List.mem_append.mp hq with hq | hq
    · exact hq
    · exact absurd (List.mem_singleton.mp hq ▸ he) hne
  refine ⟨fun q hq => ?_, fun p hpm hep q hq heq => h.alone p (old p hpm hep) hep q (old q hq heq) heq,
    fun q hq he => h.active q (old q hq he) he,
    fun t ht hnone => h.rest t ht (fun q hq => hnone q (List.mem_append_left _ hq))⟩
  rcases List.mem_append.mp hq with hq | hq
  · exact h.consistent q hq
  · rw [List.mem_singleton.mp hq]
    refine ⟨fun _ => hi, ?_⟩
    rw [hst]
    exact hp

theorem schedule_bounds {q : UploadRequest} (hb : Bounds cfg s)
    (hfind : Rows.find? s.base.uploads rid = some q) :
    Bounds cfg {
      base := { s.base with
        db := EventRepo.append s.base.db q.task.id (.task_upload_requested q.actor)
        uploads := Rows.erase s.base.uploads rid
        next_request := s.base.next_request + 1 }
      runs := s.runs ++ [⟨s.base.next_request, q.task.id, .fresh, .starting, []⟩] } := by
  have hlt : ∀ {k : Nat}, k < s.base.db.next_id → k < s.base.db.next_id + 1 := Nat.lt_succ_of_lt
  refine ⟨hb.tables.of_same_rows rfl (fun x hx => ⟨x, hx, rfl, rfl⟩) rfl (Nat.le_succ _)
    (physical_same hb.tables.physical_fresh (SameObjects.refl _).append),
    fun i hi => hlt (hb.items i hi),
    fun r hr => hlt (hb.uploads r ((Rows.erase_sublist _ _).subset hr)), ?_, ?_, ?_⟩
  · exact Rows.append_nodup hb.rids hb.fresh
  · exact Rows.append_all (fun run hrun => Nat.lt_succ_of_lt (hb.fresh run hrun)) (Nat.lt_succ_self _)
  · exact Rows.append_all (fun run hrun => hlt (hb.known run hrun))
      (hlt (hb.uploads q (Rows.find_mem hfind)))

/-- What a run of the system without broken steps keeps. -/
structure Invariant (cfg : Config) (s : Background.State) : Prop where
  bounds : Bounds cfg s
  covered : Covered s.base.db s.runs

theorem step_invariant (h : Invariant cfg s) (hok : Unbroken s a)
    (hs : Background.step cfg s a = some s') : Invariant cfg s' := by
  cases a with
  | request action =>
    simp only [Background.step] at hs
    split at hs
    · rename_i hshared
      obtain ⟨u, hu, rfl⟩ := Option.map_eq_some_iff.mp hs
      have hcovered := request_covered h.bounds h.covered hshared hok hu
      exact ⟨request_bounds h.bounds hok hshared hu, hcovered⟩
    · cases hs
  | schedule rid =>
    obtain ⟨q, hq, hs⟩ := Option.bind_eq_some_iff.mp hs
    split at hs
    · cases hs
      exact ⟨schedule_bounds h.bounds hq,
        covered_scheduled (covered_same h.covered rfl rfl) rfl rfl rfl⟩
    · cases hs
  | run rid action =>
    obtain ⟨run, hfind, hs⟩ := Option.bind_eq_some_iff.mp hs
    obtain ⟨⟨db, next⟩, hrun, rfl⟩ := Option.map_eq_some_iff.mp hs
    have hm := run_moves hrun
    have hb := h.bounds
    exact ⟨advance_bounds hb hfind hm _, move_covered hb.tables.task_ids hb.tables.item_ids h.covered
      hb.rids hfind (hok run hfind) hm⟩

theorem reachable_invariant (h : Run (Background.step cfg) Unbroken Background.initial s) :
    Invariant cfg s := by
  refine h.invariant (fun s => Invariant cfg s) ⟨⟨initial_wellformed cfg, ?_, ?_, .nil, ?_, ?_⟩, ?_⟩
    (fun _ _ _ hi hok hs => step_invariant hi hok hs)
  · simp [Background.initial, Bridge.initial]
  · simp [Background.initial, Bridge.initial]
  · simp [Background.initial]
  · simp [Background.initial]
  · refine ⟨?_, ?_, ?_, ?_⟩
    all_goals simp [Background.initial, Bridge.initial]

/-- No run of the task. -/
def NothingRuns (s : Background.State) (t : Nat) : Prop := ∀ run ∈ s.runs, run.task_id ≠ t

instance (s : Background.State) (t : Nat) : Decidable (NothingRuns s t) :=
  inferInstanceAs (Decidable (∀ run ∈ s.runs, _))

theorem rest_settled (h : AtRest items t) : Settled items t := by
  refine ⟨h.each, fun hst => h.none_failed (.inr (.inr hst)), fun hpast hne => ?_⟩
  rcases h.status with ⟨hst | hst | hst, _⟩ | ⟨_, hup⟩ | ⟨hst, hf | hup⟩
  · simp [hst, ReachedConfirmation] at hpast
  · simp [hst, ReachedConfirmation] at hpast
  · exact absurd hst hne
  · exact .inl hup
  · exact .inr ⟨hst, hf⟩
  · exact .inl hup

/-- What a run of the task uploads, whoever requests it. -/
def runSelects (db : Db) (_ : CurrentActor) (t : Nat) : List TaskItem := uploadable db t

theorem uploadable_pending : SelectsPending runSelects :=
  fun _ _ _ _ _ _ hi htask hdel hpend => mem_uploadable.mpr ⟨hi, htask, hdel, hpend⟩

/-- With the python backend no task is stranded in a run without broken steps. -/
theorem unbroken_recoverable (h : Run (Background.step cfg) Unbroken Background.initial s)
    (ht : t ∈ s.base.db.tasks) (hpast : ReachedConfirmation t.status = true)
    (hidle : NothingRuns s t.id) (hleft : ∃ i, Undelivered s.base.db t.id i) :
    
    Recoverable cfg.settings runSelects s.base.claims s.base.db t ↔ Unclaimed cfg.settings s.base.claims t :=
  have hi := reachable_invariant h
  settled_recoverable uploadable_pending hi.bounds.tables.task_ids ht
    (rest_settled (hi.covered.rest t ht (fun q hq _ => hidle q hq))) hpast hleft

end FileDelivery.Proofs.RunnerRecovery
