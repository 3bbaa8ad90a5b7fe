import FileDelivery.Bridge.Replay
import FileDelivery.Proofs.Flow

namespace FileDelivery.Proofs.QueuedRace
open FileDelivery.Library FileDelivery.Library.Runs FileDelivery.Control FileDelivery.Bridge
open FileDelivery.Proofs.ApplyResult FileDelivery.Proofs.Moves FileDelivery.Proofs.Effects
open FileDelivery.Proofs.Tables FileDelivery.Proofs.Flow

/-- No result of the message at `mid` has been applied. -/
def Outstanding (s : State) (mid : Nat) : Prop :=
  ∀ pid ∈ s.applied, ∀ p ∈ s.results[pid]?, p.mid ≠ mid

instance (s : State) (mid : Nat) : Decidable (Outstanding s mid) :=
  inferInstanceAs (Decidable (∀ pid ∈ s.applied, _))

/-- A message of the task has no applied result yet. -/
def Live (s : State) (t : Nat) : Prop :=
  ∃ mid m, s.messages[mid]? = some m ∧ m.task_id = t ∧ Outstanding s mid

/-- Another message than `p`'s own keeps the task live. -/
def OtherLive (s : State) (p : Produced) : Prop :=
  ∃ mid ∈ List.range s.messages.length, mid ≠ p.mid ∧ Outstanding s mid ∧
    s.messages[mid]?.any (·.task_id == p.message.task_id)

instance (s : State) (p : Produced) : Decidable (OtherLive s p) :=
  inferInstanceAs (Decidable (∃ mid ∈ List.range s.messages.length, _))

/-- Some request of the task of `p` is in its window. -/
def Overtakes (s : State) (p : Produced) : Prop :=
  ∃ r ∈ s.uploads, InWindow r.stage = true ∧ r.task.id = p.message.task_id

instance (s : State) (p : Produced) : Decidable (Overtakes s p) :=
  inferInstanceAs (Decidable (∃ r ∈ s.uploads, _))

/-- The last outstanding result of a task is not applied before `queued` is committed. -/
def NotOvertaken (s : State) : Action → Prop
  | .apply pid => ∀ p ∈ s.results[pid]?, Overtakes s p → OtherLive s p
  | _ => True

instance (s : State) : (a : Action) → Decidable (NotOvertaken s a)
  | .apply pid => inferInstanceAs (Decidable (∀ p ∈ s.results[pid]?, Overtakes s p → OtherLive s p))
  | .create _ _ _ _ | .classify _ _ _ | .read _ _ _ | .write _ | .uploadRead _ _ | .upload _ _
  | .worker _ | .cleanup _ | .workspace _ _ _ _ | .expire _ | .tick => .isTrue trivial

/-- No request in progress, no message unprocessed, no result unapplied. -/
structure Quiescent (s : State) : Prop where
  uploads : s.uploads = []
  writes : s.writes = []
  messages : ∀ mid < s.messages.length, mid ∈ s.acked
  results : ∀ pid < s.results.length, pid ∈ s.applied

/-- Tasks that are queued, or about to be, are live. -/
structure Awaited (s : State) : Prop where
  queued : ∀ t ∈ s.db.tasks, t.status = .queued → Live s t.id
  window : ∀ r ∈ s.uploads, InWindow r.stage = true → Live s r.task.id

theorem Live.grow (hw : Work s) (g : Grows s s') (ha : s'.applied = s.applied) (h : Live s t) :
    Live s' t := by
  obtain ⟨mid, m, hm, ht, ho⟩ := h
  refine ⟨mid, m, kept_at g.messages hm, ht, ?_⟩
  intro pid hpid p hp
  rw [ha] at hpid
  have hlt := hw.applied pid hpid
  have hold : s.results[pid]? = some s.results[pid] := List.getElem?_eq_getElem _
  have := kept_at g.results hold
  rw [this] at hp
  cases hp
  exact ho pid hpid _ hold

/-- A message that has just been published is outstanding. -/
theorem published_live (hw : Work s) (hr : s'.results = s.results)
    (hm : s'.messages = s.messages ++ [m]) : Live s' m.task_id := by
  refine ⟨s.messages.length, m, by simp [hm], rfl, ?_⟩
  intro pid hpid p hp he
  rw [hr] at hp
  obtain ⟨old, hold, _⟩ := (hw.results p (List.mem_of_getElem? hp)).message
  have := (List.getElem?_eq_some_iff.mp hold).1
  omega

/-- Applying a result leaves the messages of other tasks, and other messages, outstanding. -/
theorem Live.applied (hp : s.results[pid]? = some p) (ha : s'.applied = pid :: s.applied)
    (hr : s'.results = s.results) (hm : s'.messages = s.messages)
    (h : ∃ mid m, s.messages[mid]? = some m ∧ m.task_id = t ∧ Outstanding s mid ∧ mid ≠ p.mid) :
    Live s' t := by
  obtain ⟨mid, m, hmid, ht, ho, hne⟩ := h
  refine ⟨mid, m, by rw [hm, hmid], ht, ?_⟩
  intro k hk q hq
  rw [hr] at hq
  rw [ha] at hk
  rcases List.mem_cons.mp hk with rfl | hk
  · rw [hp] at hq
    cases hq
    exact hne.symm
  · exact ho k hk q hq

theorem other_task {p : Produced} {pid : Nat} (hw : Work s) (hp : s.results[pid]? = some p) (h : Live s t)
    (ht : t ≠ p.message.task_id) :
    ∃ mid m, s.messages[mid]? = some m ∧ m.task_id = t ∧ Outstanding s mid ∧ mid ≠ p.mid := by
  obtain ⟨mid, m, hm, hid, ho⟩ := h
  refine ⟨mid, m, hm, hid, ho, ?_⟩
  rintro rfl
  obtain ⟨m', hm', htask, _⟩ := (hw.results p (List.mem_of_getElem? hp)).message
  rw [hm] at hm'
  cases hm'
  exact ht (hid.symm.trans htask.symm)

theorem verdict_not_queued (h : Verdict m) : TaskStatus.ofString m.status ≠ .queued := by
  rcases h with ⟨hs, _⟩ | ⟨hs, _⟩
  all_goals
    rw [hs]
    decide

theorem applied_awaited (hi : Invariant cfg s) (hp : s.results[pid]? = some p)
    (hok : Overtakes s p → OtherLive s p) (h : Awaited s) :
    Awaited { s with
      db := (apply_delivery_result cfg.settings.s3_bucket_name s.db p.message).1
      applied := pid :: s.applied } := by
  refine ⟨?_, ?_⟩
  · intro t ht hst
    simp only [apply_tasks] at ht
    obtain ⟨y, hy, _, _, _, ⟨_, hs⟩ | ⟨hne, rfl⟩⟩ := (settle_write p.message _).mem ht
    · exact absurd (hs.symm.trans hst) (verdict_not_queued (hi.work.results p (List.mem_of_getElem? hp)).verdict)
    · exact .applied hp rfl rfl rfl (other_task hi.work hp (h.queued t hy hst) hne)
  · intro r hr hwin
    by_cases ht : r.task.id = p.message.task_id
    · obtain ⟨mid, hmem, hne, ho, hany⟩ := hok ⟨r, hr, hwin, ht⟩
      obtain ⟨m, hm, hid⟩ := (Option.any_eq_true _ _).mp hany
      exact .applied hp rfl rfl rfl
        ⟨mid, m, hm, (by simpa using hid : m.task_id = _).trans ht.symm, ho, hne⟩
    · exact .applied hp rfl rfl rfl (other_task hi.work hp (h.window r hr hwin) ht)

/-- A request enters its window with its own message, and moves within it. -/
theorem move_window (hi : Invariant cfg s) (h : ∀ r ∈ s.uploads, InWindow r.stage = true → Live s r.task.id)
    (hr : r ∈ s.uploads) (hmove : UploadMove cfg s r r.stage action u (some stage))
    (g : Grows s s') (ha : s'.applied = s.applied) (hres : s'.results = s.results)
    (hm : s'.messages = u.messages) (hwin : InWindow stage = true) : Live s' r.task.id := by
  have hold := h r hr
  generalize r.stage = old at hold hmove
  generalize hnext : some stage = next at hmove
  cases hmove
  case published =>
    exact published_live hi.work hres hm
  case written =>
    exact (hold rfl).grow hi.work g ha
  case stored raised _ _ _ _ =>
    cases raised <;> (cases hnext; cases hwin)
  case sent | unsent => simp [handler_window (afterException_handler hnext)] at hwin
  case raised => simp [handler_window (raisedTo_handler hnext)] at hwin
  all_goals (cases hnext; try cases hwin)

/-- Only the commit of a request in its window queues a task. -/
theorem effect_queued (he : Effect cfg s s' a) (ha : ∀ pid, a ≠ .apply pid) (h : Awaited s) :
    ∀ t ∈ s'.db.tasks, t.status = .queued → Live s t.id := by
  have old : ∀ t ∈ s.db.tasks, t.status = .queued → Live s t.id := h.queued
  have written : ∀ k st f, StatusWrite k st f s.db.tasks s'.db.tasks → (st = .queued → Live s k) →
      ∀ t ∈ s'.db.tasks, t.status = .queued → Live s t.id := by
    intro k st f hw hlive t ht hst
    obtain ⟨y, hy, _, _, _, ⟨hid, hs⟩ | ⟨_, rfl⟩⟩ := hw.mem ht
    · exact hid ▸ hlive (hs.symm.trans hst)
    · exact old t hy hst
  cases he with
  | quiet ht _ _ => rwa [ht]
  | created task _ hst _ ht _ _ _ =>
    rw [ht]
    intro t hmem hq
    rcases List.mem_append.mp hmem with hmem | hmem
    · exact old t hmem hq
    · rw [List.mem_singleton.mp hmem, hst] at hq
      cases hq
  | classified rows _ _ _ ht _ _ _ =>
    obtain ⟨f, hw⟩ := ht
    exact written _ _ f hw (by simp)
  | confirmed r _ _ ht _ _ =>
    obtain ⟨f, hw⟩ := ht
    exact written _ _ f hw (by simp)
  | retried r _ _ hquiet hwrite _ _ =>
    by_cases hre : Reopens s.db r
    · obtain ⟨f, hw⟩ := hwrite hre
      exact written _ _ f hw (by simp)
    · rwa [hquiet hre]
  | queued r message hr hstage ht _ _ =>
    obtain ⟨f, hw⟩ := ht
    exact written _ _ f hw (fun _ => h.window r (Rows.find_mem hr) (by simp [hstage, InWindow]))
  | applied p hp _ => exact absurd rfl (ha _)

/-- A step other than an application keeps what is live alive. -/
theorem unapplied_awaited (hi : Invariant cfg s) (hs : step cfg s a = some s')
    (hna : ∀ pid, a ≠ .apply pid) (h : Awaited s) : Awaited s' := by
  have g := step_grows hi.tables hs
  have hq := effect_queued (step_effect hs) hna h
  have frame : s'.applied = s.applied → s'.uploads = s.uploads → Awaited s' := by
    intro ha hu
    refine ⟨fun t ht hst => (hq t ht hst).grow hi.work g ha, fun r hr hwin => ?_⟩
    exact (h.window r (hu ▸ hr) hwin).grow hi.work g ha
  cases step_moves hs with
  | began task _ =>
    refine ⟨fun t ht hst => (hq t ht hst).grow hi.work g rfl, fun r hr hwin => ?_⟩
    rcases List.mem_append.mp hr with hr | hr
    · exact (h.window r hr hwin).grow hi.work g rfl
    · rw [List.mem_singleton.mp hr] at hwin
      cases hwin
  | requested r u next hfind hmove =>
    obtain ⟨_, _, _, hres, _, ha⟩ := move_frame hmove
    refine ⟨fun t ht hst => (hq t ht hst).grow hi.work g ha, fun q hmem hwin => ?_⟩
    rcases (moved_uploads hi.requests.rids hfind next).2 q hmem with ⟨stage, rfl, rfl⟩ | ⟨hold, _⟩
    · have hlive : Live _ r.task.id :=
        move_window hi h.window (Rows.find_mem hfind) hmove g ha hres rfl hwin
      exact hlive
    · exact (h.window q hold hwin).grow hi.work g ha
  | worked hmove => cases hmove <;> exact frame rfl rfl
  | applied p hp => exact absurd rfl (hna _)
  | cleaned hmove => cases hmove <;> exact frame rfl rfl
  | _ => exact frame rfl rfl

theorem step_awaited (hi : Invariant cfg s) (hok : NotOvertaken s a) (hs : step cfg s a = some s')
    (h : Awaited s) : Awaited s' := by
  cases a with
  | apply pid =>
    obtain ⟨p, hp, rfl⟩ := Option.map_eq_some_iff.mp hs
    exact applied_awaited hi hp (hok p hp) h
  | _ => exact unapplied_awaited hi hs (by simp) h

theorem reachable_awaited (h : Run (step cfg) NotOvertaken initial s) : Awaited s :=
  h.invariant_given (fun s => Awaited s) (fun s => Invariant cfg s) (fun _ => reachable_flow)
    ⟨by simp [initial], by simp [initial]⟩ (fun _ _ _ hi hinv hok hs => step_awaited hi hok hs hinv)

/-- In a quiescent state nothing is live. -/
theorem quiescent_not_live (hw : Work s) (h : Quiescent s) : ¬Live s t := by
  rintro ⟨mid, m, hm, _, ho⟩
  obtain ⟨p, hp, he⟩ := hw.acked mid (h.messages mid (List.getElem?_eq_some_iff.mp hm).1)
  obtain ⟨pid, hpid, rfl⟩ := List.mem_iff_getElem.mp hp
  exact ho pid (h.results pid hpid) _ (List.getElem?_eq_getElem hpid) he

/-- Where no task's last outstanding result is applied in the window of an upload request,
no quiescent state has a queued task. -/
theorem quiescent_none_queued (h : Run (step cfg) NotOvertaken initial s) (hq : Quiescent s) :
    ∀ t ∈ s.db.tasks, t.status ≠ .queued := by
  intro t ht hst
  exact quiescent_not_live (reachable_flow h).work hq ((reachable_awaited h).queued t ht hst)

instance (s : State) : Decidable (Quiescent s) :=
  decidable_of_iff (s.uploads = [] ∧ s.writes = [] ∧ (∀ mid < s.messages.length, mid ∈ s.acked) ∧
      ∀ pid < s.results.length, pid ∈ s.applied)
    ⟨fun ⟨hu, hw, hm, hr⟩ => ⟨hu, hw, hm, hr⟩, fun h => ⟨h.uploads, h.writes, h.messages, h.results⟩⟩

/-- A request up to its publish, the message's run, and the rest of the request. -/
def published : List Action :=
  Sample.confirmed 0 0 [("acme/a.txt", [1])] ++ (Sample.upload 0 1).take 6 ++ Sample.run 2 0 [none]

theorem quiescent_none_queued_run :
    ∃ s : State, Quiescent s ∧ ∀ t ∈ s.db.tasks, t.status ≠ .queued := by
  obtain ⟨s, h, hq⟩ := run_of_replay NotOvertaken (p := Quiescent) Sample.cfg initial
    (published ++ (Sample.upload 0 1).drop 6 ++ [.apply 0]) (by decide +kernel)
  exact ⟨s, hq, quiescent_none_queued h hq⟩

/-- The result is applied before the request commits `queued`. -/
theorem queued_overwrites_result :
    ¬ ∀ (cfg : Config) (s : State), Run (step cfg) Smooth initial s → Quiescent s →
      ∀ t ∈ s.db.tasks, t.status ≠ .queued := by
  intro h
  obtain ⟨s, hrun, hq, hst⟩ := run_of_replay Smooth
    (p := fun s => Quiescent s ∧ ¬ ∀ t ∈ s.db.tasks, t.status ≠ .queued) Sample.cfg initial
    (published ++ [.apply 0] ++ (Sample.upload 0 1).drop 6) (by decide +kernel)
  exact hst (h Sample.cfg s hrun hq)

end FileDelivery.Proofs.QueuedRace
