import FileDelivery.Bridge.Replay
import FileDelivery.Library.Segments
import FileDelivery.Proofs.Flow

namespace FileDelivery.Proofs.PublishOnce
open FileDelivery.Library FileDelivery.Library.Runs FileDelivery.Library.Segments
open FileDelivery.Control FileDelivery.Bridge FileDelivery.Proofs.ApplyResult
open FileDelivery.Proofs.Moves FileDelivery.Proofs.Effects FileDelivery.Proofs.Tables
open FileDelivery.Proofs.Flow

/-- The claim is granted, and nothing is published yet. -/
def PrePublish : UploadStage → Bool
  | .claimed | .listed _ | .staged _ _ | .ready _ _ => true
  | _ => false

/-- A request is granted its claim only while its task is still `confirmed`; it does not
fail between its publish and its commit, and no claim expires under its holder. -/
def Guarded (s : State) : Action → Prop
  | .expire key => ∀ r ∈ s.uploads, s.claims key ≠ some r.rid
  | .upload rid .acquire => ∀ r ∈ Rows.find? s.uploads rid, statusOf s.db r.task.id = some .confirmed
  | .upload _ (.publishRaises sent) => sent = false
  | .upload rid .raise | .upload rid .crash => ∀ r ∈ Rows.find? s.uploads rid, InWindow r.stage = false
  | _ => True

/-- How often `t` was published since it last became `confirmed`. -/
abbrev rounds (s : State) (t : Nat) : Nat := since (Mark.confirmed t) (Mark.published t) s.trace

/-- Between two transitions to `confirmed` a task is published at most once. -/
def OncePerConfirmation (s : State) : Prop :=
  ∀ t, Spaced (Mark.confirmed t) (Mark.published t) s.trace

structure Once (s : State) : Prop where
  /-- From its grant to its commit a request holds its claim. -/
  claims : ∀ r ∈ s.uploads, (PrePublish r.stage || InWindow r.stage) = true →
    s.claims r.key = some r.rid
  before : ∀ r ∈ s.uploads, PrePublish r.stage = true → rounds s r.task.id = 0
  settled : ∀ t ∈ s.db.tasks, t.status = .confirmed →
    rounds s t.id = 0 ∨ ∃ r ∈ s.uploads, r.task.id = t.id ∧ InWindow r.stage = true
  newest : ∀ t, rounds s t ≤ 1
  spaced : OncePerConfirmation s

/-- Requests of one task compete for one claim. -/
theorem same_key (hi : Invariant cfg s) (hr : r ∈ s.uploads) (hq : q ∈ s.uploads)
    (ht : r.task.id = q.task.id) : r.key = q.key := by
  have hrk := (hi.requests.each r hr).known
  have hqk := (hi.requests.each q hq).known
  rw [ht] at hrk
  have := (known_unique hi.tables hrk hqk).1
  simp only [UploadRequest.key, Tasks.upload_key, this, ht]

/-- Rows of other keys keep their status; the written one gets another than `confirmed`. -/
theorem write_confirmed (hw : StatusWrite k st f a b) (hst : st ≠ .confirmed) (ht : t ∈ b)
    (hc : t.status = .confirmed) : ∃ y ∈ a, y.id = t.id ∧ y.status = .confirmed := by
  obtain ⟨y, hy, hid, _, _, ⟨_, hs⟩ | ⟨_, rfl⟩⟩ := hw.mem ht
  · exact absurd (hs.symm.trans hc) hst
  · exact ⟨t, hy, rfl, hc⟩

/-- Only confirm and retry requests make a task `confirmed`. -/
theorem effect_confirmed (hi : Invariant cfg s) (he : Effect cfg s s' a)
    (ha : ∀ rid, a ≠ .write rid) (ht : t ∈ s'.db.tasks) (hc : t.status = .confirmed) :
    ∃ y ∈ s.db.tasks, y.id = t.id ∧ y.status = .confirmed := by
  cases he with
  | quiet hsame _ _ => exact ⟨t, hsame ▸ ht, rfl, hc⟩
  | created task _ hst _ hsame _ _ _ =>
    rw [hsame] at ht
    rcases List.mem_append.mp ht with ht | ht
    · exact ⟨t, ht, rfl, hc⟩
    · rw [List.mem_singleton.mp ht, hst] at hc
      cases hc
  | classified rows _ _ _ hw _ _ _ =>
    obtain ⟨f, hw⟩ := hw
    exact write_confirmed hw (by simp) ht hc
  | confirmed | retried => exact absurd rfl (ha _)
  | queued r message _ _ hw _ _ =>
    obtain ⟨f, hw⟩ := hw
    exact write_confirmed hw (by simp) ht hc
  | applied p hp hdb =>
    rw [hdb, apply_tasks] at ht
    refine write_confirmed (settle_write p.message _) ?_ ht hc
    rcases (hi.work.results p (List.mem_of_getElem? hp)).verdict with ⟨hs, _⟩ | ⟨hs, _⟩
    all_goals
      rw [hs]
      decide

/-- Without a new mark only the open requests and the confirmed rows are in question. -/
theorem Once.unmarked (h : Once s) (ht : s'.trace = s.trace)
    (hclaims : ∀ r ∈ s'.uploads, (PrePublish r.stage || InWindow r.stage) = true →
      s'.claims r.key = some r.rid)
    (hbefore : ∀ r ∈ s'.uploads, PrePublish r.stage = true → rounds s r.task.id = 0)
    (hsettled : ∀ t ∈ s'.db.tasks, t.status = .confirmed →
      rounds s t.id = 0 ∨ ∃ r ∈ s'.uploads, r.task.id = t.id ∧ InWindow r.stage = true) :
    Once s' := by
  have hspaced := h.spaced
  unfold OncePerConfirmation at hspaced
  refine ⟨hclaims, ?_, ?_, ?_, ?_⟩
  all_goals simp only [rounds, OncePerConfirmation, ht]
  · exact hbefore
  · exact hsettled
  · exact h.newest
  · exact hspaced

/-- Steps that concern neither requests nor claims nor marks. -/
theorem Once.frame (h : Once s) (hu : s'.uploads = s.uploads) (hc : s'.claims = s.claims)
    (ht : s'.trace = s.trace) (hrows : ∀ t ∈ s'.db.tasks, t.status = .confirmed →
      ∃ y ∈ s.db.tasks, y.id = t.id ∧ y.status = .confirmed) : Once s' := by
  refine h.unmarked ht (by rw [hu, hc]; exact h.claims) (by rw [hu]; exact h.before) ?_
  intro t hmem hst
  obtain ⟨y, hy, hid, hys⟩ := hrows t hmem hst
  rw [hu, ← hid]
  exact h.settled y hy hys

/-- A request that stays in the list has kept its row or is the one that moved. -/
theorem stays (hq : q ∈ uploads) (hne : q.rid ≠ rid) (next : Option UploadStage) :
    q ∈ setStage uploads rid next := by
  cases next with
  | none => exact Rows.mem_erase.mpr ⟨hq, hne⟩
  | some stage => exact Rows.mem_update_of_ne hq hne

/-- A move other than a publish: what it owes for the request itself. -/
theorem Once.moved {u : State} (hi : Invariant cfg s) (h : Once s) (hfind : Rows.find? s.uploads rid = some r)
    (ht : u.trace = s.trace)
    (hkeep : ∀ k holder, holder ≠ r.rid → s.claims k = some holder → u.claims k = some holder)
    (hclaim : ∀ stage, next = some stage → (PrePublish stage || InWindow stage) = true →
      u.claims r.key = some r.rid)
    (hbefore : ∀ stage, next = some stage → PrePublish stage = true → rounds s r.task.id = 0)
    (hrows : ∀ t ∈ u.db.tasks, t.status = .confirmed → ∃ y ∈ s.db.tasks, y.id = t.id ∧
      y.status = .confirmed)
    (hleave : InWindow r.stage = true → (∃ stage, next = some stage ∧ InWindow stage = true) ∨
      ∀ t ∈ u.db.tasks, t.id = r.task.id → t.status ≠ .confirmed) :
    Once { u with uploads := setStage s.uploads rid next } := by
  have hr := Rows.find_mem hfind
  have hrid : r.rid = rid := Rows.find_key hfind
  have hmem := (moved_uploads hi.requests.rids hfind next).2
  refine h.unmarked ht ?_ ?_ ?_
  · intro q hq hstage
    rcases hmem q hq with ⟨stage, hnext, rfl⟩ | ⟨hq, hne⟩
    · exact hclaim stage hnext hstage
    · exact hkeep q.key q.rid (hrid ▸ hne) (h.claims q hq hstage)
  · intro q hq hstage
    rcases hmem q hq with ⟨stage, hnext, rfl⟩ | ⟨hq, hne⟩
    · exact hbefore stage hnext hstage
    · exact h.before q hq hstage
  · intro t htask hst
    obtain ⟨y, hy, hid, hys⟩ := hrows t htask hst
    rcases h.settled y hy hys with hz | ⟨q, hq, hqt, hwin⟩
    · exact .inl (hid ▸ hz)
    · by_cases hne : q.rid = rid
      · obtain rfl : q = r := Rows.eq_of_key hi.requests.rids hq hr (hne.trans hrid.symm)
        rcases hleave hwin with ⟨stage, rfl, hwin'⟩ | hgone
        · refine .inr ⟨{ q with stage := stage }, ?_, hqt.trans hid, hwin'⟩
          exact Rows.mem_update_of_mem (f := fun r => { r with stage := stage }) hq hne
        · exact absurd hst (hgone t htask (hid.symm.trans hqt.symm))
      · exact .inr ⟨q, stays hq hne next, hqt.trans hid, hwin⟩

/-- The claim makes a request that is about to publish the only one of its task. -/
theorem sole_claimant (hi : Invariant cfg s) (h : Once s) (hr : r ∈ s.uploads) (hq : q ∈ s.uploads)
    (hrs : (PrePublish r.stage || InWindow r.stage) = true)
    (hqs : (PrePublish q.stage || InWindow q.stage) = true) (ht : r.task.id = q.task.id) :
    r.rid = q.rid := by
  have hclaim := h.claims r hr hrs
  rw [same_key hi hr hq ht, h.claims q hq hqs] at hclaim
  exact (Option.some.inj hclaim).symm

theorem published_once (hi : Invariant cfg s) (h : Once s)
    (hfind : Rows.find? s.uploads rid = some r) (hstage : PrePublish r.stage = true)
    (hm : m.task_id = r.task.id) :
    Once { publish s m with uploads := setStage s.uploads rid (some (.published m)) } := by
  have hr := Rows.find_mem hfind
  have hrid : r.rid = rid := Rows.find_key hfind
  have hmem := (moved_uploads hi.requests.rids hfind (some (.published m))).2
  have hzero := h.before r hr hstage
  have hsame : ∀ t ≠ r.task.id, since (Mark.confirmed t) (.published t)
      (.published m.task_id :: s.trace) = rounds s t := by
    intro t ht
    exact since_other (by simp) (by simpa [hm] using ht.symm)
  have hone : since (Mark.confirmed r.task.id) (.published r.task.id)
      (.published m.task_id :: s.trace) = 1 := by
    rw [hm, since_hit (by simp)]
    exact congrArg (· + 1) hzero
  have hnewest : ∀ t, since (Mark.confirmed t) (.published t) (.published m.task_id :: s.trace) ≤ 1 := by
    intro t
    by_cases ht : t = r.task.id
    · rw [ht, hone]
    · rw [hsame t ht]
      exact h.newest t
  refine ⟨?_, ?_, ?_, hnewest, fun t => spaced_cons (h.spaced t) (hnewest t)⟩
  · intro q hq hs
    rcases hmem q hq with ⟨stage, hnext, rfl⟩ | ⟨hq, hne⟩
    · exact h.claims r hr (by simp [hstage])
    · exact h.claims q hq hs
  · intro q hq hs
    rcases hmem q hq with ⟨stage, hnext, rfl⟩ | ⟨hq, hne⟩
    · cases hnext
      cases hs
    · by_cases ht : q.task.id = r.task.id
      · have := sole_claimant hi h hr hq (by simp [hstage]) (by simp [hs]) ht.symm
        exact absurd (this.symm.trans hrid) hne
      · exact (hsame _ ht).trans (h.before q hq hs)
  · intro t htask hst
    by_cases ht : t.id = r.task.id
    · refine .inr ⟨{ r with stage := .published m }, ?_, ht.symm, rfl⟩
      exact Rows.mem_update_of_mem (f := fun r => { r with stage := .published m }) hr hrid
    · rcases h.settled t htask hst with hz | ⟨q, hq, hqt, hwin⟩
      · exact .inl ((hsame _ ht).trans hz)
      · have hne : q.rid ≠ rid := by
          intro he
          obtain rfl : q = r := Rows.eq_of_key hi.requests.rids hq hr (he.trans hrid.symm)
          exact ht hqt.symm
        exact .inr ⟨q, stays hq hne (some (.published m)), hqt, hwin⟩

/-- Committing `queued` takes the status `confirmed` away. -/
theorem queue_write_status (hw : Wellformed cfg db) (hk : KnownTask db t actor.tenant_id dir)
    (ht : task ∈ (Tasks.queue_write settings db actor t n).tasks) (hid : task.id = t) :
    task.status = .queued := by
  simp only [Tasks.queue_write, append_tasks] at ht
  rcases update_status_tasks db t .queued (some actor.tenant_id) none none with
    ⟨hnone, _⟩ | ⟨_, f, hwrite⟩
  · have := known_get hw hk
    simp [hnone] at this
  · obtain ⟨_, _, _, _, _, ⟨_, hs⟩ | ⟨hne, _⟩⟩ := hwrite.mem ht
    · exact hs
    · exact absurd hid hne

/-- A granted claim: the task is confirmed, and nobody of it is in the window. -/
theorem granted_fresh (hi : Invariant cfg s) (h : Once s) (hr : r ∈ s.uploads)
    (hst : statusOf s.db r.task.id = some .confirmed) (hfree : s.claims r.key = none) :
    rounds s r.task.id = 0 := by
  obtain ⟨t, hfind, ht⟩ := Option.map_eq_some_iff.mp hst
  have hid : t.id = r.task.id := Rows.find_key hfind
  rcases h.settled t (Rows.find_mem hfind) ht with hz | ⟨q, hq, hqt, hwin⟩
  · exact hid ▸ hz
  · have hclaim := h.claims q hq (by simp [hwin])
    rw [same_key hi hq hr (hqt.trans hid), hfree] at hclaim
    cases hclaim

theorem upload_once (hg : cfg.settings.redis_idempotency_enabled = true) (hi : Invariant cfg s)
    (hok : Guarded s (.upload rid action)) (hs : step cfg s (.upload rid action) = some s')
    (h : Once s) : Once s' := by
  have hrows := fun t => effect_confirmed (t := t) hi (step_effect hs) (by simp)
  cases step_moves hs with
  | requested r u next hfind hmove =>
    have hr := Rows.find_mem hfind
    have hclaim := h.claims r hr
    have hbefore := h.before r hr
    have keep : ∀ k holder, holder ≠ r.rid → s.claims k = some holder → s.claims k = some holder :=
      fun _ _ _ hc => hc
    have rows : ∀ t ∈ u.db.tasks, t.status = .confirmed → ∃ y ∈ s.db.tasks, y.id = t.id ∧
      y.status = .confirmed := hrows
    generalize hold : r.stage = old at hmove hclaim hbefore
    cases hmove with
    | acquired claims hc =>
      rw [hg] at hc
      obtain ⟨hfree, hown, hother⟩ := IdempotencyGuard.acquire_some hc
      refine h.moved hi hfind rfl ?_ ?_ ?_ rows (by simp [hold, InWindow])
      · intro k holder _ hk
        have : k ≠ r.key := by
          rintro rfl
          rw [hfree] at hk
          cases hk
        exact (hother k this).trans hk
      · exact fun _ _ _ => hown
      · exact fun _ _ _ => granted_fresh hi h hr (hok r hfind) hfree
    | published =>
      exact published_once hi h hfind (by simp [hold, PrePublish]) rfl
    | sent => cases hok
    | committed =>
      refine h.moved hi hfind rfl keep (by simp [PrePublish, InWindow]) (by simp [PrePublish]) rows ?_
      intro _
      refine .inr (fun t ht hid hst => ?_)
      have := queue_write_status hi.tables (hi.requests.each r hr).known ht hid
      simp [this] at hst
    | released =>
      exact h.moved hi hfind rfl (fun _ _ hne hc => IdempotencyGuard.release_other hc hne)
        (by simp) (by simp) rows (by simp [hold, InWindow])
    | raised =>
      have hout : InWindow old = false := hold ▸ hok r hfind
      have hnext : ∀ stage, raisedTo old = some stage → PrePublish stage = false ∧
          InWindow stage = false := by
        intro stage hstage
        have := raisedTo_handler hstage.symm
        cases stage <;> first | exact False.elim this | exact ⟨rfl, rfl⟩
      exact h.moved hi hfind rfl keep (fun stage hs hc => by simp [hnext stage hs] at hc)
        (fun stage hs hc => by simp [hnext stage hs] at hc) rows (by simp [hold, hout])
    | crashed =>
      have hout : InWindow old = false := hold ▸ hok r hfind
      exact h.moved hi hfind rfl keep (by simp) (by simp) rows (by simp [hold, hout])
    | unsent =>
      refine h.moved hi hfind rfl keep ?_ ?_ rows (by simp [hold, InWindow])
      all_goals
        intro stage hstage
        have := afterException_handler hstage.symm
        cases stage <;> first | exact False.elim this | simp [PrePublish, InWindow]
    | stored archive source harchive hsource =>
      rename_i items raised
      refine h.moved hi hfind rfl keep ?_ ?_ rows (by simp [hold, InWindow])
      · exact fun _ _ _ => hclaim rfl
      · exact fun _ _ _ => hbefore rfl
    | written =>
      refine h.moved hi hfind rfl keep (fun _ _ _ => hclaim rfl) ?_ rows (fun _ => .inl ⟨_, rfl, rfl⟩)
      simp [PrePublish]
    | listed | direct | recorded =>
      exact h.moved hi hfind rfl keep (fun _ _ _ => hclaim rfl) (fun _ _ _ => hbefore rfl) rows
        (by simp [hold, InWindow])
    | refused | deleted | reported =>
      exact h.moved hi hfind rfl keep (by simp [PrePublish, InWindow]) (by simp [PrePublish]) rows
        (by simp [hold, InWindow])

/-- A transition to `confirmed` starts the count of its task again. -/
theorem marked_le (before after : Db) (k t : Nat) (trace : List Mark) :
    since (Mark.confirmed t) (.published t) (markConfirmed before after k trace) ≤
      since (Mark.confirmed t) (.published t) trace := by
  unfold markConfirmed
  split
  · by_cases ht : t = k
    · subst ht
      simp
    · rw [since_other (by simpa using Ne.symm ht) (by simp)]
  · exact Nat.le_refl _

/-- A row that is confirmed after a write is the written one, or it was there before. -/
theorem written_rows (hs : step cfg s (.write rid) = some s') (hr : Rows.find? s.writes rid = some r)
    (ht : t ∈ s'.db.tasks) : t.id = r.task.id ∨ t ∈ s.db.tasks := by
  have row : ∀ f, StatusWrite r.task.id .confirmed f s.db.tasks s'.db.tasks →
      t.id = r.task.id ∨ t ∈ s.db.tasks := by
    intro f hw
    obtain ⟨y, hy, _, _, _, ⟨hid, _⟩ | ⟨_, rfl⟩⟩ := hw.mem ht
    · exact .inl hid
    · exact .inr hy
  cases step_effect hs with
  | quiet hsame _ _ => exact .inr (hsame ▸ ht)
  | confirmed q hq _ hw _ _ =>
    obtain ⟨f, hw⟩ := hw
    cases hr.symm.trans hq
    exact row f hw
  | retried q hq _ hquiet hwrite _ _ =>
    cases hr.symm.trans hq
    by_cases hre : Reopens s.db r
    · obtain ⟨f, hw⟩ := hwrite hre
      exact row f hw
    · exact .inr (hquiet hre ▸ ht)

theorem write_once (hi : Invariant cfg s) (hs : step cfg s (.write rid) = some s') (h : Once s) :
    Once s' := by
  have hw' := effect_wellformed hi.tables (step_effect hs)
  have hrows := fun t r => written_rows (t := t) (r := r) hs
  cases step_moves hs with
  | wrote r hr =>
    have hle := marked_le s.db (writeDb s.db r) r.task.id
    refine ⟨h.claims, ?_, ?_, fun t => Nat.le_trans (hle t s.trace) (h.newest t), ?_⟩
    · exact fun q hq hst => Nat.le_zero.mp (Nat.le_trans (hle _ _) (Nat.le_of_eq (h.before q hq hst)))
    · intro t ht hst
      have old : ∀ y ∈ s.db.tasks, y.id = t.id → y.status = .confirmed →
          since (Mark.confirmed t.id) (.published t.id)
            (markConfirmed s.db (writeDb s.db r) r.task.id s.trace) = 0 ∨
          ∃ q ∈ s.uploads, q.task.id = t.id ∧ InWindow q.stage = true := by
        intro y hy hid hys
        rcases h.settled y hy hys with hz | hwin
        · exact .inl (Nat.le_zero.mp (Nat.le_trans (hle _ _) (Nat.le_of_eq (hid ▸ hz))))
        · exact .inr (hid ▸ hwin)
      rcases hrows t r hr ht with hid | hmem
      · have hafter : statusOf (writeDb s.db r) r.task.id = some .confirmed := by
          have hfind : Rows.find? (writeDb s.db r).tasks t.id = some t :=
            Rows.find_of_mem hw'.task_ids ht
          rw [← hid, statusOf, hfind, Option.map_some, hst]
        by_cases hbefore : statusOf s.db r.task.id = some .confirmed
        · obtain ⟨y, hfind, hys⟩ := Option.map_eq_some_iff.mp hbefore
          exact old y (Rows.find_mem hfind) ((Rows.find_key hfind).trans hid.symm) hys
        · refine .inl ?_
          have hmark : markConfirmed s.db (writeDb s.db r) r.task.id s.trace =
              .confirmed r.task.id :: s.trace := if_pos ⟨hbefore, hafter⟩
          simp only [rounds, hmark, hid, since_sep]
      · exact old t hmem rfl hst
    · intro t
      have hnew := Nat.le_trans (hle t s.trace) (h.newest t)
      change Spaced _ _ (markConfirmed s.db (writeDb s.db r) r.task.id s.trace)
      unfold markConfirmed at hnew ⊢
      split
      · rename_i hmark
        rw [if_pos hmark] at hnew
        exact spaced_cons (h.spaced t) hnew
      · exact h.spaced t

theorem step_once (hg : cfg.settings.redis_idempotency_enabled = true) (hi : Invariant cfg s)
    (hok : Guarded s a) (hs : step cfg s a = some s') (h : Once s) : Once s' := by
  cases a with
  | upload rid action => exact upload_once hg hi hok hs h
  | write rid => exact write_once hi hs h
  | expire key =>
    cases hs
    refine h.unmarked rfl ?_ h.before h.settled
    intro r hr hstage
    have hc := h.claims r hr hstage
    have : r.key ≠ key := by
      rintro rfl
      exact hok r hr hc
    exact (Function.update_of_ne this _ _).trans hc
  | uploadRead actor t =>
    cases step_moves hs with
    | began task hcheck =>
      have hnew : ∀ r ∈ s.uploads ++ [⟨s.next_request, actor, task, .checked⟩],
          r ∈ s.uploads ∨ r.stage = .checked := by
        intro r hr
        rcases List.mem_append.mp hr with hr | hr
        · exact .inl hr
        · exact .inr (by rw [List.mem_singleton.mp hr])
      refine h.unmarked rfl ?_ ?_ ?_
      · intro r hr hst
        rcases hnew r hr with hr | hc
        · exact h.claims r hr hst
        · simp [hc, PrePublish, InWindow] at hst
      · intro r hr hst
        rcases hnew r hr with hr | hc
        · exact h.before r hr hst
        · simp [hc, PrePublish] at hst
      · intro t ht hst
        rcases h.settled t ht hst with hz | ⟨r, hr, hrest⟩
        · exact .inl hz
        · exact .inr ⟨r, List.mem_append_left _ hr, hrest⟩
  | worker action =>
    have hrows := fun t => effect_confirmed (t := t) hi (step_effect hs) (by simp)
    cases step_moves hs with
    | worked hmove => cases hmove <;> exact h.frame rfl rfl rfl hrows
  | cleanup action =>
    have hrows := fun t => effect_confirmed (t := t) hi (step_effect hs) (by simp)
    cases step_moves hs with
    | cleaned hmove => cases hmove <;> exact h.frame rfl rfl rfl hrows
  | _ =>
    have hrows := fun t => effect_confirmed (t := t) hi (step_effect hs) (by simp)
    cases step_moves hs with
    | _ => exact h.frame rfl rfl rfl hrows

theorem initial_once : Once initial :=
  ⟨by simp [initial], by simp [initial], by simp [initial], fun _ => Nat.zero_le _,
    fun _ => spaced_nil⟩

/-- With the guard enabled, and claims granted only to requests whose task is still
confirmed, a task is published at most once per confirmation. -/
theorem published_once_per_confirmation (hg : cfg.settings.redis_idempotency_enabled = true)
    (h : Run (step cfg) Guarded initial s) : OncePerConfirmation s :=
  (h.invariant_given (fun s => Once s) (fun s => Invariant cfg s) (fun _ => reachable_flow)
    initial_once (fun _ _ _ hi hinv hok hs => step_once hg hi hok hs hinv)).spaced

instance (s : State) : (a : Action) → Decidable (Guarded s a)
  | .expire key => inferInstanceAs (Decidable (∀ r ∈ s.uploads, s.claims key ≠ some r.rid))
  | .upload rid .acquire => inferInstanceAs
      (Decidable (∀ r ∈ Rows.find? s.uploads rid, statusOf s.db r.task.id = some .confirmed))
  | .upload _ (.publishRaises sent) => inferInstanceAs (Decidable (sent = false))
  | .upload rid .raise | .upload rid .crash => inferInstanceAs
      (Decidable (∀ r ∈ Rows.find? s.uploads rid, InWindow r.stage = false))
  | .upload _ .list | .upload _ (.stage _) | .upload _ .record | .upload _ .publish | .upload _ .write
  | .upload _ .commit | .upload _ .delete | .upload _ .recordDelete | .upload _ .release => .isTrue trivial
  | .create _ _ _ _ | .classify _ _ _ | .read _ _ _ | .write _ | .uploadRead _ _ | .worker _
  | .apply _ | .cleanup _ | .workspace _ _ _ _ | .tick => .isTrue trivial

/-- Two rounds: the file fails in the first one and is retried. -/
theorem published_once_per_confirmation_run : ∃ s : State,
    s.trace.count (.published 0) = 2 ∧ OncePerConfirmation s := by
  obtain ⟨s, h, hc⟩ := run_of_replay Guarded (p := fun s => s.trace.count (.published 0) = 2)
    Sample.cfg initial (Sample.confirmed 0 0 [("acme/a.txt", [1])] ++ Sample.upload 0 1 ++
      Sample.run 2 0 [some (.sink "timeout" false)] ++ [.apply 0] ++ Sample.retry 0 3 ++
      Sample.upload 0 4) (by decide +kernel)
  exact ⟨s, hc, published_once_per_confirmation rfl h⟩

/-- Both requests read the status before either claims; the second gets its claim when
the first has committed and released. -/
theorem stale_status_publishes_twice :
    ¬ ∀ (cfg : Config) (s : State), cfg.settings.redis_idempotency_enabled = true →
      Run (step cfg) Smooth initial s → OncePerConfirmation s := by
  intro h
  obtain ⟨s, hrun, ht⟩ := run_of_replay Smooth
    (p := fun s => s.trace = [.published 0, .published 0, .confirmed 0]) Sample.cfg initial
    (Sample.confirmed 0 0 [("acme/a.txt", [1])] ++ (Sample.upload 0 1).take 1 ++
      (Sample.upload 0 2).take 1 ++ (Sample.upload 0 1).drop 1 ++ (Sample.upload 0 2).drop 1)
    (by decide +kernel)
  have hone := h Sample.cfg s rfl hrun 0 [] [.published 0, .published 0] [.confirmed 0] ht (by decide)
  exact absurd hone (by decide)

end FileDelivery.Proofs.PublishOnce
