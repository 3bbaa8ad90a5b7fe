import FileDelivery.Proofs.StagedKept

namespace FileDelivery.Proofs.StagingEvents
open FileDelivery.Library FileDelivery.Library.Runs FileDelivery.Control FileDelivery.Bridge
open FileDelivery.Proofs.Moves FileDelivery.Proofs.Effects FileDelivery.Proofs.ApplyResult
open FileDelivery.Proofs.Flow FileDelivery.Proofs.StagedKept

/-- The event tells that a staged archive came or went. -/
def archival (payload : EventPayload) : Bool :=
  (Staging.stagedSource payload).isSome || (Staging.deletedSource payload).isSome

def archiveEvents (db : Db) : List TaskEvent := db.events.filter (archival ·.payload)

theorem archiveEvents_append (db : Db) (t : Nat) (payload : EventPayload) :
    archiveEvents (EventRepo.append db t payload) =
      archiveEvents db ++ if archival payload then [⟨db.next_id, t, payload, db.now⟩] else [] := by
  simp only [archiveEvents, EventRepo.append, List.filter_append]
  cases h : archival payload <;> simp [h]

theorem mem_archiveEvents_append (he : e ∈ archiveEvents (EventRepo.append db t payload)) :
    e ∈ archiveEvents db ∨ e = ⟨db.next_id, t, payload, db.now⟩ := by
  rw [archiveEvents_append] at he
  rcases List.mem_append.mp he with he | he
  · exact .inl he
  · split at he
    · exact .inr (List.mem_singleton.mp he)
    · cases he

/-- An event about something else. -/
theorem archiveEvents_other (hevents : db'.events = db.events) (h : archival payload = false) :
    archiveEvents (EventRepo.append db' t payload) = archiveEvents db := by
  rw [archiveEvents_append, h]
  simp [archiveEvents, hevents]

theorem mem_archiveEvents_staged (he : e ∈ db.events)
    (hs : Staging.stagedSource e.payload = some source) : e ∈ archiveEvents db :=
  List.mem_filter.mpr ⟨he, by simp [archival, hs]⟩

theorem classify_archives
    (h : Tasks.classify_task py profile dir db actor t = .ok db') :
    archiveEvents db' = archiveEvents db := by
  obtain ⟨_, items, summary, inserted, _, _, _, hinsert, rfl⟩ := classify_spec h
  obtain ⟨rows, _, _, _, rfl⟩ := insert_spec hinsert (by simp [Tasks.itemRow])
  refine archiveEvents_other ?_ rfl
  rw [update_status_events]

theorem write_archives (db : Db) (r : WriteRequest) :
    archiveEvents (writeDb db r) = archiveEvents db := by
  unfold writeDb
  split
  · exact archiveEvents_other (update_status_events _ _ _ _ _ _) rfl
  · refine archiveEvents_other ?_ rfl
    split <;> rfl

theorem apply_archives (bucket : Text) (db : Db) (m : DeliveryResultMessage) :
    archiveEvents (apply_delivery_result bucket db m).1 = archiveEvents db := by
  cases h : TaskRepo.get db m.task_id none with
  | none => rw [apply_missing h]
  | some task =>
    have hframe := apply_loop_frame bucket task m ⟨db, 0, [], 0, []⟩ m.items
    simp only [apply_delivery_result, h]
    generalize m.items.foldl (apply_item bucket task m) ⟨db, 0, [], 0, []⟩ = acc at hframe ⊢
    have hdb : archiveEvents acc.db = archiveEvents db := by
      rw [archiveEvents, hframe.events, archiveEvents]
    unfold finish_apply
    split
    · exact (archiveEvents_other (update_status_events _ _ _ _ _ _) rfl).trans hdb
    · rw [archiveEvents_append]
      exact (List.append_nil _).trans
        ((archiveEvents_other (update_status_events _ _ _ _ _ _) rfl).trans hdb)

/-- The archive events that a list of appended events adds. -/
theorem appends_archives (events : List (Nat × EventPayload)) (db : Db) :
    ∀ e ∈ archiveEvents (events.foldl (fun db e => EventRepo.append db e.1 e.2) db),
      e ∈ archiveEvents db ∨ (e.task_id, e.payload) ∈ events := by
  induction events generalizing db with
  | nil => exact fun e he => .inl he
  | cons first events ih =>
    intro e he
    rcases ih _ e he with he | he
    · rcases mem_archiveEvents_append he with he | rfl
      · exact .inl he
      · exact .inr List.mem_cons_self
    · exact .inr (List.mem_cons_of_mem _ he)

/-- What one step tells about staged archives. -/
inductive Told (cfg : Config) (s : State) : Action → State → Prop
  | nothing (h : archiveEvents s'.db = archiveEvents s.db) : Told cfg s a s'
  | staged (r : UploadRequest) (items) (source : SourceRef) (hr : Rows.find? s.uploads rid = some r)
      (hstage : r.stage = .staged items source)
      (hdb : s'.db = EventRepo.append s.db r.task.id (.task_staged_source r.actor source))
      (hstore : s'.staging = s.staging) : Told cfg s (.upload rid .record) s'
  | compensated (r : UploadRequest) (source : SourceRef) (hr : Rows.find? s.uploads rid = some r)
      (hstage : r.stage = .deleted source)
      (hdb : s'.db = EventRepo.append s.db r.task.id (.task_staged_source_deleted (some r.actor)
        source.bucket source.key "publish_failed" none s.db.now))
      (hstore : s'.staging = s.staging) : Told cfg s (.upload rid .recordDelete) s'
  | cleaned (c : Cleanup) (hc : Rows.find? s.cleanups cid = some c)
      (hdb : s'.db = c.events.foldl (fun db e => EventRepo.append db e.1 e.2) s.db)
      (hstore : s'.staging = s.staging) : Told cfg s (.cleanup (.commit cid)) s'

theorem compensated_told (h : step cfg s (.upload rid .recordDelete) = some s') :
    Told cfg s (.upload rid .recordDelete) s' := by
  obtain ⟨r, hr, h⟩ := Option.bind_eq_some_iff.mp h
  obtain ⟨⟨u, next⟩, hu, rfl⟩ := Option.map_eq_some_iff.mp h
  cases hstage : r.stage with
  | deleted source =>
    rw [hstage] at hu
    cases hu
    exact .compensated r source hr hstage rfl rfl
  | _ =>
    rw [hstage] at hu
    cases hu

theorem step_told (h : step cfg s a = some s') : Told cfg s a s' := by
  cases step_moves h with
  | created db t dir hcreate =>
    obtain ⟨text, rfl, rfl⟩ := create_spec hcreate
    exact .nothing (archiveEvents_other rfl rfl)
  | classified dir db hclassify => exact .nothing (classify_archives hclassify)
  | wrote r hr => exact .nothing (write_archives s.db r)
  | requested r u next hr hmove =>
    generalize hstage : r.stage = stage at hmove
    cases hmove with
    | recorded => exact .staged r _ _ hr hstage rfl rfl
    | committed => exact .nothing (archiveEvents_other (update_status_events _ _ _ _ _ _) rfl)
    | reported => exact compensated_told h
    | _ => exact .nothing rfl
  | worked hmove => exact .nothing (by rw [worker_db hmove])
  | applied p hp => exact .nothing (apply_archives _ _ _)
  | cleaned hmove =>
    cases hmove with
    | committed c hc => exact .cleaned c hc rfl rfl
    | _ => exact .nothing rfl
  | _ => exact .nothing rfl

/-- Cleanup jobs in progress: their keys are used up, and they report deletions only. -/
structure Jobs (s : State) : Prop where
  fresh : ∀ c ∈ s.cleanups, c.cid < s.next_request
  reports : ∀ c ∈ s.cleanups, ∀ e ∈ c.events, Staging.stagedSource e.2 = none

theorem Jobs.frame (h : Jobs s) (hc : s'.cleanups = s.cleanups)
    (hn : s.next_request ≤ s'.next_request) : Jobs s' := by
  refine ⟨fun c hmem => ?_, fun c hmem => h.reports c (hc ▸ hmem)⟩
  have := h.fresh c (hc ▸ hmem)
  omega

theorem Jobs.erase (h : Jobs s) : Jobs { s with cleanups := Rows.erase s.cleanups cid } :=
  ⟨fun c hc => h.fresh c (Rows.mem_erase.mp hc).1, fun c hc => h.reports c (Rows.mem_erase.mp hc).1⟩

/-- A job that moves on keeps its key. -/
theorem Jobs.update (h : Jobs s) (f : Cleanup → Cleanup) (hid : ∀ c, (f c).cid = c.cid)
    (hevents : ∀ c, ∀ e ∈ (f c).events, e ∈ c.events ∨ Staging.stagedSource e.2 = none) :
    Jobs { s with cleanups := Rows.update s.cleanups cid f } := by
  constructor
  · intro c hc
    obtain ⟨d, hd, rfl⟩ := Rows.mem_update.mp hc
    split
    · rw [hid]
      exact h.fresh d hd
    · exact h.fresh d hd
  · intro c hc e he
    obtain ⟨d, hd, rfl⟩ := Rows.mem_update.mp hc
    split at he
    · exact (hevents d e he).elim (h.reports d hd e) id
    · exact h.reports d hd e he

theorem cleanup_jobs (h : Jobs s) (hs : Bridge.cleanup s action = some s') : Jobs s' := by
  cases action with
  | read retention bucket_name =>
    cases hs
    constructor
    · exact Rows.append_all (fun c hc => Nat.lt_succ_of_lt (h.fresh c hc)) (Nat.lt_succ_self _)
    · exact Rows.append_all h.reports (fun e he => nomatch he)
  | delete cid ok =>
    obtain ⟨c, _, hs⟩ := Option.bind_eq_some_iff.mp hs
    split at hs
    · cases hs
    · rename_i event rest hcand
      split at hs
      · rename_i target _ _
        cases hs
        refine (h.update (fun c => { c with
          candidates := rest
          events := c.events ++ [cleanupEvent s.db event target] }) (fun _ => rfl) ?_).frame rfl
            (Nat.le_refl _)
        intro c e he
        rcases List.mem_append.mp he with he | he
        · exact .inl he
        · cases List.mem_singleton.mp he
          exact .inr rfl
      · cases hs
        exact h.update (fun c => { c with candidates := rest }) (fun _ => rfl)
          (fun _ _ he => .inl he)
  | commit cid =>
    obtain ⟨c, _, hs⟩ := Option.bind_eq_some_iff.mp hs
    split at hs
    · cases hs
      exact h.erase.frame rfl (Nat.le_refl _)
    · cases hs
  | crash cid =>
    obtain ⟨c, _, rfl⟩ := Option.map_eq_some_iff.mp hs
    exact h.erase

theorem step_jobs (h : Jobs s) (hs : step cfg s a = some s') : Jobs s' := by
  cases step_moves hs with
  | requested r u next hr hmove =>
    generalize r.stage = stage at hmove
    cases hmove <;> exact h.frame rfl (Nat.le_refl _)
  | worked hmove =>
    cases hmove
    case started => exact h.frame rfl (Nat.le_succ _)
    all_goals exact h.frame rfl (Nat.le_refl _)
  | cleaned => exact cleanup_jobs h hs
  | read | began => exact h.frame rfl (Nat.le_succ _)
  | _ => exact h.frame rfl (Nat.le_refl _)

theorem reachable_jobs (h : Run (step cfg) ok initial s) : Jobs s :=
  h.invariant Jobs ⟨by simp [initial], by simp [initial]⟩ (fun _ _ _ hinv _ hs => step_jobs hinv hs)

/-- A staging event is about the one place that its task stages at. -/
def Named (cfg : Config) (s : State) : Prop :=
  ∀ e ∈ archiveEvents s.db, ∀ source ∈ Staging.stagedSource e.payload,
    place source = (cfg.settings.staging_bucket_name, Staging.stagingKey e.task_id)

theorem step_named (hi : Invariant cfg s) (hj : Jobs s) (h : Named cfg s)
    (hs : step cfg s a = some s') : Named cfg s' := by
  cases step_told hs with
  | nothing hsame =>
    unfold Named
    rw [hsame]
    exact h
  | staged r items source hr hstage hdb =>
    intro e he src hsrc
    rw [hdb] at he
    rcases mem_archiveEvents_append he with he | rfl
    · exact h e he src hsrc
    · cases hsrc
      have hheld : source ∈ heldSource r.stage := by
        rw [hstage]
        rfl
      obtain ⟨_, _, rfl⟩ := held_staged (hi.requests.each r (Rows.find_mem hr)) hheld
      rfl
  | compensated r source hr hstage hdb =>
    intro e he src hsrc
    rw [hdb] at he
    rcases mem_archiveEvents_append he with he | rfl
    · exact h e he src hsrc
    · cases hsrc
  | cleaned c hc hdb =>
    intro e he src hsrc
    rw [hdb] at he
    rcases appends_archives c.events s.db e he with he | he
    · exact h e he src hsrc
    · rw [hj.reports c (Rows.find_mem hc) _ he] at hsrc
      cases hsrc

theorem reachable_named (h : Run (step cfg) ok initial s) : Named cfg s :=
  h.invariant_given (fun s => Named cfg s) (fun s => Invariant cfg s ∧ Jobs s)
    (fun _ hr => ⟨reachable_flow hr, reachable_jobs hr⟩) (by simp [Named, archiveEvents, initial])
    (fun _ _ _ hb hinv _ hs => step_named hb.1 hb.2 hinv hs)

end FileDelivery.Proofs.StagingEvents
