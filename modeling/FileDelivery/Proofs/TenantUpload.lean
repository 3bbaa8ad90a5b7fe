import FileDelivery.Proofs.AtomicUpload
import FileDelivery.Proofs.TenantWorld

namespace FileDelivery.Proofs.TenantUpload
open FileDelivery.Library FileDelivery.Library.Handlers FileDelivery.Library.Interference
open FileDelivery.Control FileDelivery.Bridge FileDelivery.Bridge.UploadTask
open FileDelivery.Proofs.TenantSlice FileDelivery.Proofs.TenantResults FileDelivery.Proofs.TenantWorld
open FileDelivery.Proofs.AtomicUpload (failAt_ends)

/-- The key and the token to draw next, and the time. -/
structure Next where
  id : Nat
  token : Nat
  now : Time

/-- What is drawn at `m` has not been drawn at `n`. -/
def Next.Before (n m : Next) : Prop := n.id ≤ m.id ∧ n.token ≤ m.token ∧ n.now ≤ m.now

theorem Next.Before.trans {a b c : Next} (h : a.Before b) (h' : b.Before c) : a.Before c :=
  ⟨h.1.trans h'.1, h.2.1.trans h'.2.1, h.2.2.trans h'.2.2⟩

def next (w : World) : Next := ⟨w.base.db.next_id, w.base.next_request, w.base.db.now⟩

/-- The tables are linked, each task's directory is named by its key, and it is `n` or later. -/
structure Sound (cfg : Config) (n : Next) (db : Db) : Prop where
  linked : Linked (keys db)
  dirs : ∀ x ∈ db.tasks, x.temp_dir = dirOf cfg x.id
  bound : n.id ≤ db.next_id
  clock : n.now ≤ db.now

/-- What is beside the tables is about keys drawn before `n`. -/
structure Tidy (n : Next) (w : World) : Prop where
  messages : ∀ m ∈ w.base.messages, m.task_id < n.id
  trace : ∀ m ∈ w.base.trace, markTask m < n.id
  topic : ∀ m ∈ w.topic, m.2.task_id < n.id
  staging : ∀ x, w.base.staging x ≠ none → ∃ k < n.id, x.2 = Staging.stagingKey k
  outbox : ∀ name, w.outbox name ≠ none → ∃ k < n.id, name = FileSpool.messageFile (idText k)
  tokens : n.token ≤ w.base.next_request

/-- What the tenant may see, whatever the next keys, the time and the claims of the moment. -/
noncomputable def view (cfg : Config) (own : Nat → Bool) (tenant : String) (w : World) : World :=
  { cut cfg own tenant w with base := { (cut cfg own tenant w).base with
    db := see own tenant w.base.db, next_request := 0, claims := fun _ => none } }

/-- A request about task `k` in progress, with the claims `claims`. To tenants that `k` is not a
task of, the world looks as `seen`. -/
structure Aside (cfg : Config) (n : Next) (k : Nat) (own : Nat → Bool) (tenant : String) (seen : World)
    (claims : IdempotencyGuard.Store) (r : Request) : Prop where
  world : Sound cfg n r.world.base.db
  session : Sound cfg n r.session
  tidy : Tidy n r.world
  claims : r.world.base.claims = claims
  source : ∀ source ∈ r.source_ref, source.key = Staging.stagingKey k
  hidden : own k = false → view cfg own tenant r.world = seen ∧ see own tenant r.session = seen.base.db
  mine : mine tenant r.world.base.db = own
  session_mine : TenantResults.mine tenant r.session = own

variable {cfg : Config} {own : Nat → Bool} {tenant : String} {n : Next} {k : Nat} {seen : World}
  {claims : IdempotencyGuard.Store} {actor : CurrentActor} {failure : Option Failure} {α : Type}

/-- The request goes on like this, whether the call returns or raises. -/
abbrev Keeps (P : Request → Prop) (x : Upload α) : Prop := Ends P x (fun _ => P) (fun _ => P)

theorem Sound.append (h : Sound cfg n db) (hk : k < n.id) (payload : EventPayload) :
    Sound cfg n (EventRepo.append db k payload) :=
  ⟨h.linked.append (hk.trans_le h.bound) payload, h.dirs, h.bound.trans (Nat.le_succ _), h.clock⟩

theorem Sound.update_status (h : Sound cfg n db) (k : Nat) (st : TaskStatus) (ten : Option String)
    (c f : Option Time) : Sound cfg n (TaskRepo.update_status db k st ten c f) := by
  have hkeys := update_status_keys db k st ten c f
  have hnext : (TaskRepo.update_status db k st ten c f).next_id = db.next_id := congrArg Keys.next_id hkeys
  have hnow : (TaskRepo.update_status db k st ten c f).now = db.now := by
    unfold TaskRepo.update_status
    split <;> rfl
  exact ⟨hkeys ▸ h.linked, update_status_dirs h.dirs _ _ _ _ _, hnext ▸ h.bound, hnow ▸ h.clock⟩

theorem Sound.renew (h : Sound cfg n db) (hw : w.base.db = db) : Sound cfg (next w) w.base.db :=
  hw.symm ▸ ⟨h.linked, h.dirs, by simp [next, hw], by simp [next, hw]⟩

theorem Tidy.renew (h : Tidy n w) (hn : n.id ≤ w.base.db.next_id) : Tidy (next w) w := by
  refine ⟨fun m hm => (h.messages m hm).trans_le hn, fun m hm => (h.trace m hm).trans_le hn,
    fun m hm => (h.topic m hm).trans_le hn, fun x hx => ?_, fun name hname => ?_, Nat.le_refl _⟩
  · obtain ⟨k, hk, he⟩ := h.staging x hx
    exact ⟨k, hk.trans_le hn, he⟩
  · obtain ⟨k, hk, he⟩ := h.outbox name hname
    exact ⟨k, hk.trans_le hn, he⟩

abbrev Safe (cfg : Config) (n : Next) (k : Nat) (own : Nat → Bool) (tenant : String) (seen : World)
    (claims : IdempotencyGuard.Store) (x : Upload α) : Prop :=
  Keeps (Aside cfg n k own tenant seen claims) x

theorem failAt_safe (point : Point) :
    Safe cfg n k own tenant seen claims (failAt failure point) :=
  failAt_ends (fun _ _ _ _ h => h)

theorem append_safe (hk : k < n.id) (payload : EventPayload) :
    Safe cfg n k own tenant seen claims (append k failure payload) := by
  refine (failAt_safe _).bind (fun _ => Ends.bind (Ends.modify (fun r h => ?_)) (fun _ => failAt_safe _))
  refine ⟨h.world, h.session.append hk payload, h.tidy, h.claims, h.source, fun hown => ?_, h.mine,
    h.session_mine⟩
  exact ⟨(h.hidden hown).1, (append_hidden hown payload).trans (h.hidden hown).2⟩

theorem commit_safe : Safe cfg n k own tenant seen claims (commit failure) := by
  refine (failAt_safe _).bind (fun _ => Ends.bind (Ends.onError (failAt_safe _) (fun _ =>
    Ends.modify (fun r h => ?_))) (fun _ => Ends.bind (Ends.modify (fun r h => ?_))
      (fun _ => failAt_safe _)))
  · refine ⟨h.world, h.world, h.tidy, h.claims, h.source, fun hown => ?_, h.mine, h.mine⟩
    exact ⟨(h.hidden hown).1, congrArg (fun w => w.base.db) (h.hidden hown).1⟩
  · refine ⟨h.session, h.session, ⟨h.tidy.messages, h.tidy.trace, h.tidy.topic, h.tidy.staging,
      h.tidy.outbox, h.tidy.tokens⟩, h.claims, h.source, fun hown => ?_, h.session_mine, h.session_mine⟩
    obtain ⟨hview, hsee⟩ := h.hidden hown
    refine ⟨?_, hsee⟩
    rw [← hview] at hsee ⊢
    simp only [view, cut, Request.setBase, hsee]

theorem staging_tidy (h : Tidy n w) (hk : k < n.id) (bucket : Text) (archive : Option Archive) :
    Tidy n { w with base := { w.base with
      staging := Function.update w.base.staging (bucket, Staging.stagingKey k) archive } } := by
  refine ⟨h.messages, h.trace, h.topic, fun x hx => ?_, h.outbox, h.tokens⟩
  by_cases hkey : x = (bucket, Staging.stagingKey k)
  · exact ⟨k, hk, by rw [hkey]⟩
  · exact h.staging x (by simpa [Function.update_of_ne hkey] using hx)

theorem staging_hidden (hown : own k = false) (bucket : Text) (archive : Option Archive) :
    view cfg own tenant { w with base := { w.base with
      staging := Function.update w.base.staging (bucket, Staging.stagingKey k) archive } } =
        view cfg own tenant w := by
  have hkey : ¬OwnKey own (bucket, Staging.stagingKey k) := by
    rw [own_key, hown]
    decide
  simp only [view, cut, restrict_update hkey]

theorem delete_safe (hk : k < n.id) (source : SourceRef) (hs : source.key = Staging.stagingKey k) :
    Safe cfg n k own tenant seen claims (delete_staged_archive source) := by
  refine Ends.modify (fun r h => ?_)
  have hstep : r.setBase { r.world.base with
      staging := r.world.base.staging.delete source.bucket source.key } =
        { r with world := { r.world with base := { r.world.base with
          staging := Function.update r.world.base.staging (source.bucket, Staging.stagingKey k) none } } } := by
    simp only [Request.setBase, Objects.delete, hs]
  rw [hstep]
  refine ⟨h.world, h.session, staging_tidy h.tidy hk _ _, h.claims, h.source, fun hown => ?_, h.mine,
    h.session_mine⟩
  exact ⟨(staging_hidden hown _ _).trans (h.hidden hown).1, (h.hidden hown).2⟩

theorem stage_safe (hk : k < n.id) (task : Task) (hid : task.id = k) :
    Ends (Aside cfg n k own tenant seen claims) (stage_task_archive cfg failure task)
      (fun source r => source.key = Staging.stagingKey k ∧ Aside cfg n k own tenant seen claims r)
      (fun _ => Aside cfg n k own tenant seen claims) := by
  refine Ends.bind (Ends.ofExcept (Q := fun _ => Aside cfg n k own tenant seen claims)
    (fun _ _ h _ => h) (fun _ _ h _ => h)) (fun archive => ?_)
  refine (failAt_safe _).bind (fun _ => Ends.bind (Ends.modify (fun r h => ?_))
    (fun _ => (failAt_safe _).bind (fun _ => Ends.pure (fun r h => ⟨?_, h⟩))))
  · simp only [Request.put, Objects.put, Staging.sourceRef, hid]
    refine ⟨h.world, h.session, staging_tidy h.tidy hk _ _, h.claims, h.source, fun hown => ?_,
      h.mine, h.session_mine⟩
    exact ⟨(staging_hidden hown _ _).trans (h.hidden hown).1, (h.hidden hown).2⟩
  · simp only [Staging.sourceRef, hid]

theorem source_safe (hk : k < n.id) (task : Task) (hid : task.id = k) :
    Safe cfg n k own tenant seen claims (stageSource cfg actor k failure task) := by
  unfold stageSource
  split
  · refine (stage_safe hk task hid).bind (fun source => Ends.bind
      (Q := fun _ => Aside cfg n k own tenant seen claims)
      (Ends.modify (fun r h => ?_)) (fun _ => (append_safe hk _).bind (fun _ => commit_safe)))
    obtain ⟨hkey, h⟩ := h
    exact ⟨h.world, h.session, h.tidy, h.claims, fun _ he => Option.some.inj he ▸ hkey, h.hidden,
      h.mine, h.session_mine⟩
  · exact Ends.pure (fun _ h => h)

theorem publish_tidy (h : Tidy n w) (transport : Transport) (message : DeliveryTaskMessage)
    (hk : message.task_id < n.id) : Tidy n (w.publish transport message) := by
  have hmessages := Rows.append_all h.messages hk
  have htrace : ∀ m ∈ Mark.published message.task_id :: w.base.trace, markTask m < n.id :=
    List.forall_mem_cons.mpr ⟨hk, h.trace⟩
  cases transport with
  | kafka => exact ⟨hmessages, htrace, Rows.append_all h.topic hk, h.staging, h.outbox, h.tokens⟩
  | file =>
    refine ⟨hmessages, htrace, h.topic, h.staging, fun name hname => ?_, h.tokens⟩
    by_cases hfile : name = FileSpool.messageFile (idText message.task_id)
    · exact ⟨_, hk, hfile⟩
    · exact h.outbox name (by simpa [World.publish, Function.update_of_ne hfile] using hname)

theorem publish_hidden (transport : Transport) (message : DeliveryTaskMessage)
    (hown : own message.task_id = false) (w : World) :
    view cfg own tenant (w.publish transport message) = view cfg own tenant w := by
  have hmark : own (markTask (.published message.task_id)) = false := hown
  have hfile : ¬OwnFile own (FileSpool.messageFile (idText message.task_id)) := by
    rw [own_file, hown]
    decide
  cases transport with
  | kafka => simp [World.publish, Bridge.publish, view, cut, hown, hmark]
  | file => simp [World.publish, Bridge.publish, view, cut, hown, hmark, restrict_update hfile]

theorem publish_safe (hk : k < n.id) (task : Task) (hid : task.id = k) (items : List TaskItem) :
    Safe cfg n k own tenant seen claims (stageAndPublish cfg actor k failure task items) := by
  refine (source_safe hk task hid).bind (fun _ => (failAt_safe _).bind (fun _ => ?_))
  refine Ends.bind (Q := fun message r => message.task_id = k ∧ Aside cfg n k own tenant seen claims r)
    (Ends.get (fun _ h => ⟨hid, h⟩)) (fun message => ?_)
  refine Ends.assuming (fun hm => (failAt_safe _).bind (fun _ =>
    Ends.bind (Ends.modify (fun r h => ?_)) (fun _ => Ends.pure (fun _ h => h))))
  have hbase : (r.world.publish cfg.settings.delivery_transport message).base.db = r.world.base.db := by
    cases cfg.settings.delivery_transport <;> rfl
  have hclaims : (r.world.publish cfg.settings.delivery_transport message).base.claims =
      r.world.base.claims := by
    cases cfg.settings.delivery_transport <;> rfl
  refine ⟨hbase ▸ h.world, h.session, publish_tidy h.tidy _ message (hm ▸ hk), hclaims.trans h.claims,
    h.source, fun hown => ?_, hbase ▸ h.mine, h.session_mine⟩
  exact ⟨(publish_hidden _ message (hm ▸ hown) _).trans (h.hidden hown).1, (h.hidden hown).2⟩

theorem compensate_safe (hk : k < n.id) (e : Raised) :
    Safe cfg n k own tenant seen claims (compensate actor k e) := by
  unfold compensate
  split
  · refine Ends.bind (Q := fun ref r => (∀ source ∈ ref, source.key = Staging.stagingKey k) ∧
      Aside cfg n k own tenant seen claims r) (Ends.get (fun r h => ⟨h.source, h⟩)) (fun ref => ?_)
    refine Ends.assuming (fun href => ?_)
    split
    · rename_i source
      exact (delete_safe hk source (href source rfl)).bind (fun _ => Ends.bind
        (Q := fun _ => Aside cfg n k own tenant seen claims) (Ends.get (fun _ h => h))
        (fun _ => (append_safe hk _).bind (fun _ => commit_safe)))
    · exact Ends.pure (fun _ h => h)
  · exact Ends.pure (fun _ h => h)

theorem deliver_safe (hk : k < n.id) (task : Task) (hid : task.id = k) :
    Safe cfg n k own tenant seen claims (deliver cfg actor k failure task) := by
  refine (failAt_safe _).bind (fun _ => Ends.bind (Q := fun _ => Aside cfg n k own tenant seen claims)
    (Ends.get (fun _ h => h)) (fun items => ?_))
  refine Ends.bind (Ends.onError (publish_safe hk task hid items) (fun e => compensate_safe hk e))
    (fun message => Ends.bind (Ends.modify (fun r h => ?_))
      (fun _ => commit_safe.bind (fun _ => Ends.pure (fun _ h => h))))
  refine ⟨h.world, (h.session.update_status _ _ _ _ _).append hk _, h.tidy, h.claims, h.source,
    fun hown => ⟨(h.hidden hown).1, ?_⟩, h.mine,
    (mine_keys (congrArg Keys.tasks (update_status_keys r.session _ _ _ _ _)) _).trans h.session_mine⟩
  refine (append_hidden hown _).trans ((update_status_hidden hown _ _ _ _).trans (h.hidden hown).2)

/-- No claim is held. -/
def unclaimed : IdempotencyGuard.Store := fun _ => none

/-- The only claim is the request's. -/
def claimed (cfg : Config) (actor : CurrentActor) (k token : Nat) : IdempotencyGuard.Store :=
  if cfg.settings.redis_idempotency_enabled then
    Function.update unclaimed (Tasks.upload_key actor k) (some token)
  else unclaimed

theorem acquire_safe : Ends (Aside cfg n k own tenant seen unclaimed)
    (_acquire_idempotency_claim cfg actor k)
    (fun token => Aside cfg n k own tenant seen (claimed cfg actor k token))
    (fun _ => Aside cfg n k own tenant seen unclaimed) := by
  intro r h
  have hgrant : IdempotencyGuard.acquire cfg.settings.redis_idempotency_enabled r.world.base.claims
      (Tasks.upload_key actor k) r.world.base.next_request =
        some (claimed cfg actor k r.world.base.next_request) := by
    rw [h.claims]
    unfold IdempotencyGuard.acquire claimed
    split <;> rfl
  simp only [_acquire_idempotency_claim, hgrant]
  refine ⟨h.world, h.session, ⟨h.tidy.messages, h.tidy.trace, h.tidy.topic, h.tidy.staging,
    h.tidy.outbox, Nat.le_succ_of_le h.tidy.tokens⟩, rfl, h.source, fun hown => ?_, h.mine, h.session_mine⟩
  exact ⟨(h.hidden hown).1, (h.hidden hown).2⟩

theorem release_safe (token : Nat) : Ends (Aside cfg n k own tenant seen (claimed cfg actor k token))
    (_release_idempotency_claim cfg actor k token)
    (fun _ => Aside cfg n k own tenant seen unclaimed)
    (fun _ => Aside cfg n k own tenant seen unclaimed) := by
  refine Ends.modify (fun r h => ?_)
  have hfree : IdempotencyGuard.release cfg.settings.redis_idempotency_enabled r.world.base.claims
      (Tasks.upload_key actor k) token = unclaimed := by
    rw [h.claims]
    unfold IdempotencyGuard.release claimed
    cases cfg.settings.redis_idempotency_enabled with
    | false => simp
    | true =>
      simp only [if_true, Function.update_self, and_self, Function.update_idem]
      exact Function.update_eq_self _ _
  rw [hfree]
  refine ⟨h.world, h.session, ⟨h.tidy.messages, h.tidy.trace, h.tidy.topic, h.tidy.staging,
    h.tidy.outbox, h.tidy.tokens⟩, rfl, h.source, fun hown => ?_, h.mine, h.session_mine⟩
  exact ⟨(h.hidden hown).1, (h.hidden hown).2⟩

theorem check_safe : Ends (fun r => n.id = r.world.base.db.next_id ∧
      Aside cfg n k own tenant seen claims r) (UploadTask.upload_check actor k)
    (fun task r => (task.id = k ∧ k < n.id) ∧ Aside cfg n k own tenant seen claims r)
    (fun _ => Aside cfg n k own tenant seen claims) := by
  refine Ends.ofExcept (fun r task h hok => ⟨?_, h.2⟩) (fun _ _ h _ => h.2)
  cases hc : Tasks.upload_check r.world.base.db actor k with
  | error e => simp [hc, Except.mapError] at hok
  | ok t =>
    rw [hc] at hok
    cases Except.ok.inj hok
    obtain ⟨hfind, _⟩ := Flow.read_spec (Flow.upload_check_spec hc).1
    have hid : task.id = k := Rows.find_key hfind
    have hfresh : task.id < r.world.base.db.next_id :=
      h.2.world.linked.tasks _ (List.mem_map_of_mem (Rows.find_mem hfind))
    exact ⟨hid, by omega⟩

/-- However an upload request ends: no claim is left, and others see what they have seen. -/
theorem upload_safe : Ends (fun r => n.id = r.world.base.db.next_id ∧
      Aside cfg n k own tenant seen unclaimed r) (UploadTask.upload_task cfg actor k failure)
    (fun _ => Aside cfg n k own tenant seen unclaimed)
    (fun _ => Aside cfg n k own tenant seen unclaimed) := by
  refine check_safe.bind (fun task => Ends.assuming (fun htask => acquire_safe.bind (fun token => ?_)))
  exact Ends.andFinally (deliver_safe htask.2 task htask.1) (fun _ => release_safe token)
    (fun _ => release_safe token)

end FileDelivery.Proofs.TenantUpload
