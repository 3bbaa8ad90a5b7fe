import FileDelivery.Bridge.TaskApi
import FileDelivery.Library.Interference
import FileDelivery.Proofs.Flow
import FileDelivery.Proofs.TenantResults

namespace FileDelivery.Proofs.TenantWorld
open FileDelivery.Library FileDelivery.Library.Handlers FileDelivery.Library.Interference
open FileDelivery.Control FileDelivery.Bridge FileDelivery.Bridge.UploadTask
open FileDelivery.Proofs.TenantSlice FileDelivery.Proofs.TenantResults

def dirOf (cfg : Config) (k : Nat) : Text := cfg.settings.task_dir_base ++ ['/'] ++ idText k

/-- Where the directories, the staged archives and the message files of the tasks in `own` are. -/
def OwnDir (cfg : Config) (own : Nat → Bool) (path : Text) : Prop :=
  ∃ k, own k = true ∧ path = dirOf cfg k

def OwnKey (own : Nat → Bool) (x : Text × Text) : Prop :=
  ∃ k, own k = true ∧ x.2 = Staging.stagingKey k

def OwnFile (own : Nat → Bool) (name : Text) : Prop :=
  ∃ k, own k = true ∧ name = FileSpool.messageFile (idText k)

def markTask : Mark → Nat
  | .published k | .confirmed k => k

/-- The world as far as it is about the tasks in `own` and the tenant. -/
noncomputable def cut (cfg : Config) (own : Nat → Bool) (tenant : String) (w : World) : World where
  base := { w.base with
    db := slice own tenant w.base.db
    dirs := restrict (OwnDir cfg own) w.base.dirs
    staging := restrict (OwnKey own) w.base.staging
    messages := w.base.messages.filter (fun m => own m.task_id)
    trace := w.base.trace.filter (fun m => own (markTask m)) }
  outbox := restrict (OwnFile own) w.outbox
  topic := w.topic.filter (fun m => own m.2.task_id)

variable {cfg : Config} {own : Nat → Bool} {tenant : String} {k : Nat}

theorem own_dir : OwnDir cfg own (dirOf cfg k) ↔ own k = true := by
  constructor
  · rintro ⟨j, hj, he⟩
    have hid : k = j := idText_injective (List.append_cancel_left he)
    exact hid ▸ hj
  · exact fun h => ⟨k, h, rfl⟩

theorem own_key (bucket : Text) : OwnKey own (bucket, Staging.stagingKey k) ↔ own k = true := by
  constructor
  · rintro ⟨j, hj, he⟩
    exact Staging.stagingKey_injective he ▸ hj
  · exact fun h => ⟨k, h, rfl⟩

theorem own_file : OwnFile own (FileSpool.messageFile (idText k)) ↔ own k = true := by
  constructor
  · rintro ⟨j, hj, he⟩
    have hid : k = j := idText_injective (List.append_cancel_right he)
    exact hid ▸ hj
  · exact fun h => ⟨k, h, rfl⟩

theorem publish_cut (transport : Transport) (w : World) (message : DeliveryTaskMessage)
    (hk : own message.task_id = true) :
    (cut cfg own tenant w).publish transport message = cut cfg own tenant (w.publish transport message) := by
  have hmark : own (markTask (.published message.task_id)) = true := hk
  cases transport with
  | file =>
    simp only [World.publish, Bridge.publish, cut, List.filter_append, List.filter_cons, hk, hmark, if_true,
      List.filter_nil, update_restrict (own_file.mpr hk)]
  | kafka =>
    simp only [World.publish, Bridge.publish, cut, List.filter_append, List.filter_cons, hk, hmark, if_true,
      List.filter_nil]

/-- A request of the tenant as far as it is about the tenant. -/
noncomputable def cutRequest (cfg : Config) (own : Nat → Bool) (tenant : String) (r : Request) : Request :=
  { r with world := cut cfg own tenant r.world, session := slice own tenant r.session }

/-- The tenant's tasks are those in `own`, in the session and beside it. -/
structure Owned (cfg : Config) (own : Nat → Bool) (tenant : String) (r : Request) : Prop where
  world : Owns own tenant r.world.base.db
  session : Owns own tenant r.session
  dirs : ∀ x ∈ r.world.base.db.tasks, x.temp_dir = dirOf cfg x.id
  session_dirs : ∀ x ∈ r.session.tasks, x.temp_dir = dirOf cfg x.id
  source : ∀ source ∈ r.source_ref, OwnKey own (source.bucket, source.key)
  mine : mine tenant r.world.base.db = own
  session_mine : TenantResults.mine tenant r.session = own

section Own
variable {actor : CurrentActor} {failure : Option Failure} {α β : Type}

abbrev Stays (cfg : Config) (own : Nat → Bool) (tenant : String) (x : Upload α) (Q : α → Prop) : Prop :=
  Local (Owned cfg own tenant) (cutRequest cfg own tenant) x Q

theorem failAt_stays (point : Point) : Stays cfg own tenant (failAt failure point) (fun _ => True) := by
  refine ⟨fun r _ => ?_, fun r h => ?_, fun _ _ _ _ => trivial⟩
  all_goals
    unfold failAt
    cases failure with
    | none => first | rfl | exact h
    | some f =>
      simp only
      split
      all_goals first | rfl | exact h

theorem check_stays : Stays cfg own actor.tenant_id (UploadTask.upload_check actor k)
    (fun task => own task.id = true ∧ task.temp_dir = dirOf cfg task.id ∧ task.id = k) := by
  refine Local.ofExcept (fun r h => ?_) (fun r task h hok => ?_)
  · simp only [cutRequest, cut, Tasks.upload_check, read_slice h.world]
  · cases hc : Tasks.upload_check r.world.base.db actor k with
    | error e => simp [hc, Except.mapError] at hok
    | ok t =>
      rw [hc] at hok
      cases Except.ok.inj hok
      obtain ⟨hread, _⟩ := Flow.upload_check_spec hc
      obtain ⟨hfind, howner⟩ := Flow.read_spec hread
      have hmem := Rows.find_mem hfind
      exact ⟨(h.world task hmem).mpr howner, h.dirs task hmem, Rows.find_key hfind⟩

theorem acquire_stays :
    Stays cfg own tenant (_acquire_idempotency_claim cfg actor k) (fun _ => True) := by
  refine ⟨fun r _ => ?_, fun r h => ?_, fun _ _ _ _ => trivial⟩
  all_goals
    simp only [_acquire_idempotency_claim, cutRequest, cut]
    split
    all_goals first | rfl | exact ⟨h.world, h.session, h.dirs, h.session_dirs, h.source, h.mine, h.session_mine⟩

theorem release_stays (token : Nat) :
    Stays cfg own tenant (_release_idempotency_claim cfg actor k token) (fun _ => True) :=
  Local.modify (fun _ _ => rfl) (fun _ h => ⟨h.world, h.session, h.dirs, h.session_dirs, h.source, h.mine, h.session_mine⟩)

theorem append_stays (hk : own k = true) (payload : EventPayload) :
    Stays cfg own tenant (append k failure payload) (fun _ => True) := by
  refine (failAt_stays _).bind (fun _ _ => Local.bind (Local.modify (fun r _ => ?_) (fun r h => ?_))
    (fun _ _ => failAt_stays _))
  · simp only [cutRequest, append_slice hk]
  · exact ⟨h.world, h.session.of_same rfl, h.dirs, h.session_dirs, h.source, h.mine, h.session_mine⟩

theorem commit_stays : Stays cfg own tenant (commit failure) (fun _ => True) := by
  refine (failAt_stays _).bind (fun _ _ => Local.bind (Local.onError (failAt_stays _) (fun _ =>
    Local.modify (fun _ _ => rfl) (fun r h => ?_))) (fun _ _ => Local.bind
      (Local.modify (fun _ _ => rfl) (fun r h => ?_)) (fun _ _ => failAt_stays _)))
  · exact ⟨h.world, h.world, h.dirs, h.dirs, h.source, h.mine, h.mine⟩
  · exact ⟨h.session, h.session, h.session_dirs, h.session_dirs, h.source, h.session_mine, h.session_mine⟩

theorem delete_stays (source : SourceRef) (hs : OwnKey own (source.bucket, source.key)) :
    Stays cfg own tenant (delete_staged_archive source) (fun _ => True) := by
  refine Local.modify (fun r _ => ?_)
    (fun r h => ⟨h.world, h.session, h.dirs, h.session_dirs, h.source, h.mine, h.session_mine⟩)
  simp only [cutRequest, cut, Request.setBase, Objects.delete, update_restrict hs]

theorem stage_stays (task : Task) (hk : own task.id = true) (hdir : task.temp_dir = dirOf cfg task.id) :
    Stays cfg own tenant (stage_task_archive cfg failure task)
      (fun source => OwnKey own (source.bucket, source.key)) := by
  have hown : OwnDir cfg own task.temp_dir := hdir ▸ own_dir.mpr hk
  refine Local.bind (Local.ofExcept (Q := fun _ => True) (fun r _ => ?_) (fun _ _ _ _ => trivial))
    (fun archive _ => ?_)
  · simp only [archiveOf, cutRequest, cut, restrict_at hown]
  · have hkey : ∀ source, source = Staging.sourceRef cfg.py cfg.settings.staging_bucket_name task.id
        archive → OwnKey own (source.bucket, source.key) := by
      rintro _ rfl
      exact (own_key _).mpr hk
    refine (failAt_stays _).bind (fun _ _ => Local.bind (Local.modify (fun r _ => ?_) (fun r h => ?_))
      (fun _ _ => (failAt_stays _).bind (fun _ _ => Local.pure (hkey _ rfl))))
    · simp only [Request.put, cutRequest, cut, Objects.put, update_restrict (hkey _ rfl)]
    · exact ⟨h.world, h.session, h.dirs, h.session_dirs, h.source, h.mine, h.session_mine⟩

theorem source_stays (task : Task) (hk : own task.id = true) (hdir : task.temp_dir = dirOf cfg task.id)
    (hid : own k = true) :
    Stays cfg own tenant (stageSource cfg actor k failure task) (fun _ => True) := by
  unfold stageSource
  split
  · refine (stage_stays task hk hdir).bind (fun source hsource => Local.bind
      (Local.modify (fun _ _ => rfl) (fun r h => ?_))
      (fun _ _ => (append_stays hid _).bind (fun _ _ => commit_stays)))
    exact ⟨h.world, h.session, h.dirs, h.session_dirs, fun _ he => Option.some.inj he ▸ hsource,
      h.mine, h.session_mine⟩
  · exact Local.pure trivial

theorem publish_stays (task : Task) (hk : own task.id = true) (hdir : task.temp_dir = dirOf cfg task.id)
    (hid : own k = true) (items : List TaskItem) :
    Stays cfg own tenant (stageAndPublish cfg actor k failure task items) (fun _ => True) := by
  refine (source_stays task hk hdir hid).bind (fun _ _ => (failAt_stays _).bind (fun _ _ => ?_))
  refine Local.bind (Q := fun message => message.task_id = task.id) (Local.get (fun _ _ => rfl)
    (fun _ _ => rfl)) (fun message hm => (failAt_stays _).bind (fun _ _ =>
      Local.bind (Local.modify (fun r _ => ?_) (fun r h => ?_)) (fun _ _ => Local.pure trivial)))
  · have hown : own message.task_id = true := hm ▸ hk
    simp only [cutRequest, publish_cut _ _ _ hown]
  · have hbase : (r.world.publish cfg.settings.delivery_transport message).base.db = r.world.base.db := by
      cases cfg.settings.delivery_transport <;> rfl
    exact ⟨h.world.of_same (by rw [hbase]), h.session, hbase ▸ h.dirs, h.session_dirs, h.source,
      hbase ▸ h.mine, h.session_mine⟩

theorem compensate_stays (hid : own k = true) (e : Raised) :
    Stays cfg own tenant (compensate actor k e) (fun _ => True) := by
  unfold compensate
  split
  · refine Local.bind (Q := fun ref => ∀ source ∈ ref, OwnKey own (source.bucket, source.key))
      (Local.get (fun _ _ => rfl) (fun r h => h.source)) (fun ref href => ?_)
    split
    · rename_i source
      refine (delete_stays source (href source rfl)).bind (fun _ _ => Local.bind (Q := fun _ => True)
        (Local.get (fun _ _ => rfl) (fun _ _ => trivial))
        (fun _ _ => (append_stays hid _).bind (fun _ _ => commit_stays)))
    · exact Local.pure trivial
  · exact Local.pure trivial

theorem queue_slice (h : Owns own actor.tenant_id db) (hk : own k = true) (settings : Settings)
    (count : Nat) : Tasks.queue_write settings (slice own actor.tenant_id db) actor k count =
      slice own actor.tenant_id (Tasks.queue_write settings db actor k count) := by
  simp only [Tasks.queue_write, update_status_slice h, append_slice hk]

theorem items_slice (h : Owns own actor.tenant_id db) :
    Tasks.upload_items (slice own actor.tenant_id db) actor k = Tasks.upload_items db actor k := by
  simp only [Tasks.upload_items, list_slice h]

theorem update_status_dirs (h : ∀ x ∈ db.tasks, x.temp_dir = dirOf cfg x.id) (k : Nat) (st : TaskStatus)
    (ten : Option String) (c f : Option Time) :
    ∀ x ∈ (TaskRepo.update_status db k st ten c f).tasks, x.temp_dir = dirOf cfg x.id := by
  intro x hx
  rcases Effects.update_status_tasks db k st ten c f with ⟨_, hsame⟩ | ⟨_, g, hw⟩
  · exact h x (hsame ▸ hx)
  · obtain ⟨y, hy, hid, _, hdir, _⟩ := hw.mem hx
    rw [← hdir, h y hy, hid]

theorem deliver_stays (task : Task) (hk : own task.id = true) (hdir : task.temp_dir = dirOf cfg task.id)
    (hid : own k = true) :
    Stays cfg own actor.tenant_id (deliver cfg actor k failure task) (fun _ => True) := by
  refine (failAt_stays _).bind (fun _ _ => Local.bind (Q := fun _ => True)
    (Local.get (fun r h => ?_) (fun _ _ => trivial)) (fun items _ => ?_))
  · exact items_slice h.session
  · refine Local.bind (Local.onError (publish_stays task hk hdir hid items) (compensate_stays hid))
      (fun message _ => Local.bind (Local.modify (fun r h => ?_) (fun r h => ?_))
        (fun _ _ => commit_stays.bind (fun _ _ => Local.pure trivial)))
    · simp only [cutRequest, queue_slice h.session hid]
    · exact ⟨h.world, (update_status_owns h.session _ _ _ _ _).of_same rfl, h.dirs,
        update_status_dirs h.session_dirs _ _ _ _ _, h.source, h.mine,
        (mine_keys (congrArg Keys.tasks (update_status_keys r.session _ _ _ _ _)) _).trans h.session_mine⟩

/-- An upload request of the tenant reads and writes what is the tenant's, however it ends. -/
theorem upload_stays : Stays cfg own actor.tenant_id (UploadTask.upload_task cfg actor k failure)
    (fun _ => True) := by
  refine check_stays.bind (fun task htask => acquire_stays.bind (fun token _ => ?_))
  obtain ⟨hk, hdir, hid⟩ := htask
  exact (deliver_stays task hk hdir (hid ▸ hk)).andFinally (release_stays token)

end Own

end FileDelivery.Proofs.TenantWorld
