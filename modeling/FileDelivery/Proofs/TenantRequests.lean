import FileDelivery.Proofs.TenantHandlers

namespace FileDelivery.Proofs.TenantRequests
open FileDelivery.Library FileDelivery.Library.Fallible FileDelivery.Library.Handlers
open FileDelivery.Library.Interference FileDelivery.Control FileDelivery.Bridge
open FileDelivery.Bridge.UploadTask FileDelivery.Bridge.TaskApi
open FileDelivery.Proofs.TenantSlice FileDelivery.Proofs.TenantResults FileDelivery.Proofs.TenantWorld
open FileDelivery.Proofs.TenantUpload FileDelivery.Proofs.TenantHandlers

/-- Between two requests. -/
structure Good (cfg : Config) (w : World) : Prop where
  sound : Sound cfg (next w) w.base.db
  tidy : Tidy (next w) w
  claims : w.base.claims = unclaimed

/-- The world of the tenant, and what it can see of it. -/
noncomputable def share (cfg : Config) (tenant : String) (w : World) : World :=
  cut cfg (mine tenant w.base.db) tenant w

noncomputable def sight (cfg : Config) (tenant : String) (w : World) : World :=
  view cfg (mine tenant w.base.db) tenant w

variable {env : Env} {cfg : Config} {tenant : String} {k : Nat} {w : World} {actor : CurrentActor}

/-- A request that leaves the world good, the keys drawn in it aside. -/
structure Serves (cfg : Config) (a b : World) : Prop where
  good : Good cfg b
  later : (next a).Before (next b)

theorem Good.stays (h : Good cfg w) : Serves cfg w w :=
  ⟨h, Nat.le_refl _, Nat.le_refl _, Nat.le_refl _⟩

theorem Good.write (h : Good cfg w) (hs : Sound cfg (next w) db) : Serves cfg w (setDb w db) := by
  refine ⟨⟨hs.renew rfl, ?_, h.claims⟩, hs.bound, Nat.le_refl _, hs.clock⟩
  have ht : Tidy (next w) (setDb w db) := ⟨h.tidy.messages, h.tidy.trace, h.tidy.topic, h.tidy.staging,
    h.tidy.outbox, h.tidy.tokens⟩
  exact ht.renew hs.bound

/-- As the next event finds it. -/
theorem Good.arrives {e : Event} (h : Good cfg w) (hn : (next w).Before ⟨e.id, e.token, e.now⟩) :
    Good cfg (arrive w e) := by
  have ht : Tidy (next w) (arrive w e) := ⟨h.tidy.messages, h.tidy.trace, h.tidy.topic, h.tidy.staging,
    h.tidy.outbox, hn.2.1⟩
  exact ⟨⟨h.sound.linked.later hn.1, h.sound.dirs, Nat.le_refl _, Nat.le_refl _⟩, ht.renew hn.1, h.claims⟩

theorem Good.owns (h : Good cfg w) (tenant : String) : Owns (mine tenant w.base.db) tenant w.base.db :=
  h.sound.linked.owns tenant

/-- A task that the actor's tenant owns. -/
structure Held (actor : CurrentActor) (w : World) (k : Nat) : Prop where
  known : k < w.base.db.next_id
  own : mine actor.tenant_id w.base.db k = true
  others : ∀ tenant, tenant ≠ actor.tenant_id → mine tenant w.base.db k = false

theorem Good.held (h : Good cfg w) (hr : Tasks.readTask w.base.db actor k = .ok task) :
    Held actor w k ∧ task.id = k ∧ task.temp_dir = dirOf cfg k := by
  obtain ⟨hfind, howner⟩ := Flow.read_spec hr
  have hmem := Rows.find_mem hfind
  have hid : task.id = k := Rows.find_key hfind
  have hids : (w.base.db.tasks.map Task.id).Nodup := by
    simpa [keys, Function.comp_def] using h.sound.linked.task_ids
  refine ⟨⟨?_, ?_, fun tenant hne => ?_⟩, hid, hid ▸ h.sound.dirs task hmem⟩
  · exact hid ▸ h.sound.linked.tasks _ (List.mem_map_of_mem hmem)
  · exact mine_iff.mpr ⟨task, hmem, hid, howner⟩
  · refine Bool.eq_false_iff.mpr (fun hmine => ?_)
    obtain ⟨x, hx, hxid, hxo⟩ := mine_iff.mp hmine
    have hsame : x = task := List.inj_on_of_nodup_map hids hx hmem (hxid.trans hid.symm)
    exact hne (by rw [← hxo, hsame, howner])

/-- What a tenant sees, of a world with other tables. -/
theorem sight_setDb (hm : mine tenant db = mine tenant w.base.db)
    (hs : see (mine tenant w.base.db) tenant db = see (mine tenant w.base.db) tenant w.base.db) :
    sight cfg tenant (setDb w db) = sight cfg tenant w := by
  have hdb : (setDb w db).base.db = db := rfl
  simp only [sight, hdb, hm, view, hs]
  rfl

theorem share_setDb (hm : mine tenant db = mine tenant w.base.db) :
    share cfg tenant (setDb w db) =
      setDb (share cfg tenant w) (slice (mine tenant w.base.db) tenant db) := by
  have hdb : (setDb w db).base.db = db := rfl
  simp only [share, hdb, hm]
  rfl

section Writes
variable {response : Except HTTPException (Body × Db)}

/-- What a handler that commits at its end writes. -/
def Writes (actor : CurrentActor) (w : World) (response : Except HTTPException (Body × Db)) : Prop :=
  ∀ body db, response = .ok (body, db) → ∃ k, Held actor w k ∧ Touches k w.base.db db

theorem writes_serves (h : Good cfg w) (hw : Writes actor w response) :
    Serves cfg w (writes w response).2 := by
  cases response with
  | error e => exact h.stays
  | ok r =>
    obtain ⟨k, hk, ht⟩ := hw r.1 r.2 rfl
    exact h.write (ht.sound h.sound hk.known)

theorem writes_hidden (hw : Writes actor w response) (hne : tenant ≠ actor.tenant_id) :
    sight cfg tenant (writes w response).2 = sight cfg tenant w := by
  cases response with
  | error e => rfl
  | ok r =>
    obtain ⟨k, hk, ht⟩ := hw r.1 r.2 rfl
    exact sight_setDb (mine_keys ht.tasks tenant) (ht.hidden _ tenant (hk.others tenant hne))

theorem writes_own (hw : Writes actor w response)
    (hr : response' = response.map (fun r => (r.1, slice (mine actor.tenant_id w.base.db)
      actor.tenant_id r.2))) :
    writes (share cfg actor.tenant_id w) response' =
      ((writes w response).1, share cfg actor.tenant_id (writes w response).2) := by
  subst hr
  cases response with
  | error e => rfl
  | ok r =>
    obtain ⟨k, hk, ht⟩ := hw r.1 r.2 rfl
    exact Prod.ext rfl (share_setDb (mine_keys ht.tasks _)).symm

end Writes

section Reads

theorem listed_slice (h : Owns own tenant db) :
    TaskRepo.listed (slice own tenant db) (some tenant) = TaskRepo.listed db (some tenant) := by
  refine congrArg (List.insertionSort TaskRepo.recentOrder) ?_
  simp only [slice, List.filter_filter]
  refine List.filter_congr (fun x hx => ?_)
  have := h x hx
  simp only [tenantAllows]
  grind

theorem get_task_slice (h : Owns own actor.tenant_id db) :
    Tasks.get_task (slice own actor.tenant_id db) actor k = Tasks.get_task db actor k := by
  simp only [Tasks.get_task, find_slice h]

theorem preview_slice (h : Owns own actor.tenant_id db) :
    Tasks.preview_task (slice own actor.tenant_id db) actor k = Tasks.preview_task db actor k := by
  simp only [Tasks.preview_task, find_slice h, list_slice h]

theorem list_tasks_slice (h : Owns own actor.tenant_id db) (limit offset : Nat) :
    Tasks.list_tasks (slice own actor.tenant_id db) actor limit offset =
      Tasks.list_tasks db actor limit offset := by
  simp only [Tasks.list_tasks, TaskRepo.list, listed_slice h]

end Reads

section Handlers

theorem confirm_writes (h : Good cfg w) : Writes actor w
    ((Tasks.confirm_check w.base.db actor k).map (fun _ =>
      (Body.status 200 k .confirmed, Tasks.confirm_write w.base.db actor k))) := by
  intro body db he
  obtain ⟨task, hcheck, he⟩ := map_ok.mp he
  obtain ⟨row, hread, _⟩ := bind_ok.mp hcheck
  obtain ⟨rfl, rfl⟩ := Prod.mk.inj he
  exact ⟨k, (h.held hread).1, confirm_touches actor⟩

theorem confirm_own (h : Good cfg w) (k : Nat) :
    TaskApi.confirm_task (share cfg actor.tenant_id w) actor k =
      ((TaskApi.confirm_task w actor k).1, share cfg actor.tenant_id (TaskApi.confirm_task w actor k).2) := by
  refine writes_own (confirm_writes h) ?_
  have hdb : (share cfg actor.tenant_id w).base.db =
    slice (mine actor.tenant_id w.base.db) actor.tenant_id w.base.db := rfl
  have hcheck : Tasks.confirm_check (share cfg actor.tenant_id w).base.db actor k =
      Tasks.confirm_check w.base.db actor k := by
    simp only [Tasks.confirm_check, hdb, read_slice (h.owns _)]
  rw [hcheck]
  cases hc : Tasks.confirm_check w.base.db actor k with
  | error e => rfl
  | ok task =>
    obtain ⟨row, hread, _⟩ := bind_ok.mp hc
    simp only [Except.map, hdb, confirm_slice (h.owns _) (h.held hread).1.own]

theorem retry_writes (h : Good cfg w) (body : Control.Task → Body) : Writes actor w
    ((Tasks.readTask w.base.db actor k).map (fun task =>
      (body task, Tasks.retry_write w.base.db actor task))) := by
  intro body db he
  obtain ⟨task, hread, he⟩ := map_ok.mp he
  obtain ⟨rfl, rfl⟩ := Prod.mk.inj he
  obtain ⟨hheld, hid, _⟩ := h.held hread
  exact ⟨task.id, hid ▸ hheld, retry_touches actor task⟩

theorem retry_own (h : Good cfg w) (k : Nat) :
    TaskApi.retry_task (share cfg actor.tenant_id w) actor k =
      ((TaskApi.retry_task w actor k).1, share cfg actor.tenant_id (TaskApi.retry_task w actor k).2) := by
  refine writes_own (retry_writes h _) ?_
  have hdb : (share cfg actor.tenant_id w).base.db =
    slice (mine actor.tenant_id w.base.db) actor.tenant_id w.base.db := rfl
  simp only [hdb, read_slice (h.owns _), reset_slice (h.owns _)]
  cases hr : Tasks.readTask w.base.db actor k with
  | error e => rfl
  | ok task =>
    obtain ⟨hheld, hid, _⟩ := h.held hr
    have hown : mine actor.tenant_id w.base.db task.id = true := hid ▸ hheld.own
    simp only [Except.map, retry_slice (h.owns _) task hown]

/-- The response of `classify_task` in the world `w`. -/
def classified (env : Env) (w : World) (actor : CurrentActor) (k : Nat) :
    Except HTTPException (Body × Db) :=
  (Tasks.readTask w.base.db actor k).bind (fun task =>
    match w.base.dirs task.temp_dir with
    | none => .error ⟨422, "original.zip not found in task temp_dir"⟩
    | some dir =>
      match env.profile with
      | none => .error ⟨500, "Profile not found: " ++ env.classification_profile_path⟩
      | some profile =>
        (Tasks.classify_task env.cfg.py profile dir w.base.db actor k).map (fun db =>
          (.classified k (summaryOf db k), db)))

theorem classify_writes (h : Good cfg w) : Writes actor w (classified env w actor k) := by
  intro body db he
  obtain ⟨task, hread, he⟩ := bind_ok.mp he
  split at he
  · cases he
  · split at he
    · cases he
    · obtain ⟨db', hclassify, he⟩ := map_ok.mp he
      obtain ⟨rfl, rfl⟩ := Prod.mk.inj he
      exact ⟨k, (h.held hread).1, classify_touches hclassify⟩

theorem classify_own (h : Good env.cfg w) (k : Nat) :
    TaskApi.classify_task env (share env.cfg actor.tenant_id w) actor k =
      ((TaskApi.classify_task env w actor k).1,
        share env.cfg actor.tenant_id (TaskApi.classify_task env w actor k).2) := by
  have hwrites : Writes actor w (classified env w actor k) := classify_writes h
  refine writes_own hwrites ?_
  have hdb : (share env.cfg actor.tenant_id w).base.db =
    slice (mine actor.tenant_id w.base.db) actor.tenant_id w.base.db := rfl
  rw [hdb, read_slice (h.owns _)]
  cases hr : Tasks.readTask w.base.db actor k with
  | error e => rfl
  | ok task =>
    obtain ⟨hheld, _, hdir⟩ := h.held hr
    have hmine : OwnDir env.cfg (mine actor.tenant_id w.base.db) task.temp_dir :=
      hdir ▸ own_dir.mpr hheld.own
    have hdirs : (share env.cfg actor.tenant_id w).base.dirs task.temp_dir = w.base.dirs task.temp_dir :=
      restrict_at hmine
    simp only [Except.bind, hdirs]
    cases w.base.dirs task.temp_dir with
    | none => rfl
    | some dir =>
      cases env.profile with
      | none => rfl
      | some profile =>
        simp only [classify_slice (h.owns _)]
        cases Tasks.classify_task env.cfg.py profile dir w.base.db actor k with
        | error e => rfl
        | ok db => simp only [Except.map, summaryOf, get_any, hheld.own, if_true]

theorem upload_world (env : Env) (w : World) (actor : CurrentActor) (k : Nat) (failure : Option Failure) :
    (TaskApi.upload_task env w actor k failure).2 =
      (UploadTask.upload_task env.cfg actor k failure (start w)).2.world := by
  unfold TaskApi.upload_task
  split <;> rename_i he <;> rw [he]

theorem upload_aside (h : Good cfg w) (actor : CurrentActor) (k : Nat) (tenant : String) (failure : Option Failure) :
    Aside cfg (next w) k (mine tenant w.base.db) tenant (sight cfg tenant w) unclaimed
      (UploadTask.upload_task cfg actor k failure (start w)).2 := by
  refine Ends.final upload_safe ⟨rfl, h.sound, h.sound, h.tidy, h.claims, ?_, fun _ => ⟨rfl, rfl⟩, rfl, rfl⟩
  exact fun _ he => nomatch he

theorem upload_serves (h : Good env.cfg w) (k : Nat) (failure : Option Failure) :
    Serves env.cfg w (TaskApi.upload_task env w actor k failure).2 := by
  rw [upload_world]
  have ha := upload_aside h actor k actor.tenant_id failure
  exact ⟨⟨ha.world.renew rfl, ha.tidy.renew ha.world.bound, ha.claims⟩, ha.world.bound,
    ha.tidy.tokens, ha.world.clock⟩

/-- Without a task to upload nothing is begun. -/
theorem upload_refused (h : Tasks.readTask w.base.db actor k = .error e) (failure : Option Failure) :
    (UploadTask.upload_task cfg actor k failure (start w)).2 = start w := by
  have hcheck : UploadTask.upload_check actor k (start w) = (.error (.http e), start w) := by
    simp only [UploadTask.upload_check, Call.ofExcept, start, Tasks.upload_check, h]
    rfl
  unfold UploadTask.upload_task
  rw [bind_error hcheck]

theorem upload_hidden (h : Good env.cfg w) (hne : tenant ≠ actor.tenant_id) (k : Nat)
    (failure : Option Failure) :
    sight env.cfg tenant (TaskApi.upload_task env w actor k failure).2 = sight env.cfg tenant w := by
  rw [upload_world]
  cases hr : Tasks.readTask w.base.db actor k with
  | error e => rw [upload_refused hr]; rfl
  | ok task =>
    have ha := upload_aside h actor k tenant failure
    unfold sight
    rw [ha.mine]
    exact (ha.hidden ((h.held hr).1.others tenant hne)).1

theorem upload_own (h : Good env.cfg w) (k : Nat) (failure : Option Failure) :
    TaskApi.upload_task env (share env.cfg actor.tenant_id w) actor k failure =
      ((TaskApi.upload_task env w actor k failure).1,
        share env.cfg actor.tenant_id (TaskApi.upload_task env w actor k failure).2) := by
  have howned : Owned env.cfg (mine actor.tenant_id w.base.db) actor.tenant_id (start w) :=
    ⟨h.owns _, h.owns _, h.sound.dirs, h.sound.dirs, (fun _ he => nomatch he), rfl, rfl⟩
  have hstays : Stays env.cfg (mine actor.tenant_id w.base.db) actor.tenant_id
    (UploadTask.upload_task env.cfg actor k failure) (fun _ => True) := upload_stays
  have heq := hstays.eq _ howned
  have hmine := (hstays.keeps _ howned).mine
  have hstart : start (share env.cfg actor.tenant_id w) =
    cutRequest env.cfg (mine actor.tenant_id w.base.db) actor.tenant_id (start w) := rfl
  unfold TaskApi.upload_task
  rw [hstart, heq]
  cases hu : UploadTask.upload_task env.cfg actor k failure (start w) with
  | mk result r =>
    rw [hu] at hmine
    cases result with
    | ok a => simp only [share, hmine, cutRequest]
    | error e => simp only [share, hmine, cutRequest]

end Handlers

section Create
variable {own : Nat → Bool} {db : Db}

/-- The tenant's tasks once the next one is its own. -/
def withNext (own : Nat → Bool) (db : Db) : Nat → Bool := Function.update own db.next_id true

theorem withNext_known (hk : k < db.next_id) : withNext own db k = own k :=
  Function.update_of_ne (Nat.ne_of_lt hk) _ _

theorem withNext_slice (h : Linked (keys db)) : slice (withNext own db) tenant db = slice own tenant db := by
  have htask : ∀ x ∈ db.tasks, withNext own db x.id = own x.id :=
    fun x hx => withNext_known (h.tasks _ (List.mem_map_of_mem hx))
  have hobject : ∀ o ∈ db.workspace_objects, withNext own db o.task_id = own o.task_id := by
    intro o ho
    obtain ⟨owner, hmem, _⟩ := (h.objects o ho).owned
    exact withNext_known (h.tasks _ hmem)
  simp only [slice]
  rw [List.filter_congr htask, List.filter_congr hobject]
  congr 1
  · exact List.filter_congr (fun i hi => withNext_known (h.items _ (List.mem_map_of_mem hi)).2)
  · exact List.filter_congr (fun e he => withNext_known (h.events _ (List.mem_map_of_mem he)))

/-- The tables with a new draft. -/
def drafted (settings : Settings) (db : Db) (actor : CurrentActor) (key text : String) : Db :=
  EventRepo.append
    { db with tasks := db.tasks ++ [Tasks.draftTask settings db actor key text],
              next_id := db.next_id + 1 } db.next_id (.task_created actor text)

theorem drafted_mine (settings : Settings) (key text : String) (tenant : String) :
    mine tenant (drafted settings db actor key text) =
      if tenant = actor.tenant_id then withNext (mine tenant db) db else mine tenant db := by
  funext k
  by_cases ht : tenant = actor.tenant_id
  · by_cases hk : k = db.next_id
    · simp [mine, ItemRepo.ownerAllows, drafted, EventRepo.append, Tasks.draftTask, withNext, ht, hk]
    · simp [mine, ItemRepo.ownerAllows, drafted, EventRepo.append, Tasks.draftTask, withNext, ht, hk,
        Ne.symm hk]
  · simp [mine, ItemRepo.ownerAllows, drafted, EventRepo.append, Tasks.draftTask, ht]

theorem drafted_slice (h : Linked (keys db)) (settings : Settings) (key text : String) :
    drafted settings (slice own tenant db) actor key text =
      slice (withNext own db) tenant (drafted settings db actor key text) := by
  have hnew : withNext own db db.next_id = true := Function.update_self _ _ _
  have hid : (Tasks.draftTask settings db actor key text).id = db.next_id := rfl
  have hrows : slice (withNext own db) tenant { db with
      tasks := db.tasks ++ [Tasks.draftTask settings db actor key text], next_id := db.next_id + 1 } =
        { slice (withNext own db) tenant db with
          tasks := (slice (withNext own db) tenant db).tasks ++ [Tasks.draftTask settings db actor key text]
          next_id := db.next_id + 1 } := by
    simp [slice, hid, hnew]
  unfold drafted
  rw [← append_slice hnew, hrows, withNext_slice h]
  rfl

theorem drafted_sound (h : Sound cfg n db) (key text : String) :
    Sound cfg n (drafted cfg.settings db actor key text) := by
  have hnew : Linked (keys { db with
      tasks := db.tasks ++ [Tasks.draftTask cfg.settings db actor key text]
      next_id := db.next_id + 1 }) := h.linked.create rfl
  refine ⟨hnew.append (Nat.lt_succ_self _) _, ?_, h.bound.trans (Nat.le_add_right _ 2), h.clock⟩
  exact Rows.append_all h.dirs rfl

def sliceOutcome (own : Nat → Bool) (tenant : String) : Tasks.CreateOutcome → Tasks.CreateOutcome
  | .existing task => .existing task
  | .created db task_id dir => .created (slice own tenant db) task_id dir

theorem create_slice (ho : Owns own actor.tenant_id db) (hl : Linked (keys db)) (py : Python)
    (settings : Settings) (key : String) (files : List (Text × Bytes)) (label : Option Text) :
    Tasks.create_task py settings (slice own actor.tenant_id db) actor key files label =
      (Tasks.create_task py settings db actor key files label).map
        (sliceOutcome (withNext own db) actor.tenant_id) := by
  unfold Tasks.create_task
  rw [key_slice ho]
  split
  · split
    · rfl
    · cases FolderUpload._prepare_folder_upload py settings.limits (files.filter (fun u => u.1 ≠ []))
        label with
      | error e => rfl
      | ok prepared =>
        simp only [Except.bind]
        cases FolderUpload._extract_internal_archive settings.limits prepared.archive with
        | error e => rfl
        | ok extracted =>
          have hdraft : drafted settings (slice own actor.tenant_id db) actor key
              (String.ofList prepared.label) = slice (withNext own db) actor.tenant_id
                (drafted settings db actor key (String.ofList prepared.label)) :=
            drafted_slice hl settings key _
          exact congrArg (fun db' => Except.ok (Tasks.CreateOutcome.created db' db.next_id
            (FolderUpload.taskDir py prepared.archive extracted))) hdraft
  · rfl

/-- The world with a new draft and its directory. -/
def draftedWorld (cfg : Config) (w : World) (actor : CurrentActor) (key text : String) (dir : TaskDir) :
    World :=
  { w with base := { w.base with
    db := drafted cfg.settings w.base.db actor key text
    dirs := Function.update w.base.dirs (dirOf cfg w.base.db.next_id) (some dir) } }

theorem create_world (env : Env) (w : World) (actor : CurrentActor) (key : String)
    (files : List (Text × Bytes)) (label : Option Text) :
    (TaskApi.create_task env w actor key files label).2 = w ∨
      ∃ text dir, (TaskApi.create_task env w actor key files label).2 =
        draftedWorld env.cfg w actor key text dir := by
  unfold TaskApi.create_task
  split
  · exact .inl rfl
  · exact .inl rfl
  · rename_i db task_id dir hc
    obtain ⟨text, rfl, rfl⟩ := Effects.create_spec hc
    exact .inr ⟨text, dir, rfl⟩

theorem draft_serves (h : Good cfg w) (key text : String) (dir : TaskDir) :
    Serves cfg w (draftedWorld cfg w actor key text dir) := by
  have hs : Sound cfg (next w) (drafted cfg.settings w.base.db actor key text) :=
    drafted_sound h.sound key text
  have ht : Tidy (next w) (draftedWorld cfg w actor key text dir) :=
    ⟨h.tidy.messages, h.tidy.trace, h.tidy.topic, h.tidy.staging, h.tidy.outbox, h.tidy.tokens⟩
  exact ⟨⟨hs.renew rfl, ht.renew hs.bound, h.claims⟩, hs.bound, Nat.le_refl _, hs.clock⟩

theorem Good.unused (h : Good cfg w) (tenant : String) : mine tenant w.base.db w.base.db.next_id = false := by
  refine Bool.eq_false_iff.mpr (fun hmine => ?_)
  obtain ⟨x, hx, hid, _⟩ := mine_iff.mp hmine
  have hlt : x.id < w.base.db.next_id := h.sound.linked.tasks _ (List.mem_map_of_mem hx)
  omega

theorem draft_hidden (h : Good cfg w) (hne : tenant ≠ actor.tenant_id) (key text : String)
    (dir : TaskDir) :
    sight cfg tenant (draftedWorld cfg w actor key text dir) = sight cfg tenant w := by
  have hdb : (draftedWorld cfg w actor key text dir).base.db =
    drafted cfg.settings w.base.db actor key text := rfl
  have hunused := h.unused tenant
  have hdir : ¬OwnDir cfg (mine tenant w.base.db) (dirOf cfg w.base.db.next_id) := by
    rw [own_dir, hunused]
    decide
  have hsee : see (mine tenant w.base.db) tenant (drafted cfg.settings w.base.db actor key text) =
      see (mine tenant w.base.db) tenant w.base.db := by
    refine (append_hidden hunused _).trans ?_
    simp [see, slice, Tasks.draftTask, hunused]
  simp only [sight, hdb, drafted_mine, if_neg hne, view, hsee]
  simp only [cut, draftedWorld, restrict_update hdir]

/-- Beside the tables there is nothing about the next task yet, but for its directory. -/
theorem withNext_cut (h : Good cfg w) (tenant : String) :
    cut cfg (withNext own w.base.db) tenant w =
      { cut cfg own tenant w with base := { (cut cfg own tenant w).base with
        dirs := restrict (OwnDir cfg (withNext own w.base.db)) w.base.dirs } } := by
  have hstaging : restrict (OwnKey (withNext own w.base.db)) w.base.staging =
      restrict (OwnKey own) w.base.staging := by
    refine restrict_congr (fun x hx => ?_)
    obtain ⟨k, hk, he⟩ := h.tidy.staging x hx
    rw [show x = (x.1, Staging.stagingKey k) from Prod.ext rfl he, own_key, own_key, withNext_known hk]
  have houtbox : restrict (OwnFile (withNext own w.base.db)) w.outbox = restrict (OwnFile own) w.outbox := by
    refine restrict_congr (fun name hname => ?_)
    obtain ⟨k, hk, rfl⟩ := h.tidy.outbox name hname
    rw [own_file, own_file, withNext_known hk]
  have hknown : ∀ k < w.base.db.next_id, withNext own w.base.db k = own k :=
    fun _ hk => withNext_known hk
  simp only [cut, withNext_slice h.sound.linked, hstaging, houtbox]
  rw [List.filter_congr (fun m hm => hknown _ (h.tidy.messages m hm)),
    List.filter_congr (fun m hm => hknown _ (h.tidy.trace m hm)),
    List.filter_congr (fun m hm => hknown _ (h.tidy.topic m hm))]

theorem draft_own (h : Good cfg w) (key text : String) (dir : TaskDir) :
    draftedWorld cfg (share cfg actor.tenant_id w) actor key text dir =
      share cfg actor.tenant_id (draftedWorld cfg w actor key text dir) := by
  have hmine : mine actor.tenant_id (draftedWorld cfg w actor key text dir).base.db =
      withNext (mine actor.tenant_id w.base.db) w.base.db :=
    (drafted_mine cfg.settings key text actor.tenant_id).trans (if_pos rfl)
  have hnext : OwnDir cfg (withNext (mine actor.tenant_id w.base.db) w.base.db)
      (dirOf cfg w.base.db.next_id) := own_dir.mpr (Function.update_self _ _ _)
  have hother : ∀ j, j ≠ dirOf cfg w.base.db.next_id → (OwnDir cfg (mine actor.tenant_id w.base.db) j ↔
      OwnDir cfg (withNext (mine actor.tenant_id w.base.db) w.base.db) j) := by
    intro j hj
    have hmore : ∀ k, j = dirOf cfg k → (mine actor.tenant_id w.base.db k = true ↔
        withNext (mine actor.tenant_id w.base.db) w.base.db k = true) := by
      rintro k rfl
      rw [withNext, Function.update_of_ne (fun hk => hj (congrArg (dirOf cfg) hk))]
    exact exists_congr (fun k => and_congr_left (hmore k))
  have hdirs : Function.update (restrict (OwnDir cfg (mine actor.tenant_id w.base.db)) w.base.dirs)
      (dirOf cfg w.base.db.next_id) (some dir) = restrict (OwnDir cfg (withNext (mine actor.tenant_id
        w.base.db) w.base.db)) (Function.update w.base.dirs (dirOf cfg w.base.db.next_id) (some dir)) :=
    update_restrict_more hnext hother (some dir)
  have hcut : cut cfg (withNext (mine actor.tenant_id w.base.db) w.base.db) actor.tenant_id
      (draftedWorld cfg w actor key text dir) =
        { cut cfg (withNext (mine actor.tenant_id w.base.db) w.base.db) actor.tenant_id w with
          base := { (cut cfg (withNext (mine actor.tenant_id w.base.db) w.base.db) actor.tenant_id w).base with
            db := slice (withNext (mine actor.tenant_id w.base.db) w.base.db) actor.tenant_id
              (drafted cfg.settings w.base.db actor key text)
            dirs := restrict (OwnDir cfg (withNext (mine actor.tenant_id w.base.db) w.base.db))
              (Function.update w.base.dirs (dirOf cfg w.base.db.next_id) (some dir)) } } := rfl
  unfold share
  rw [hmine, hcut, withNext_cut h, ← drafted_slice h.sound.linked, ← hdirs]
  rfl

theorem create_own (h : Good env.cfg w) (key : String) (files : List (Text × Bytes))
    (label : Option Text) :
    TaskApi.create_task env (share env.cfg actor.tenant_id w) actor key files label =
      ((TaskApi.create_task env w actor key files label).1,
        share env.cfg actor.tenant_id (TaskApi.create_task env w actor key files label).2) := by
  have hdb : (share env.cfg actor.tenant_id w).base.db =
    slice (mine actor.tenant_id w.base.db) actor.tenant_id w.base.db := rfl
  unfold TaskApi.create_task
  rw [hdb, create_slice (h.owns _) h.sound.linked]
  cases hc : Tasks.create_task env.cfg.py env.cfg.settings w.base.db actor key files label with
  | error e => rfl
  | ok outcome =>
    cases outcome with
    | existing task => rfl
    | created db task_id dir =>
      obtain ⟨text, rfl, rfl⟩ := Effects.create_spec hc
      refine Prod.ext rfl ?_
      refine Eq.trans ?_ (draft_own h key text dir)
      simp only [draftedWorld, hdb, drafted_slice h.sound.linked]
      rfl

end Create

end FileDelivery.Proofs.TenantRequests
