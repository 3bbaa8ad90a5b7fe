import FileDelivery.Bridge.Replay
import FileDelivery.Proofs.TenantRequests

namespace FileDelivery.Proofs.TenantIsolation
open FileDelivery.Library FileDelivery.Library.Interference FileDelivery.Control FileDelivery.Bridge
open FileDelivery.Bridge.UploadTask FileDelivery.Bridge.TaskApi
open FileDelivery.Proofs.TenantSlice FileDelivery.Proofs.TenantResults FileDelivery.Proofs.TenantWorld
open FileDelivery.Proofs.TenantUpload FileDelivery.Proofs.TenantHandlers FileDelivery.Proofs.TenantRequests

variable {env : Env} {cfg : Config} {tenant : String} {w : World} {actor : CurrentActor}

theorem handle_serves (h : Good env.cfg w) (actor : CurrentActor) (request : TaskApi.Request) :
    Serves env.cfg w (handle env w actor request).2 := by
  cases request with
  | create_task key uuid files label =>
    rcases create_world env w actor ((key.filter (· ≠ "")).getD uuid) files label with hw | ⟨text, dir, hw⟩
    · simpa only [handle, hw] using h.stays
    · simpa only [handle, hw] using draft_serves h _ text dir
  | classify_task k => exact writes_serves h (classify_writes h)
  | confirm_task k => exact writes_serves h (confirm_writes h)
  | upload_task k failure => exact upload_serves h k failure
  | retry_task k => exact writes_serves h (retry_writes h _)
  | preview_task | get_task | list_tasks => exact h.stays

/-- A request of one tenant shows in no other tenant's part of the world. -/
theorem handle_hidden (h : Good env.cfg w) (hne : tenant ≠ actor.tenant_id) (request : TaskApi.Request) :
    sight env.cfg tenant (handle env w actor request).2 = sight env.cfg tenant w := by
  cases request with
  | create_task key uuid files label =>
    rcases create_world env w actor ((key.filter (· ≠ "")).getD uuid) files label with hw | ⟨text, dir, hw⟩
    · simp only [handle, hw]
    · simpa only [handle, hw] using draft_hidden h hne _ text dir
  | classify_task k => exact writes_hidden (classify_writes h) hne
  | confirm_task k => exact writes_hidden (confirm_writes h) hne
  | upload_task k failure => exact upload_hidden h hne k failure
  | retry_task k => exact writes_hidden (retry_writes h _) hne
  | preview_task | get_task | list_tasks => rfl

/-- A request of a tenant is served from its part of the world alone. -/
theorem handle_own (h : Good env.cfg w) (actor : CurrentActor) (request : TaskApi.Request) :
    handle env (share env.cfg actor.tenant_id w) actor request =
      ((handle env w actor request).1, share env.cfg actor.tenant_id (handle env w actor request).2) := by
  have hdb : (share env.cfg actor.tenant_id w).base.db =
    slice (mine actor.tenant_id w.base.db) actor.tenant_id w.base.db := rfl
  cases request with
  | create_task key uuid files label => exact create_own h _ files label
  | classify_task k => exact classify_own h k
  | confirm_task k => exact confirm_own h k
  | upload_task k failure => exact upload_own h k failure
  | retry_task k => exact retry_own h k
  | preview_task k => simp only [handle, reads, hdb, preview_slice (h.owns _)]
  | get_task k => simp only [handle, reads, hdb, get_task_slice (h.owns _)]
  | list_tasks limit offset => simp only [handle, reads, hdb, list_tasks_slice (h.owns _)]

section Results
variable {message : DeliveryResultMessage} {bucket : Text} {db : Db}

theorem apply_frame (bucket : Text) (db : Db) (message : DeliveryResultMessage) :
    (apply_delivery_result bucket db message).1.now = db.now ∧
      db.next_id ≤ (apply_delivery_result bucket db message).1.next_id := by
  cases hg : TaskRepo.get db message.task_id none with
  | none =>
    rw [ApplyResult.apply_missing hg]
    exact ⟨rfl, Nat.le_refl _⟩
  | some task =>
    have hloop := ApplyResult.apply_loop_frame bucket task message ⟨db, 0, [], 0, []⟩ message.items
    obtain ⟨_, _, _, _, hnow, _⟩ := ApplyResult.finish_same task message
      (message.items.foldl (apply_item bucket task message) ⟨db, 0, [], 0, []⟩)
    refine ⟨?_, Nat.le_of_lt (ApplyResult.apply_next hg)⟩
    simp only [apply_delivery_result, hg]
    exact hnow.trans hloop.now

theorem apply_mine (tenant : String) :
    mine tenant (apply_delivery_result bucket db message).1 = mine tenant db := by
  refine mine_keys ?_ tenant
  simp only [keys, ApplyResult.apply_tasks]
  exact Rows.update_map (fun x : Control.Task => (x.id, x.owner_tenant_id)) (fun _ => rfl)

theorem apply_serves (h : Good cfg w) (bucket : Text) (message : DeliveryResultMessage) :
    Serves cfg w (setDb w (apply_delivery_result bucket w.base.db message).1) := by
  obtain ⟨hnow, hnext⟩ := apply_frame bucket w.base.db message
  refine h.write ⟨apply_linked h.sound.linked bucket message, fun x hx => ?_, hnext, hnow.ge⟩
  rw [ApplyResult.apply_tasks] at hx
  obtain ⟨y, hy, he⟩ := Rows.mem_update.mp hx
  split at he
  · exact he ▸ h.sound.dirs y hy
  · exact he ▸ h.sound.dirs y hy

end Results

/-- The world with a new workspace. -/
def workspaceDb (db : Db) (name owner target : String) (key : Text) : Db :=
  { db with workspaces := db.workspaces ++ [⟨db.next_id, name, owner, target, key, db.now⟩]
            next_id := db.next_id + 1 }

theorem workspace_serves (h : Good cfg w) (name owner target : String) (key : Text) :
    Serves cfg w (setDb w (workspaceDb w.base.db name owner target key)) :=
  h.write ⟨h.sound.linked.workspace rfl, h.sound.dirs, Nat.le_succ _, Nat.le_refl _⟩

theorem perform_serves (h : Good env.cfg w) (action : TaskApi.Action) :
    Serves env.cfg w (perform env w action).2 := by
  cases action with
  | request headers request =>
    simp only [perform, serve]
    split
    · exact h.stays
    · exact handle_serves h _ request
  | deliver message => exact apply_serves h _ message
  | workspace name owner target key => exact workspace_serves h name owner target key

theorem perform_hidden (h : Good env.cfg w) (action : TaskApi.Action)
    (hne : tenantOf env w action ≠ some tenant) :
    sight env.cfg tenant (perform env w action).2 = sight env.cfg tenant w := by
  cases action with
  | request headers request =>
    simp only [perform, serve]
    simp only [tenantOf] at hne
    split
    · rfl
    · rename_i actor hactor
      rw [hactor] at hne
      exact handle_hidden h (fun he => hne (congrArg some he.symm)) request
  | deliver message =>
    have howner : ∀ task, TaskRepo.get w.base.db message.task_id none = some task →
        task.owner_tenant_id ≠ tenant := by
      intro task hg he
      exact hne (by simp [tenantOf, hg, he])
    exact sight_setDb (apply_mine tenant) (apply_hidden (h.owns tenant) h.sound.linked howner _)
  | workspace name owner target key =>
    have howner : owner ≠ tenant := fun he => hne (congrArg some he)
    refine sight_setDb (w := w) (mine_keys rfl tenant) ?_
    simp [see, slice, howner]

/-- What the tenant does is done to its part of the world. -/
theorem perform_own (h : Good env.cfg w) (action : TaskApi.Action) (hmine : tenantOf env w action = some tenant) :
    perform env (share env.cfg tenant w) action =
      ((perform env w action).1, share env.cfg tenant (perform env w action).2) := by
  have hdb : (share env.cfg tenant w).base.db = slice (mine tenant w.base.db) tenant w.base.db := rfl
  cases action with
  | request headers request =>
    simp only [tenantOf] at hmine
    split at hmine
    · rename_i actor hactor
      cases hmine
      simp only [perform, serve, hactor, handle_own h]
    · cases hmine
  | deliver message =>
    obtain ⟨task, hg, howner⟩ := Option.map_eq_some_iff.mp hmine
    have hfind := ApplyResult.get_find hg
    have hown : mine tenant w.base.db message.task_id = true :=
      mine_iff.mpr ⟨task, Rows.find_mem hfind, Rows.find_key hfind, howner⟩
    refine Prod.ext rfl ?_
    refine Eq.trans ?_ (share_setDb (apply_mine tenant)).symm
    simp only [perform, hdb, apply_slice (h.owns tenant) h.sound.linked hown]
  | workspace name owner target key =>
    have howner : owner = tenant := Option.some.inj hmine
    have hshare : share env.cfg tenant (setDb w (workspaceDb w.base.db name owner target key)) =
        setDb (share env.cfg tenant w) (slice (mine tenant w.base.db) tenant
          (workspaceDb w.base.db name owner target key)) := share_setDb (mine_keys rfl tenant)
    refine Prod.ext rfl (Eq.trans ?_ hshare.symm)
    simp [perform, hdb, workspaceDb, slice, howner]

section Events
variable {e : Event} {s u t : World}

theorem step_spec (h : TaskApi.step env s e = some (t, o)) :
    (next s).Before ⟨e.id, e.token, e.now⟩ ∧ perform env (arrive s e) e.action = (o, t) := by
  unfold TaskApi.step at h
  split at h
  · rename_i hguard
    obtain ⟨rfl, rfl⟩ := Prod.mk.inj (Option.some.inj h)
    exact ⟨hguard, rfl⟩
  · cases h

/-- Two worlds that show the same to a tenant, where the second has drawn no more. -/
structure Alike (cfg : Config) (tenant : String) (s u : World) : Prop where
  sight : sight cfg tenant s = sight cfg tenant u
  drawn : (next u).Before (next s)

/-- The tenant's part of the world, as an event finds it, is what it sees. -/
theorem share_arrive (h : Good cfg w) (e : Event) : share cfg tenant (arrive w e) =
    { arrive (TenantRequests.sight cfg tenant w) e with base := {
      (arrive (TenantRequests.sight cfg tenant w) e).base with claims := unclaimed } } := by
  rw [← h.claims]
  rfl

theorem tenant_alike (h : sight cfg tenant s = sight cfg tenant u) {action : TaskApi.Action}
    (hs : tenantOf env s action = some tenant) : tenantOf env u action = some tenant := by
  cases action with
  | request headers request => exact hs
  | workspace name owner target key => exact hs
  | deliver message =>
    obtain ⟨task, hg, howner⟩ := Option.map_eq_some_iff.mp hs
    have hfind := ApplyResult.get_find hg
    have hown : mine tenant s.base.db message.task_id = true :=
      mine_iff.mpr ⟨task, Rows.find_mem hfind, Rows.find_key hfind, howner⟩
    have htasks : (slice (mine tenant s.base.db) tenant s.base.db).tasks =
        (slice (mine tenant u.base.db) tenant u.base.db).tasks := congrArg (fun w => w.base.db.tasks) h
    have hs : TaskRepo.get (slice (mine tenant s.base.db) tenant s.base.db) message.task_id none =
        some task := by
      rw [get_any, if_pos hown, hg]
    have hu : TaskRepo.get (slice (mine tenant u.base.db) tenant u.base.db) message.task_id none =
        some task := by
      simpa only [TaskRepo.get, htasks] using hs
    rw [get_any] at hu
    split at hu
    · exact Option.map_eq_some_iff.mpr ⟨task, hu, howner⟩
    · cases hu

theorem tenantOf_arrive (action : TaskApi.Action) :
    tenantOf env (arrive w e) action = tenantOf env w action := by
  cases action <;> rfl

def isOf (env : Env) (tenant : String) (w : World) (e : Event) : Bool :=
  tenantOf env w e.action == some tenant

theorem separates (env : Env) (tenant : String) :
    Separates (TaskApi.step env) (isOf env tenant) (Good env.cfg) (Alike env.cfg tenant) where
  keeps := by
    intro s e t o h hstep
    obtain ⟨hguard, hperform⟩ := step_spec hstep
    have hserves := perform_serves (h.arrives hguard) e.action
    rw [hperform] at hserves
    exact hserves.good
  others := by
    intro s u e t o h hsu hmine hstep
    obtain ⟨hguard, hperform⟩ := step_spec hstep
    have harrive := h.arrives hguard
    have hother : tenantOf env (arrive s e) e.action ≠ some tenant := by
      rw [tenantOf_arrive]
      simpa [isOf] using hmine
    have hserves := perform_serves harrive e.action
    have hhidden := perform_hidden harrive e.action hother
    rw [hperform] at hserves hhidden
    refine ⟨?_, (hsu.drawn.trans hguard).trans hserves.later⟩
    exact hhidden.trans hsu.sight
  own := by
    intro s u e t o hs hu hsu hmine hstep
    obtain ⟨hguard, hperform⟩ := step_spec hstep
    have hguard' : (next u).Before ⟨e.id, e.token, e.now⟩ := hsu.drawn.trans hguard
    have hs' := hs.arrives hguard
    have hu' := hu.arrives hguard'
    have hshare : share env.cfg tenant (arrive s e) = share env.cfg tenant (arrive u e) := by
      rw [share_arrive hs, share_arrive hu, hsu.sight]
    have hof : tenantOf env s e.action = some tenant := by simpa [isOf] using hmine
    have hsown := perform_own hs' e.action ((tenantOf_arrive _).trans hof)
    have huown := perform_own hu' e.action
      ((tenantOf_arrive _).trans (tenant_alike hsu.sight hof))
    rw [hshare, huown, hperform] at hsown
    obtain ⟨hreply, hworld⟩ := Prod.mk.inj hsown
    change _ = o at hreply
    subst hreply
    refine ⟨(perform env (arrive u e) e.action).2, if_pos hguard', ?_, ?_⟩
    · exact congrArg (fun w => { w with base := { w.base with
        db := { w.base.db with next_id := 0, now := 0 }, next_request := 0,
        claims := fun _ => none } }) hworld.symm
    · have hnext := congrArg next hworld
      change next (perform env (arrive u e) e.action).2 = next t at hnext
      rw [hnext]
      exact ⟨Nat.le_refl _, Nat.le_refl _, Nat.le_refl _⟩

end Events

theorem initial_good (cfg : Config) : Good cfg TaskApi.initial := by
  refine ⟨⟨?_, ?_, Nat.le_refl _, Nat.le_refl _⟩, ?_, rfl⟩
  · constructor <;> simp [TaskApi.initial, Bridge.initial, keys]
  · simp [TaskApi.initial, Bridge.initial]
  · constructor <;> simp [TaskApi.initial, Bridge.initial, next]

/-- Leave out of a run all that other tenants ask for and all results of their tasks: the tenant
gets the same answers to its own requests, and everything of its own comes out the same. -/
theorem tenant_isolated (h : trace (TaskApi.step env) TaskApi.initial events = some (w, replies))
    (tenant : String) :
    ∃ v, trace (TaskApi.step env) TaskApi.initial
        ((purge (TaskApi.step env) (isOf env tenant) TaskApi.initial events).map (·.1)) =
          some (v, (purge (TaskApi.step env) (isOf env tenant) TaskApi.initial events).map (·.2)) ∧
      sight env.cfg tenant v = sight env.cfg tenant w := by
  have hgood := initial_good env.cfg
  have halike : Alike env.cfg tenant TaskApi.initial TaskApi.initial :=
    ⟨rfl, Nat.le_refl _, Nat.le_refl _, Nat.le_refl _⟩
  obtain ⟨v, htrace, hend⟩ := (separates env tenant).purged hgood hgood halike h
  exact ⟨v, htrace, hend.sight.symm⟩

def sampleEnv : Env := ⟨Sample.cfg, .default, "profile.toml", some Sample.profile⟩

def rival : Auth.Headers :=
  [("x-actor-tenant".toList, "rival".toList), ("x-actor-user".toList, "u2".toList),
    ("x-actor-role".toList, "hq_uploader".toList)]

/-- Two tenants at work; the other one asks for a task that is not its own. -/
def sampleEvents : List Event :=
  [⟨0, 0, 0, .request [] (.create_task (some "a") "" [("acme/report.txt".toList, [1])] none)⟩,
    ⟨2, 0, 0, .request rival (.create_task (some "a") "" [("acme/report.txt".toList, [2])] none)⟩,
    ⟨4, 0, 1, .request rival (.classify_task 0)⟩,
    ⟨5, 0, 1, .request rival (.classify_task 2)⟩,
    ⟨7, 0, 2, .request [] (.classify_task 0)⟩,
    ⟨9, 0, 2, .request [] (.list_tasks 10 0)⟩]

theorem tenant_isolated_two : ∃ w replies v,
    trace (TaskApi.step sampleEnv) TaskApi.initial sampleEvents = some (w, replies) ∧
      (purge (TaskApi.step sampleEnv) (isOf sampleEnv "hq") TaskApi.initial sampleEvents).map (·.1.id) =
        [0, 7, 9] ∧
      trace (TaskApi.step sampleEnv) TaskApi.initial
        ((purge (TaskApi.step sampleEnv) (isOf sampleEnv "hq") TaskApi.initial sampleEvents).map (·.1)) =
          some (v, (purge (TaskApi.step sampleEnv) (isOf sampleEnv "hq") TaskApi.initial
            sampleEvents).map (·.2)) ∧ sight Sample.cfg "hq" v = sight Sample.cfg "hq" w := by
  obtain ⟨⟨w, replies⟩, h⟩ := Option.isSome_iff_exists.mp
    (show (trace (TaskApi.step sampleEnv) TaskApi.initial sampleEvents).isSome = true by decide +kernel)
  obtain ⟨v, htrace, hsight⟩ := tenant_isolated h "hq"
  exact ⟨w, replies, v, h, by decide +kernel, htrace, hsight⟩

end FileDelivery.Proofs.TenantIsolation
