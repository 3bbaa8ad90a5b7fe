import FileDelivery.Bridge.Replay
import FileDelivery.Control.TaskViews
import FileDelivery.Proofs.PlatformTables
import Mathlib.Data.List.Chain
import Mathlib.Data.Prod.Lex

namespace FileDelivery.Proofs.TaskPages
open FileDelivery.Library FileDelivery.Library.Runs FileDelivery.Control FileDelivery.Bridge
open FileDelivery.Proofs.ApplyResult FileDelivery.Proofs.Effects FileDelivery.Proofs.Moves
open FileDelivery.Proofs.PlatformTables FileDelivery.Proofs.RunMoves

/-- A task without the columns that its lifecycle writes. -/
def core (task : Task) : Task :=
  { task with status := .draft, summary_json := none, confirmed_at := none, finished_at := none }

def cores (db : Db) : List Task := db.tasks.map core

theorem update_status_cores (db : Db) (k : Nat) (st : TaskStatus) (ten : Option String)
    (c f : Option Time) : cores (TaskRepo.update_status db k st ten c f) = cores db := by
  unfold TaskRepo.update_status
  split
  · rfl
  · exact Rows.update_map core (fun _ => rfl)

theorem written_cores (db : Db) (r : WriteRequest) : cores (writeDb db r) = cores db := by
  unfold writeDb
  split
  · exact update_status_cores _ _ _ _ _ _
  · unfold Tasks.retry_write
    simp only
    split
    · exact Rows.update_map core (fun _ => rfl)
    · rfl

theorem classify_cores (h : Tasks.classify_task py profile dir db actor t = .ok db') :
    cores db' = cores db := by
  obtain ⟨_, items, summary, inserted, _, _, _, hinsert, rfl⟩ := classify_spec h
  obtain ⟨rows, _, _, _, rfl⟩ := insert_spec hinsert (by simp [Tasks.itemRow])
  refine (update_status_cores _ _ _ _ _ _).trans ?_
  exact Rows.update_map core (fun _ => rfl)

theorem result_cores (bucket : Text) (db : Db) (m : DeliveryResultMessage) :
    cores (apply_delivery_result bucket db m).1 = cores db := by
  rw [cores, apply_tasks]
  exact Rows.update_map core (fun _ => rfl)

theorem run_cores (hm : RunMove db run action db' next) : cores db' = cores db := by
  cases hm with
  | started => exact update_status_cores _ _ _ _ _ _
  | completed => exact update_status_cores _ _ _ _ _ _
  | finalized => exact update_status_cores _ _ _ _ _ _
  | failed => exact update_status_cores _ _ _ _ _ _
  | item c db' stage hc hitem =>
    rcases (item_moves hitem).2 with ⟨st, e, at', rfl, _⟩ | ⟨rfl, _⟩
    · rw [cores, (set_same db c.item st e at').1, cores]
    · rfl
  | _ => rfl

/-- A request adds at most one row, at the end. -/
theorem request_cores (h : Bridge.step cfg s action = some base) : cores s.db <+: cores base.db := by
  cases step_moves h with
  | created db t dir hcreate =>
    obtain ⟨text, rfl, rfl⟩ := create_spec hcreate
    exact (List.prefix_append _ _).map core
  | classified dir db hclassify => exact (classify_cores hclassify).symm ▸ List.prefix_refl _
  | wrote r hr => exact (written_cores s.db r).symm ▸ List.prefix_refl _
  | requested r u next hr hmove =>
    generalize r.stage = stage at hmove
    cases hmove with
    | committed =>
      exact (update_status_cores s.db r.task.id .queued (some r.actor.tenant_id) none none).symm ▸
        List.prefix_refl _
    | _ => exact List.prefix_refl _
  | worked hmove => cases hmove <;> exact List.prefix_refl _
  | applied p hp => exact (result_cores _ s.db p.message).symm ▸ List.prefix_refl _
  | cleaned hmove =>
    cases hmove with
    | committed c hc =>
      simp only [cores, (appends_frame c.events s.db).1]
      exact List.prefix_refl _
    | _ => exact List.prefix_refl _
  | _ => exact List.prefix_refl _

theorem step_cores (h : Platform.step cfg s a = some t) : cores s.base.db <+: cores t.base.db := by
  cases platform_moves h with
  | requested base hb => exact request_cores hb
  | scheduled r _ _ hdb =>
    rw [hdb]
    exact List.prefix_refl _
  | advanced run next _ _ hm _ => exact (run_cores hm).symm ▸ List.prefix_refl _
  | delivered => exact (result_cores _ s.base.db _).symm ▸ List.prefix_refl _

/-- No task goes away or moves, and what it was created with stays. -/
theorem run_grows (h : Run (Platform.step cfg) ok s t) : cores s.base.db <+: cores t.base.db :=
  h.invariant (fun t => cores s.base.db <+: cores t.base.db) (List.prefix_refl _)
    (fun _ _ _ hi _ hs => hi.trans (step_cores hs))

/-- The order of the listing, by columns that rows keep. -/
def sortKey (task : Task) : OrderDual (Lex (Time × Nat)) := OrderDual.toDual (toLex (task.created_at, task.id))

theorem recent_iff (a b : Task) : TaskRepo.recentOrder a b ↔ sortKey a ≤ sortKey b := by
  simp only [TaskRepo.recentOrder, sortKey, OrderDual.toDual_le_toDual, Prod.Lex.toLex_le_toLex]

/-- The ids of the tenant's tasks, most recent first. -/
def listedIds (actor : CurrentActor) (s : Platform.State) : List Nat :=
  (TaskRepo.listed s.base.db (some actor.tenant_id)).map Task.id

theorem listed_grows (h : Run (Platform.step cfg) ok s t) (actor : CurrentActor) :
    (listedIds actor s).Sublist (listedIds actor t) := by
  let own : Task → Bool := fun x => tenantAllows (some actor.tenant_id) x.owner_tenant_id
  have hown : ∀ db : Db, (db.tasks.filter own).map sortKey = ((cores db).filter own).map sortKey := by
    intro db
    rw [cores, List.filter_map, List.map_map]
    rfl
  have hkeys : ((s.base.db.tasks.filter own).map sortKey).Sublist
      ((t.base.db.tasks.filter own).map sortKey) := by
    rw [hown, hown]
    exact ((run_grows h).sublist.filter own).map sortKey
  have hids := (Paging.ordered_sublist sortKey recent_iff hkeys).map
    (fun k => (ofLex (OrderDual.ofDual k)).2)
  rw [List.map_map, List.map_map] at hids
  exact hids

/-- A client that reads page after page, each of its requests served in a later state. -/
def taskPages (actor : CurrentActor) (limit : Nat) : Nat → List Platform.State → List (List Tasks.TaskDict)
  | _, [] => []
  | offset, s :: later =>
    Tasks.list_tasks s.base.db actor limit offset :: taskPages actor limit (offset + limit) later

theorem page_ids (actor : CurrentActor) (limit offset : Nat) (states : List Platform.State) :
    (taskPages actor limit offset states).map (·.map (·.task_id)) =
      (Paging.pages limit offset (states.map (listedIds actor))).map (·.map idText) := by
  induction states generalizing offset with
  | nil => rfl
  | cons s states ih =>
    simp only [taskPages, List.map_cons, Paging.pages, ih]
    refine congrArg (· :: _) ?_
    simp only [Tasks.list_tasks, TaskRepo.list, listedIds, Paging.window, List.map_map, ← List.map_take,
      ← List.map_drop]
    rfl

theorem mem_listed (actor : CurrentActor) :
    k ∈ listedIds actor s ↔ ∃ x ∈ s.base.db.tasks, x.owner_tenant_id = actor.tenant_id ∧ x.id = k := by
  simp only [listedIds, TaskRepo.listed, List.mem_map, List.mem_insertionSort, List.mem_filter,
    tenantAllows, beq_iff_eq, and_assoc, eq_comm (a := actor.tenant_id)]

/-- The requests of a reader, each served in a state that the one before may lead to. -/
def Walk (cfg : Config) (states : List Platform.State) : Prop :=
  states.IsChain (Run (Platform.step cfg) Free)

theorem walk_chain (h : Walk cfg states) (actor : CurrentActor) :
    (states.map (listedIds actor)).IsChain List.Sublist :=
  (List.isChain_map _).mpr (h.imp (fun _ _ hr => listed_grows hr actor))

/-- The last page that the reader has seen is not full. -/
def Ended (actor : CurrentActor) (limit : Nat) (states : List Platform.State) : Prop :=
  ∀ page ∈ (taskPages actor limit 0 states).getLast?, page.length < limit

theorem ended_short (h : Ended actor limit states) :
    ∀ ids ∈ (Paging.pages limit 0 (states.map (listedIds actor))).getLast?, ids.length < limit := by
  have hlast := congrArg (fun pages => pages.getLast?.map List.length) (page_ids actor limit 0 states)
  simp only [List.getLast?_map, Option.map_map, Function.comp_def, List.length_map] at hlast
  intro ids hids
  have hlen : ids.length ∈ (taskPages actor limit 0 states).getLast?.map List.length :=
    hlast ▸ Option.mem_map_of_mem List.length hids
  obtain ⟨page, hpage, he⟩ := Option.mem_map.mp hlen
  exact he ▸ h page hpage

/-- What was there when the reader began is on one of the pages. -/
theorem walk_covers (h : Walk cfg (s :: later)) (hend : Ended actor limit (s :: later))
    (hid : k ∈ listedIds actor s) :
    ∃ page ∈ taskPages actor limit 0 (s :: later), ∃ dict ∈ page, dict.task_id = idText k := by
  obtain ⟨i, hi⟩ := List.getElem?_of_mem hid
  have hcover : k ∈ (Paging.pages limit 0 ((s :: later).map (listedIds actor))).flatten :=
    Paging.pages_cover (walk_chain h actor) hi (Nat.zero_le i) (ended_short hend)
  obtain ⟨ids, hpage, hmem⟩ := List.mem_flatten.mp hcover
  have hseen : ids.map idText ∈ (taskPages actor limit 0 (s :: later)).map (·.map (·.task_id)) :=
    page_ids actor limit 0 (s :: later) ▸ List.mem_map_of_mem hpage
  obtain ⟨page, hmem', he⟩ := List.mem_map.mp hseen
  have hdict : idText k ∈ page.map (·.task_id) := he ▸ List.mem_map_of_mem hmem
  exact ⟨page, hmem', List.mem_map.mp hdict⟩

/-- Where the listing stays, the pages are the listing, each task once. -/
theorem walk_still (hend : Ended actor limit (s :: later))
    (hsame : ∀ t ∈ later, listedIds actor t = listedIds actor s) :
    ((taskPages actor limit 0 (s :: later)).flatten.map (·.task_id)) =
      (listedIds actor s).map idText := by
  have hreads : (s :: later).map (listedIds actor) =
      List.replicate (later.length + 1) (listedIds actor s) := by
    rw [List.eq_replicate_iff]
    exact ⟨by simp, by simpa using hsame⟩
  have hids := congrArg List.flatten (page_ids actor limit 0 (s :: later))
  rw [← List.map_flatten, ← List.map_flatten, hreads, Paging.pages_still] at hids
  rw [hids, Paging.window, List.drop_zero, List.take_of_length_le]
  have hshort := ended_short hend
  rw [hreads] at hshort
  exact Paging.short_end hshort

theorem listed_nodup (h : Run (Platform.step cfg) ok Platform.initial s) (actor : CurrentActor) :
    (listedIds actor s).Nodup := by
  have hids := (reachable_wellformed h).task_ids
  have hperm := (List.perm_insertionSort TaskRepo.recentOrder (s.base.db.tasks.filter (fun x =>
    tenantAllows (some actor.tenant_id) x.owner_tenant_id))).map Task.id
  exact hperm.nodup_iff.mpr (hids.sublist (List.filter_sublist.map Task.id))

/-- Where the tenant creates no task meanwhile, its listing stays. -/
theorem listing_stays (hs : Run (Platform.step cfg) Free Platform.initial s)
    (h : Run (Platform.step cfg) Free s t) (actor : CurrentActor)
    (hnew : ∀ k ∈ listedIds actor t, k ∈ listedIds actor s) : listedIds actor t = listedIds actor s := by
  have hlen := (List.subperm_of_subset (listed_nodup (hs.trans h) actor) hnew).length_le
  exact ((listed_grows h actor).eq_of_length_le hlen).symm

theorem walk_runs (h : Walk cfg (s :: later)) (ht : t ∈ later) : Run (Platform.step cfg) Free s t := by
  have : IsTrans Platform.State (Run (Platform.step cfg) Free) := ⟨fun _ _ _ => Run.trans⟩
  exact List.rel_of_pairwise_cons (List.isChain_iff_pairwise.mp h) ht

/-- A client reads its listing page after page while everybody goes on working, and stops at the
first page that is not full. It has then seen every task that its tenant had when it began, and
where the tenant has created none since, the pages are its listing, each task once. -/
theorem pages_complete (hs : Run (Platform.step cfg) Free Platform.initial s)
    (h : Walk cfg (s :: later)) (hend : Ended actor limit (s :: later)) :
    (∀ task ∈ s.base.db.tasks, task.owner_tenant_id = actor.tenant_id →
      ∃ page ∈ taskPages actor limit 0 (s :: later), ∃ dict ∈ page, dict.task_id = idText task.id) ∧
    ((∀ t ∈ later, ∀ k ∈ listedIds actor t, k ∈ listedIds actor s) →
      (taskPages actor limit 0 (s :: later)).flatten.map (·.task_id) =
        (listedIds actor s).map idText) := by
  refine ⟨fun task hx howner => ?_, fun hnew => ?_⟩
  · exact walk_covers h hend ((mem_listed actor).mpr ⟨task, hx, howner, rfl⟩)
  · exact walk_still hend (fun t ht => listing_stays hs (walk_runs h ht) actor (hnew t ht))

instance (actor : CurrentActor) (limit : Nat) (states : List Platform.State) :
    Decidable (Ended actor limit states) :=
  inferInstanceAs (Decidable (∀ page ∈ (taskPages actor limit 0 states).getLast?, page.length < limit))

def creates (key : String) : Platform.Action :=
  .request (.create Sample.actor key [("acme/a.txt".toList, [1])] none)

/-- A task is created between the first page and the second. -/
theorem pages_complete_shifted : ∃ s t, Run (Platform.step Sample.cfg) Free Platform.initial s ∧
    Run (Platform.step Sample.cfg) Free s t ∧ listedIds Sample.actor s = [2, 0] ∧
    ∀ task ∈ s.base.db.tasks, task.owner_tenant_id = "hq" →
      ∃ page ∈ taskPages Sample.actor 2 0 [s, t], ∃ dict ∈ page, dict.task_id = idText task.id := by
  obtain ⟨s, hs, hids, hp⟩ := replay_reaches (Platform.step Sample.cfg) Free
    (p := fun s => listedIds Sample.actor s = [2, 0] ∧
      (replay (Platform.step Sample.cfg) Free s [creates "c"]).any
        (fun t => decide (Ended Sample.actor 2 [s, t])) = true)
    Platform.initial [creates "a", creates "b"] (by decide +kernel)
  obtain ⟨t, ht, hend⟩ := replay_reaches (Platform.step Sample.cfg) Free s [creates "c"] hp
  have hwalk : Walk Sample.cfg [s, t] := .cons_cons ht (.singleton t)
  exact ⟨s, t, hs, ht, hids, (pages_complete hs hwalk hend).1⟩

end FileDelivery.Proofs.TaskPages
