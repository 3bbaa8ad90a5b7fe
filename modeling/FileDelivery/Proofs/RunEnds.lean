import FileDelivery.Bridge.Replay
import FileDelivery.Bridge.RunSemaphores
import FileDelivery.Library.Endless
import FileDelivery.Proofs.PlatformTables
import FileDelivery.Proofs.RunnerRecovery
import FileDelivery.Proofs.SurplusRuns
import Mathlib.Data.Prod.Lex
import Mathlib.Order.Nat

namespace FileDelivery.Proofs.RunEnds
open FileDelivery.Library FileDelivery.Library.Endless FileDelivery.Library.Runs
open FileDelivery.Library.Semaphores FileDelivery.Control FileDelivery.Control.TaskRunner
open FileDelivery.Bridge FileDelivery.Bridge.RunSemaphores FileDelivery.Proofs.RunMoves

/-- Each step of an item takes it further down. -/
def itemRank : ItemStage → ℕ
  | .waiting => 6
  | .marked => 5
  | .stored => 4
  | .delivered => 3
  | .raised _ => 2
  | .reported => 1
  | .ended _ | .escaped => 0

def stageRank : RunStage → ℕ
  | .starting => 8
  | .checked => 7
  | .started => 6
  | .idle _ | .planned _ => 5
  | .working => 4
  | .finished => 3
  | .failing _ => 2
  | .ended => 1

/-- What an item has before it: permits and steps. -/
def cost (gates : Nat → Gate) (c : ItemRun) : ℕ := (gates c.item.id).wants + itemRank c.stage

def ahead (gates : Nat → Gate) (items : List ItemRun) : ℕ := (items.map (cost gates)).sum

/-- The stage counts first: listing the items puts any number of their steps ahead. -/
def rank (gates : Nat → Gate) (run : TaskRun) : ℕ ×ₗ ℕ := toLex (stageRank run.stage, ahead gates run.items)

theorem item_lowered (h : _upload_item db item stage action = some (db', stage')) :
    itemRank stage' < itemRank stage := by
  cases action <;> cases stage <;> cases h
  all_goals simp [itemRank]

variable {gates gates' : Nat → Gate} {items : List ItemRun} {item_id : Nat} {i : ItemRun}

/-- Nobody is set back, and someone gets further. -/
theorem ahead_lowered (f : ItemRun → ItemRun) (hle : ∀ c ∈ items, cost gates' (f c) ≤ cost gates c)
    (hi : i ∈ items) (hlt : cost gates' (f i) < cost gates i) : ahead gates' (items.map f) < ahead gates items := by
  rw [ahead, ahead, List.map_map]
  exact List.sum_lt_sum _ _ hle ⟨i, hi, hlt⟩

theorem step_lowered (hn : (items.map (·.item.id)).Nodup) (hi : Rows.find? items item_id = some i)
    (hlt : itemRank stage < itemRank i.stage) :
    ahead gates (Rows.update items item_id (fun i => { i with stage := stage })) < ahead gates items := by
  have hk : i.item.id = item_id := Rows.find_key hi
  refine ahead_lowered _ (fun c hc => ?_) (Rows.find_mem hi) (by simp [cost, hk, hlt])
  by_cases hc' : c.item.id = item_id
  · obtain rfl : c = i := Rows.eq_of_key hn hc (Rows.find_mem hi) (hc'.trans hk.symm)
    simp [cost, hk, hlt.le]
  · simp [cost, hc']

theorem entry_lowered (hi : i ∈ items) (hlt : (gates i.item.id).enter.wants < (gates i.item.id).wants) :
    ahead (Function.update gates i.item.id (gates i.item.id).enter) items < ahead gates items := by
  have hle : ∀ c ∈ items, cost (Function.update gates i.item.id (gates i.item.id).enter) (id c) ≤ cost gates c := by
    intro c _
    by_cases hc : c.item.id = i.item.id
    · simp [cost, hc, hlt.le]
    · simp [cost, hc]
  have hlowered := ahead_lowered id hle hi (by simp [cost, hlt])
  rwa [List.map_id] at hlowered

theorem listed_rank (db : Db) (task_id : Nat) : stageRank (listed db task_id) = 5 := by
  unfold listed
  split <;> rfl

/-- Every step of a run that stays lowers its rank, whatever others have made of the tables. -/
theorem run_lowered (hn : (run.items.map (·.item.id)).Nodup)
    (h : run_task db run action = some (db', some next)) : rank gates next < rank gates run := by
  have hstage : ∀ {r : TaskRun}, stageRank r.stage < stageRank run.stage → rank gates r < rank gates run :=
    fun hlt => Prod.Lex.left _ _ hlt
  cases action with
  | item item_id action =>
    obtain ⟨i, hi, h⟩ := Option.bind_eq_some_iff.mp h
    obtain ⟨⟨db'', stage⟩, hu, he⟩ := Option.map_eq_some_iff.mp h
    cases he
    exact Prod.Lex.right _ (step_lowered hn hi (item_lowered hu))
  | raise e =>
    simp only [run_task] at h
    split at h
    · cases h
    · cases h
    · rename_i hst
      obtain ⟨_, _, he⟩ := Option.map_eq_some_iff.mp h
      cases he
      exact hstage (by simp [stageRank, hst])
    · rename_i hnot hover _
      cases h
      refine hstage ?_
      cases hst : run.stage <;> simp_all [stageRank]
  | list =>
    cases run_moves h with
    | listed hst => exact hstage ((listed_rank db run.task_id).trans_lt (by simp [stageRank, hst]))
  | finalize =>
    cases run_moves h with
    | finalized results hst _ => exact hstage (by simp [stageRank, hst])
  | _ =>
    cases run_moves h
    all_goals
      rename_i hst
      exact hstage (by simp [stageRank, hst])

/-- Nothing new goes wrong: a failure that has come is dealt with. -/
def Calm : RunAction → Prop
  | .raise _ | .lose | .crash | .item _ (.raise _) | .item _ .escape => False
  | _ => True

/-- Once all items are over, the results of the outer `gather` are there. -/
theorem results_there (h : ∀ c ∈ items, c.stage.over = true) :
    ∃ results, all_results items = some results := by
  have hgroups : ∀ group ∈ grouped items, ∃ results, groupResults group = some results := by
    intro group hgroup
    obtain ⟨key, _, rfl⟩ := List.mem_map.mp hgroup
    unfold groupResults
    split
    · exact ⟨_, rfl⟩
    · rename_i hnone
      refine Fallible.mapM_some (fun c hc => ?_)
      have hover := h c (List.mem_of_mem_filter hc)
      have hstays : c.stage ≠ .escaped := by
        intro he
        exact hnone (List.any_eq_true.mpr ⟨c, hc, by simp [he]⟩)
      cases hst : c.stage with
      | ended ok => exact ⟨ok, rfl⟩
      | escaped => exact absurd hst hstays
      | _ =>
        rw [hst] at hover
        cases hover
  obtain ⟨results, hresults⟩ := Fallible.mapM_some hgroups
  exact ⟨results.flatten, by rw [all_results, hresults, Option.map_some]⟩

/-- An item that is not over has a step before it. -/
theorem item_next (db : Db) (item : TaskItem) (h : stage.over = false) :
    ∃ action, (∀ id, Calm (.item id action)) ∧ (_upload_item db item stage action).isSome := by
  cases stage with
  | waiting => exact ⟨.mark, fun _ => trivial, rfl⟩
  | marked => exact ⟨.store [], fun _ => trivial, rfl⟩
  | stored => exact ⟨.done, fun _ => trivial, rfl⟩
  | delivered => exact ⟨.publish, fun _ => trivial, rfl⟩
  | raised e => exact ⟨.fail, fun _ => trivial, rfl⟩
  | reported => exact ⟨.report, fun _ => trivial, rfl⟩
  | ended ok => cases h
  | escaped => cases h

theorem items_next (db : Db) (hn : (run.items.map (·.item.id)).Nodup) (hc : c ∈ run.items)
    (hover : c.stage.over = false) :
    ∃ action, Calm (.item c.item.id action) ∧ (run_task db run (.item c.item.id action)).isSome := by
  obtain ⟨action, hcalm, hstep⟩ := item_next db c.item hover
  obtain ⟨⟨db', stage⟩, hstep⟩ := Option.isSome_iff_exists.mp hstep
  have hfind : Rows.find? run.items c.item.id = some c := Rows.find_of_mem hn hc
  refine ⟨action, hcalm _, ?_⟩
  rw [run_task, hfind, Option.bind_some, hstep]
  rfl

/-- A step of the run itself. -/
def Own : RunAction → Prop
  | .item _ _ => False
  | _ => True

/-- A run whose items are all over goes on, whatever the tables hold. -/
theorem run_next (db : Db) (hall : ∀ c ∈ run.items, c.stage.over = true) :
    ∃ action, Own action ∧ Calm action ∧ (run_task db run action).isSome := by
  cases hst : run.stage with
  | starting =>
    refine ⟨.read, trivial, trivial, ?_⟩
    rw [run_task, if_pos hst]
    split <;> rfl
  | checked => exact ⟨.start, trivial, trivial, by rw [run_task, if_pos hst]; rfl⟩
  | started => exact ⟨.list, trivial, trivial, by rw [run_task, if_pos hst]; rfl⟩
  | idle n => exact ⟨.complete, trivial, trivial, by simp [run_task, hst]⟩
  | planned items => exact ⟨.plan, trivial, trivial, by simp [run_task, hst]⟩
  | working =>
    obtain ⟨results, hresults⟩ := results_there hall
    exact ⟨.finalize, trivial, trivial, by rw [run_task, if_pos hst, hresults]; rfl⟩
  | finished => exact ⟨.publish, trivial, trivial, by rw [run_task, if_pos hst]; rfl⟩
  | failing e => exact ⟨.fail, trivial, trivial, by simp [run_task, hst]⟩
  | ended => exact ⟨.leave, trivial, trivial, by rw [run_task, if_pos ⟨hst, by simpa using hall⟩]; rfl⟩

/-- What is so of the runs in every state: no two share an identity, nor do two items of one. -/
structure Orderly (s : Platform.State) : Prop where
  rids : (s.runs.map TaskRun.rid).Nodup
  fresh : ∀ run ∈ s.runs, run.rid < s.base.next_request
  ids : ∀ run ∈ s.runs, (run.items.map (·.item.id)).Nodup
  planned : ∀ run ∈ s.runs, ∀ items, run.stage = .planned items → (items.map TaskItem.id).Nodup

/-- What one step makes of the runs, and of the numbers that requests and runs are given. -/
inductive RunsMove (s t : Platform.State) : Platform.Action → Prop
  | others (hruns : t.runs = s.runs) (hnext : s.base.next_request ≤ t.base.next_request)
      (hmine : ∀ rid action, a ≠ .run rid action) : RunsMove s t a
  | scheduled (task_id : Nat) (hnext : t.base.next_request = s.base.next_request + 1)
      (hruns : t.runs = s.runs ++ [⟨s.base.next_request, task_id, .fresh, .starting, []⟩]) :
      RunsMove s t (.schedule rid)
  | advanced (run : TaskRun) (next : Option TaskRun) (db : Db) (hfind : Rows.find? s.runs rid = some run)
      (hrun : run_task s.base.db run action = some (db, next))
      (hruns : t.runs = Background.setRun s.runs rid next)
      (hnext : t.base.next_request = s.base.next_request) : RunsMove s t (.run rid action)

theorem runs_move (h : Platform.step cfg s a = some t) : RunsMove s t a := by
  cases a with
  | request action =>
    obtain ⟨base, hb, rfl⟩ := Option.map_eq_some_iff.mp h
    exact .others rfl (RunnerRecovery.step_uploads hb).1 (by intro _ _ he; cases he)
  | schedule rid =>
    obtain ⟨r, _, h⟩ := Option.bind_eq_some_iff.mp h
    split at h
    · cases h
      exact .scheduled r.task.id rfl rfl
    · cases h
  | run rid action =>
    obtain ⟨run, hfind, h⟩ := Option.bind_eq_some_iff.mp h
    obtain ⟨⟨db, next⟩, hrun, he⟩ := Option.map_eq_some_iff.mp h
    cases he
    exact .advanced run next db hfind hrun rfl rfl
  | deliver message =>
    cases h
    exact .others rfl le_rfl (by intro _ _ he; cases he)

/-- The items of a run keep apart, as do those that it is about to plan. -/
theorem moved_apart (hdb : (db.items.map TaskItem.id).Nodup) (hn : (run.items.map (·.item.id)).Nodup)
    (hp : ∀ items, run.stage = .planned items → (items.map TaskItem.id).Nodup)
    (h : run_task db run action = some (db', some next)) :
    (next.items.map (·.item.id)).Nodup ∧
      ∀ items, next.stage = .planned items → (items.map TaskItem.id).Nodup := by
  cases run_moves h with
  | listed hst =>
    refine ⟨hn, fun items hitems => ?_⟩
    simp only [TaskRunner.listed] at hitems
    split at hitems
    · cases hitems
    · cases hitems
      exact RunSteps.uploadable_ids hdb
  | planned items hst =>
    refine ⟨?_, fun _ hitems => ?_⟩
    · simpa [List.map_map, Function.comp_def] using hp items hst
    · cases hitems
  | item i _ stage hi hu =>
    refine ⟨?_, hp⟩
    rw [Rows.update_map (f := fun c : ItemRun => { c with stage := stage }) (·.item.id) (fun _ => rfl)]
    exact hn
  | _ => exact ⟨hn, by intro _ he; cases he⟩

theorem step_orderly (hdb : (s.base.db.items.map TaskItem.id).Nodup) (ho : Orderly s)
    (h : Platform.step cfg s a = some t) : Orderly t := by
  cases runs_move h with
  | others hruns hnext =>
    refine ⟨hruns ▸ ho.rids, fun run hr => ?_, hruns ▸ ho.ids, hruns ▸ ho.planned⟩
    exact (ho.fresh run (hruns ▸ hr)).trans_le hnext
  | scheduled task_id hnext hruns =>
    refine ⟨hruns ▸ Rows.append_nodup ho.rids ho.fresh, ?_, ?_, ?_⟩
    · rw [hruns, hnext]
      exact Rows.append_all (fun run hr => Nat.lt_succ_of_lt (ho.fresh run hr)) (Nat.lt_succ_self _)
    · rw [hruns]
      exact Rows.append_all ho.ids List.nodup_nil
    · rw [hruns]
      exact Rows.append_all ho.planned (by intro _ he; cases he)
  | advanced run next db hfind hrun hruns hnext =>
    have hmem := Rows.find_mem hfind
    have hcases : ∀ q ∈ t.runs, q ∈ next ∨ q ∈ s.runs := by
      intro q hq
      rcases SurplusRuns.mem_setRun ho.rids hfind (hruns ▸ hq) with hq | ⟨hq, _⟩
      · exact .inl hq
      · exact .inr hq
    have hkept := RunnerRecovery.move_run (run_moves hrun)
    refine ⟨hruns ▸ SurplusRuns.setRun_rids ho.rids (fun r hr => (hkept r hr).1.trans (Rows.find_key hfind)),
      ?_, ?_, ?_⟩
    · intro q hq
      rw [hnext]
      rcases hcases q hq with hq | hq
      · exact (hkept q hq).1 ▸ ho.fresh run hmem
      · exact ho.fresh q hq
    · intro q hq
      rcases hcases q hq with hq | hq
      · obtain rfl := hq
        exact (moved_apart hdb (ho.ids run hmem) (ho.planned run hmem) hrun).1
      · exact ho.ids q hq
    · intro q hq
      rcases hcases q hq with hq | hq
      · obtain rfl := hq
        exact (moved_apart hdb (ho.ids run hmem) (ho.planned run hmem) hrun).2
      · exact ho.planned q hq

theorem reachable_orderly (h : Run (Platform.step cfg) Free Platform.initial s) : Orderly s := by
  refine h.invariant_given Orderly (fun s => Tables.Wellformed cfg s.base.db)
    (fun _ hr => PlatformTables.reachable_wellformed hr) ?_ ?_
  · exact ⟨List.nodup_nil, (by intro _ hr; cases hr), (by intro _ hr; cases hr), (by intro _ hr; cases hr)⟩
  · exact fun s a t hw ho _ hs => step_orderly hw.item_ids ho hs

/-- The other runs are found as before. -/
theorem setRun_other {runs : List TaskRun} (hn : (runs.map TaskRun.rid).Nodup)
    (hfind : Rows.find? runs rid = some run) (hnext : ∀ r ∈ next, r.rid = rid) (hk : k ≠ rid) :
    Rows.find? (Background.setRun runs rid next) k = Rows.find? runs k := by
  apply Option.ext
  intro q
  rw [Rows.find_iff (SurplusRuns.setRun_rids hn hnext), Rows.find_iff hn]
  constructor
  · rintro ⟨hq, rfl⟩
    rcases SurplusRuns.mem_setRun hn hfind hq with hq | ⟨hq, _⟩
    · exact absurd (hnext q hq) hk
    · exact ⟨hq, rfl⟩
  · rintro ⟨hq, rfl⟩
    refine ⟨?_, rfl⟩
    cases next with
    | none => exact Rows.mem_erase.mpr ⟨hq, hk⟩
    | some r => exact Rows.mem_update_of_ne hq hk

/-- How far a run is from being gone, where one that is still to be scheduled is furthest. -/
def standing (gates : Nat → Nat → Gate) (rid : Nat) (s : Platform.State) : ℕ ×ₗ ℕ :=
  match Rows.find? s.runs rid with
  | some run => rank (gates rid) run
  | none => if rid < s.base.next_request then ⊥ else toLex (9, 0)

variable {gates : Nat → Nat → Gate}

theorem standing_gone (h : Rows.find? s.runs rid = none) (hlt : rid < s.base.next_request) :
    standing gates rid s = ⊥ := by
  rw [standing, h]
  exact if_pos hlt

theorem rank_pos (gates : Nat → Gate) (run : TaskRun) : ⊥ < rank gates run := by
  have hpos : 0 < stageRank run.stage := by
    cases run.stage <;> simp [stageRank]
  exact Prod.Lex.left _ _ hpos

theorem standing_others (hruns : t.runs = s.runs) (hnext : s.base.next_request ≤ t.base.next_request)
    (rid : Nat) : standing gates rid t ≤ standing gates rid s := by
  rw [standing, standing, hruns]
  cases Rows.find? s.runs rid with
  | some run => exact le_rfl
  | none =>
    by_cases hlt : rid < s.base.next_request
    · simp only [if_pos hlt, if_pos (hlt.trans_le hnext), le_refl]
    · simp only [if_neg hlt]
      split
      · exact bot_le
      · exact le_rfl

theorem standing_scheduled (hnext : t.base.next_request = s.base.next_request + 1)
    (hruns : t.runs = s.runs ++ [⟨s.base.next_request, task_id, .fresh, .starting, []⟩]) (rid : Nat) :
    standing gates rid t ≤ standing gates rid s := by
  cases hfind : Rows.find? s.runs rid with
  | some run => rw [standing, standing, hruns, Rows.find_append hfind, hfind]
  | none =>
    have hadded : Rows.find? t.runs rid = if s.base.next_request = rid
        then some ⟨s.base.next_request, task_id, .fresh, .starting, []⟩ else none := by
      rw [Rows.find?] at hfind
      rw [hruns, Rows.find?, List.find?_append, hfind, Option.none_or, List.find?_singleton]
      simp
    rcases lt_trichotomy rid s.base.next_request with hlt | heq | hgt
    · rw [if_neg hlt.ne'] at hadded
      rw [standing_gone hadded (by omega)]
      exact bot_le
    · rw [if_pos heq.symm] at hadded
      rw [standing, standing, hadded, hfind]
      simp only [if_neg (Nat.not_lt.mpr heq.ge)]
      exact le_of_lt (Prod.Lex.left _ _ (Nat.lt_succ_self 8))
    · rw [if_neg hgt.ne] at hadded
      rw [standing, standing, hadded, hfind]
      simp only [if_neg hgt.not_gt, if_neg (show ¬rid < t.base.next_request by omega), le_refl]

/-- A step of a run brings it nearer to its end. -/
theorem standing_advanced (ho : Orderly s) (hfind : Rows.find? s.runs rid = some run)
    (hrun : run_task s.base.db run action = some (db, next))
    (hruns : t.runs = Background.setRun s.runs rid next)
    (hnext : t.base.next_request = s.base.next_request) : standing gates rid t < standing gates rid s := by
  have hmem := Rows.find_mem hfind
  have hrid : run.rid = rid := Rows.find_key hfind
  have hstanding : standing gates rid s = rank (gates rid) run := by rw [standing, hfind]
  rw [hstanding]
  cases next with
  | none =>
    have hgone : Rows.find? t.runs rid = none := by
      rw [hruns, Rows.find?, List.find?_eq_none]
      intro q hq
      simpa using (Rows.mem_erase.mp hq).2
    have hlt : rid < t.base.next_request := by
      rw [hnext, ← hrid]
      exact ho.fresh run hmem
    rw [standing_gone hgone hlt]
    exact rank_pos _ run
  | some r =>
    have hkept := RunnerRecovery.move_run (run_moves hrun)
    have hthere : r ∈ t.runs := hruns ▸ Rows.mem_update_of_mem hmem hrid
    have hrids : (t.runs.map TaskRun.rid).Nodup :=
      hruns ▸ SurplusRuns.setRun_rids ho.rids (fun q hq => (hkept q hq).1.trans hrid)
    have hfound : Rows.find? t.runs rid = some r :=
      (Rows.find_iff hrids).mpr ⟨hthere, (hkept r rfl).1.trans hrid⟩
    rw [standing, hfound]
    exact run_lowered (ho.ids run hmem) hrun

theorem platform_falls (gates : Nat → Nat → Gate) (ho : Orderly s) (h : Platform.step cfg s a = some t) (rid : Nat) :
    standing gates rid t ≤ standing gates rid s ∧
      ∀ action, a = .run rid action → standing gates rid t < standing gates rid s := by
  cases runs_move h with
  | others hruns hnext hmine => exact ⟨standing_others hruns hnext rid, fun action he => absurd he (hmine rid action)⟩
  | scheduled task_id hnext hruns => exact ⟨standing_scheduled hnext hruns rid, by intro _ he; cases he⟩
  | @advanced k action run next db hfind hrun hruns hnext =>
    by_cases hk : rid = k
    · subst hk
      have hlt : standing gates rid t < standing gates rid s := standing_advanced ho hfind hrun hruns hnext
      exact ⟨hlt.le, fun _ _ => hlt⟩
    · have hkept := RunnerRecovery.move_run (run_moves hrun)
      have hother : Rows.find? t.runs rid = Rows.find? s.runs rid := by
        rw [hruns]
        exact setRun_other ho.rids hfind (fun r hr => (hkept r hr).1.trans (Rows.find_key hfind)) hk
      refine ⟨by rw [standing, standing, hother, hnext], fun action he => ?_⟩
      cases he
      exact absurd rfl hk

/-- A step of a run, or of its items on their way in. -/
inductive Mine (rid : Nat) : RunSemaphores.Action → Prop
  | run (action : RunAction) : Mine rid (.platform (.run rid action))
  | enter (item_id : Nat) : Mine rid (.enter rid item_id)

/-- It is no new failure. -/
def Onward : RunSemaphores.Action → Prop
  | .platform (.run _ action) => Calm action
  | _ => True

variable {cfg : Config} {limits : Limits} {s t : RunSemaphores.State} {a : RunSemaphores.Action} {rid : Nat}

/-- An item that is let in brings its run nearer to its end. -/
theorem standing_entered (hn : Rows.find? s.base.runs k = some run) (hc : c ∈ run.items)
    (hlt : (s.gates k c.item.id).enter.wants < (s.gates k c.item.id).wants) :
    standing (s.enter k c.item.id).gates rid s.base ≤ standing s.gates rid s.base ∧
      (k = rid → standing (s.enter k c.item.id).gates rid s.base < standing s.gates rid s.base) := by
  by_cases hk : rid = k
  · subst hk
    have hlower : standing (s.enter rid c.item.id).gates rid s.base < standing s.gates rid s.base := by
      simp only [standing, hn, State.enter, Function.update_self]
      exact Prod.Lex.right _ (entry_lowered hc hlt)
    exact ⟨hlower.le, fun _ => hlower⟩
  · have hsame : (s.enter k c.item.id).gates rid = s.gates rid := Function.update_of_ne hk _ _
    refine ⟨?_, fun he => absurd he.symm hk⟩
    rw [standing, standing, hsame]

theorem standing_falls (ho : Orderly s.base) (h : RunSemaphores.step cfg limits s a = some t) (rid : Nat) :
    standing t.gates rid t.base ≤ standing s.gates rid s.base ∧
      (Mine rid a → standing t.gates rid t.base < standing s.gates rid s.base) := by
  cases a with
  | platform action =>
    simp only [RunSemaphores.step] at h
    split at h
    · obtain ⟨base, hbase, rfl⟩ := Option.map_eq_some_iff.mp h
      have hfalls := platform_falls s.gates ho hbase rid
      refine ⟨hfalls.1, fun hmine => ?_⟩
      cases hmine with
      | run action => exact hfalls.2 action rfl
    · cases h
  | enter k item_id =>
    obtain ⟨run, hfind, h⟩ := Option.bind_eq_some_iff.mp h
    obtain ⟨c, hc, h⟩ := Option.bind_eq_some_iff.mp h
    split at h
    · rename_i hmay
      cases h
      obtain rfl : c.item.id = item_id := Rows.find_key hc
      have hmem := List.mem_of_mem_filter (Rows.find_mem hc)
      have hwants : (s.gates k c.item.id).enter.wants < (s.gates k c.item.id).wants := by
        have hentered : (s.gateOf k c).enter.wants < (s.gateOf k c).wants := wants_enter hmay
        exact hentered
      obtain ⟨hle, hlt⟩ := standing_entered hfind hmem hwants
      refine ⟨hle, fun hmine => hlt ?_⟩
      cases hmine with
      | enter => rfl
    · cases h

/-- The semaphores only hold steps of the platform back. -/
theorem platform_run (h : Run (RunSemaphores.step cfg limits) Free RunSemaphores.initial s) :
    Run (Platform.step cfg) Free Platform.initial s.base := by
  refine h.simulates RunSemaphores.State.base (fun s a t _ hs => ?_)
  cases a with
  | platform action =>
    simp only [RunSemaphores.step] at hs
    split at hs
    · obtain ⟨base, hbase, rfl⟩ := Option.map_eq_some_iff.mp hs
      exact .inr ⟨action, trivial, hbase⟩
    · cases hs
  | enter rid item_id =>
    obtain ⟨run, _, hs⟩ := Option.bind_eq_some_iff.mp hs
    obtain ⟨c, _, hs⟩ := Option.bind_eq_some_iff.mp hs
    split at hs
    · cases hs
      exact .inl rfl
    · cases hs

/-- An action of a run that is there and admitted is a step. -/
theorem admitted_step (hfind : Rows.find? s.base.runs rid = some run)
    (hadmitted : Admitted limits s (.run rid action)) (hrun : (run_task s.base.base.db run action).isSome) :
    ∃ t, RunSemaphores.step cfg limits s (.platform (.run rid action)) = some t := by
  obtain ⟨⟨db, next⟩, hrun⟩ := Option.isSome_iff_exists.mp hrun
  rw [RunSemaphores.step, if_pos hadmitted, Platform.step, Background.advance, hfind, Option.bind_some, hrun]
  exact ⟨_, rfl⟩

/-- No run is ever stuck where its semaphores have permits: it can go on without a new failure. -/
theorem run_goes_on (houter : 0 < limits.outer) (hinner : 0 < limits.inner) (ho : Orderly s.base)
    (hr : run ∈ s.base.runs) :
    ∃ a t, Mine run.rid a ∧ Onward a ∧ RunSemaphores.step cfg limits s a = some t := by
  have hfind : Rows.find? s.base.runs run.rid = some run := Rows.find_of_mem ho.rids hr
  have hn := ho.ids run hr
  by_cases hall : ∀ c ∈ run.items, c.stage.over = true
  · obtain ⟨action, hown, hcalm, hrun⟩ := run_next s.base.base.db hall
    have hadmitted : Admitted limits s (.run run.rid action) := by
      cases action with
      | plan => exact ⟨houter.le, hinner.le⟩
      | item => exact hown.elim
      | _ => trivial
    obtain ⟨t, ht⟩ := admitted_step hfind hadmitted hrun
    exact ⟨_, t, .run action, hcalm, ht⟩
  · push Not at hall
    obtain ⟨c, hc, hover⟩ := hall
    have hactive : c ∈ active run := List.mem_filter.mpr ⟨hc, by simpa using hover⟩
    obtain ⟨b, hb, hgo⟩ :
        ∃ b ∈ active run, s.gateOf run.rid b = .inside ∨ mayEnter limits (s.gateOf run.rid) (active run) b = true :=
      someone_goes_on houter hinner hactive
    obtain ⟨hmem, hlive⟩ := List.mem_filter.mp hb
    rcases hgo with hinside | hmay
    · obtain ⟨action, hcalm, hrun⟩ := items_next s.base.base.db hn hmem (by simpa using hlive)
      have hadmitted : Admitted limits s (.run run.rid (.item b.item.id action)) := hinside
      obtain ⟨t, ht⟩ := admitted_step hfind hadmitted hrun
      exact ⟨_, t, .run _, hcalm, ht⟩
    · have hrows : ((active run).map (·.item.id)).Nodup := hn.sublist (List.filter_sublist.map _)
      have hfound : Rows.find? (active run) b.item.id = some b := Rows.find_of_mem hrows hb
      refine ⟨.enter run.rid b.item.id, s.enter run.rid b.item.id, .enter _, trivial, ?_⟩
      rw [RunSemaphores.step, hfind, Option.bind_some, hfound, Option.bind_some, if_pos hmay]

/-- As long as the run is there, it is given a step again and again. -/
def Served (rid : Nat) (states : ℕ → RunSemaphores.State) (actions : ℕ → RunSemaphores.Action) : Prop :=
  ∀ n, Rows.find? (states n).base.runs rid ≠ none → ∃ m, n ≤ m ∧ Mine rid (actions m)

/-- No background run hangs or goes on for ever. In every endless run of the platform, where both limits
are positive, each one always has a step that deals with what has happened so far; it takes finitely many
steps whatever goes wrong and whatever the others do in between, and it is gone at some time if it is
given steps. -/
theorem runs_end (h : EndlessRun (RunSemaphores.step cfg limits) RunSemaphores.initial states actions) :
    (0 < limits.outer → 0 < limits.inner → ∀ n, ∀ run ∈ (states n).base.runs, ∃ a t,
      Mine run.rid a ∧ Onward a ∧ RunSemaphores.step cfg limits (states n) a = some t) ∧
    (∀ rid, ∃ n, ∀ m, n ≤ m → ¬Mine rid (actions m)) ∧
    (∀ rid, Served rid states actions → ∀ n, ∃ m, n ≤ m ∧ Rows.find? (states m).base.runs rid = none) := by
  have horderly : ∀ {s}, Run (RunSemaphores.step cfg limits) Free RunSemaphores.initial s → Orderly s.base :=
    fun hs => reachable_orderly (platform_run hs)
  have hoften : ∀ rid, ∃ n, ∀ m, n ≤ m → ¬Mine rid (actions m) := by
    intro rid
    refine h.finitely_often (fun s => standing s.gates rid s.base) (Mine rid) ?_ ?_
    · exact fun s a t hs hstep => (standing_falls (horderly hs) hstep rid).1
    · exact fun s a t hs hmine hstep => (standing_falls (horderly hs) hstep rid).2 hmine
  refine ⟨fun houter hinner n run hr => ?_, hoften, fun rid hserved n => ?_⟩
  · exact run_goes_on houter hinner (horderly (h.reaches n)) hr
  · obtain ⟨m, hm, hgone⟩ := leaves (hoften rid) hserved n
    exact ⟨m, hm, not_not.mp hgone⟩

/-- A state some time later, when nothing else has happened. -/
def later (s : RunSemaphores.State) (n : ℕ) : RunSemaphores.State :=
  { s with base.base.db.now := s.base.base.db.now + n }

theorem endless_later (h : Run (RunSemaphores.step cfg limits) Free RunSemaphores.initial s) :
    EndlessRun (RunSemaphores.step cfg limits) RunSemaphores.initial (later s) (fun _ => .platform (.request .tick)) :=
  ⟨h, fun _ => rfl⟩

/-- Two files, and the request that schedules their run. -/
def sampleRequests : List Platform.Action :=
  (Sample.confirmed 0 0 [("acme/a.txt", [1]), ("acme/b.txt", [2])] ++
      [Bridge.Action.uploadRead Sample.actor 0, Bridge.Action.upload 1 .acquire]).map .request ++ [.schedule 1]

def itemActions (rid item_id : Nat) : List RunSemaphores.Action :=
  [.enter rid item_id, .enter rid item_id] ++
    [ItemAction.mark, .store [], .done, .publish].map (fun action => .platform (.run rid (.item item_id action)))

/-- The second item gets the only permits when the first one has given them back. -/
def sampleWork : List RunSemaphores.Action :=
  [RunAction.read, .start, .list, .plan].map (fun action => .platform (.run 2 action)) ++
    (itemActions 2 2 ++ itemActions 2 3) ++
    [RunAction.finalize, .publish, .leave].map (fun action => .platform (.run 2 action))

def oneByOne : Limits := ⟨1, 1⟩

/-- A run of two files, one after the other, that ends and leaves the platform to its clock. -/
theorem runs_end_worked : ∃ states actions,
    EndlessRun (RunSemaphores.step Sample.cfg oneByOne) RunSemaphores.initial states actions ∧
      (states 0).base.runs.map TaskRun.rid = [2] ∧
      (∀ (n : ℕ) (hn : n < sampleWork.length), actions n = sampleWork[n]) ∧ Served 2 states actions ∧
      (∀ run ∈ (states 0).base.runs, ∃ a t,
        Mine run.rid a ∧ Onward a ∧ RunSemaphores.step Sample.cfg oneByOne (states 0) a = some t) ∧
      ∃ m, Rows.find? (states m).base.runs 2 = none := by
  obtain ⟨s, hrun, hrids, hwork⟩ := replay_reaches (RunSemaphores.step Sample.cfg oneByOne) Free
    (p := fun s => s.base.runs.map TaskRun.rid = [2] ∧
      (replay (RunSemaphores.step Sample.cfg oneByOne) Free s sampleWork).any
        (fun t => t.base.runs.isEmpty) = true)
    RunSemaphores.initial (sampleRequests.map .platform) (by decide +kernel)
  obtain ⟨t, hworked, hgone⟩ := (Option.any_eq_true ..).mp hwork
  have hgone : t.base.runs = [] := by simpa using hgone
  obtain ⟨states, actions, hendless, hzero, hlater, htaken⟩ :=
    (endless_later (hrun.trans (.of_replay hworked))).after sampleWork hrun hworked
  have hserved : Served 2 states actions := by
    intro n hthere
    by_cases hn : n < sampleWork.length
    · refine ⟨sampleWork.length - 1, Nat.le_sub_one_of_lt hn, ?_⟩
      rw [htaken _ (by decide)]
      exact .run .leave
    · obtain ⟨k, rfl⟩ := Nat.exists_eq_add_of_le (Nat.le_of_not_lt hn)
      rw [hlater k] at hthere
      exact absurd (by simp [later, hgone, Rows.find?]) hthere
  obtain ⟨hgoes, _, hends⟩ := runs_end hendless
  obtain ⟨m, _, hm⟩ := hends 2 hserved 0
  refine ⟨states, actions, hendless, hzero ▸ hrids, htaken, hserved, ?_, m, hm⟩
  exact hgoes (by decide) (by decide) 0

end FileDelivery.Proofs.RunEnds
