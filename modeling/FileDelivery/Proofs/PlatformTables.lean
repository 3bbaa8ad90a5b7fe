import FileDelivery.Bridge.Platform
import FileDelivery.Proofs.Flow
import FileDelivery.Proofs.RunMoves

namespace FileDelivery.Proofs.PlatformTables
open FileDelivery.Library FileDelivery.Library.Runs FileDelivery.Control
open FileDelivery.Bridge FileDelivery.Proofs.ApplyResult FileDelivery.Proofs.Effects
open FileDelivery.Proofs.Tables FileDelivery.Proofs.RunMoves

/-- What one step may do, by who takes it. -/
inductive PlatformMove (cfg : Config) (s : Platform.State) : Platform.Action → Platform.State → Prop
  | requested (base) (h : Bridge.step cfg s.base action = some base) :
      PlatformMove cfg s (.request action) { s with base := base }
  | scheduled (r : UploadRequest) (t : Platform.State) (ht : t.base.dirs = s.base.dirs)
      (hdb : t.base.db = EventRepo.append s.base.db r.task.id (.task_upload_requested r.actor)) :
      PlatformMove cfg s (.schedule rid) t
  | advanced (run : TaskRun) (next) (t : Platform.State) (hr : Rows.find? s.runs rid = some run)
      (hm : RunMove s.base.db run action t.base.db next) (ht : t.base.dirs = s.base.dirs) :
      PlatformMove cfg s (.run rid action) t
  | delivered : PlatformMove cfg s (.deliver message) (Platform.deliver cfg s message)

theorem platform_moves (h : Platform.step cfg s a = some t) : PlatformMove cfg s a t := by
  cases a with
  | request action =>
    obtain ⟨base, hb, rfl⟩ := Option.map_eq_some_iff.mp h
    exact .requested base hb
  | schedule rid =>
    obtain ⟨r, _, h⟩ := Option.bind_eq_some_iff.mp h
    split at h
    · cases h
      exact .scheduled r _ rfl rfl
    · cases h
  | run rid action =>
    obtain ⟨run, hr, h⟩ := Option.bind_eq_some_iff.mp h
    obtain ⟨⟨db, next⟩, hrun, he⟩ := Option.map_eq_some_iff.mp h
    cases he
    exact .advanced run next _ hr (run_moves hrun) rfl
  | deliver message =>
    cases h
    exact .delivered

theorem step_wellformed (hw : Wellformed cfg s.base.db) (h : Platform.step cfg s a = some t) :
    Wellformed cfg t.base.db := by
  cases platform_moves h with
  | requested base hb => exact effect_wellformed hw (step_effect hb)
  | scheduled r _ _ hdb =>
    rw [hdb]
    exact hw.of_same_rows rfl (fun x hx => ⟨x, hx, rfl, rfl⟩) rfl (Nat.le_succ _)
      (physical_same hw.physical_fresh (SameObjects.refl _).append)
  | advanced run next _ _ hm _ => exact (move_tables hw hm).1
  | delivered => exact result_wellformed _ hw _

theorem run_wellformed (hw : Wellformed cfg s.base.db) (h : Run (Platform.step cfg) ok s t) :
    Wellformed cfg t.base.db :=
  h.invariant (fun s => Wellformed cfg s.base.db) hw (fun _ _ _ hw _ hs => step_wellformed hw hs)

theorem reachable_wellformed (h : Run (Platform.step cfg) ok Platform.initial s) :
    Wellformed cfg s.base.db := run_wellformed (initial_wellformed cfg) h

/-- A task stays in the table, and its directory stays as it was created. -/
structure TaskKept (t : Nat) (owner : String) (dir : Text) (content : Option TaskDir)
    (s : Platform.State) : Prop where
  known : KnownTask s.base.db t owner dir
  content : s.base.dirs dir = content

theorem step_kept (hw : Wellformed cfg s.base.db) (h : Platform.step cfg s a = some t)
    (hk : TaskKept k owner dir content s) : TaskKept k owner dir content t := by
  cases platform_moves h with
  | requested base hb =>
    have hg := Flow.step_grows hw hb
    exact ⟨hg.tasks hk.known, (hg.dirs hk.known).trans hk.content⟩
  | scheduled r _ ht hdb =>
    refine ⟨?_, ht ▸ hk.content⟩
    rw [hdb]
    exact hk.known
  | advanced run next _ _ hm ht => exact ⟨move_known_task hm hk.known, ht ▸ hk.content⟩
  | delivered => exact ⟨result_known_task _ _ hk.known, hk.content⟩

theorem run_kept (hw : Wellformed cfg s.base.db) (h : Run (Platform.step cfg) ok s t)
    (hk : TaskKept k owner dir content s) : TaskKept k owner dir content t := by
  have := h.invariant (fun s => Wellformed cfg s.base.db ∧ TaskKept k owner dir content s) ⟨hw, hk⟩
    (fun _ _ _ hi _ hs => ⟨step_wellformed hi.1 hs, step_kept hi.1 hs hi.2⟩)
  exact this.2

/-- No item refers to a task that is still to be created. -/
def Owned (db : Db) : Prop := ∀ i ∈ db.items, i.task_id < db.next_id

theorem Owned.of_map (h : Owned a) (hi : b.items.map TaskItem.task_id = a.items.map TaskItem.task_id)
    (hn : a.next_id ≤ b.next_id) : Owned b := by
  intro i hmem
  obtain ⟨j, hj, he⟩ := List.mem_map.mp (hi ▸ List.mem_map_of_mem hmem)
  have := h j hj
  omega

theorem classified_known (hw : Wellformed cfg s.db)
    (h : Bridge.step cfg s (.classify actor t profile) = some u) : t < s.db.next_id := by
  cases Moves.step_moves h with
  | classified dir db hclassify =>
    obtain ⟨_, _, _, _, _, _, hget, _⟩ := classify_spec hclassify
    obtain ⟨task, htask⟩ := Option.isSome_iff_exists.mp hget
    have hfind := (Option.filter_eq_some_iff.mp htask).1
    have hid : task.id = t := Rows.find_key hfind
    have := hw.task_fresh task (Rows.find_mem hfind)
    omega

theorem result_owned (bucket : Text) (hw : Wellformed cfg db) (ho : Owned db)
    (m : DeliveryResultMessage) : Owned (apply_delivery_result bucket db m).1 := by
  have hrec := apply_records bucket hw.item_ids m
  rcases apply_items_cases bucket hw.item_ids m with ⟨_, hsame⟩ | hitems
  · rw [hsame]
    exact ho
  · refine ho.of_map ?_ hrec.next
    rw [hitems, List.map_map]
    exact List.map_congr_left (fun i _ => (core_eq_fields (settle_core (i := i))).2.1)

theorem request_owned (hw : Wellformed cfg s.db) (ho : Owned s.db)
    (h : Bridge.step cfg s a = some u) : Owned u.db := by
  cases step_effect h with
  | quiet _ hi hs => exact ho.of_map (by rw [hi]) hs.next
  | created _ _ _ _ _ hi _ hs => exact ho.of_map (by rw [hi]) hs.next
  | classified rows _ htask _ _ hi _ hs =>
    have hlt := classified_known hw h
    have hn := hs.next
    intro i hmem
    rcases List.mem_append.mp (hi ▸ hmem) with hmem | hmem
    · have := ho i hmem
      omega
    · have := htask i hmem
      omega
  | confirmed _ _ _ _ hi hs => exact ho.of_map (by rw [hi]) hs.next
  | retried r _ _ _ _ hi hs =>
    refine ho.of_map ?_ hs.next
    rw [hi, List.map_map]
    exact List.map_congr_left (fun i _ => (core_eq_fields (resetRow_core s.db r i)).2.1)
  | queued _ _ _ _ _ hi hs => exact ho.of_map (by rw [hi]) hs.next
  | applied p _ hdb => exact hdb ▸ result_owned _ hw ho p.message

theorem step_owned (hw : Wellformed cfg s.base.db) (ho : Owned s.base.db)
    (h : Platform.step cfg s a = some t) : Owned t.base.db := by
  cases platform_moves h with
  | requested base hb => exact request_owned hw ho hb
  | scheduled r _ _ hdb =>
    rw [hdb]
    exact ho.of_map rfl (Nat.le_succ _)
  | advanced run next _ _ hm _ =>
    obtain ⟨_, hn, hi⟩ := move_tables hw hm
    exact ho.of_map hi hn
  | delivered => exact result_owned _ hw ho _

theorem reachable_owned (h : Run (Platform.step cfg) ok Platform.initial s) :
    Wellformed cfg s.base.db ∧ Owned s.base.db :=
  h.invariant (fun s => Wellformed cfg s.base.db ∧ Owned s.base.db)
    ⟨initial_wellformed cfg, fun _ hi => nomatch hi⟩
    (fun _ _ _ hi _ hs => ⟨step_wellformed hi.1 hs, step_owned hi.1 hi.2 hs⟩)

end FileDelivery.Proofs.PlatformTables
