import FileDelivery.Proofs.RecipientIsolation

namespace FileDelivery.Proofs.DeliveredShown
open FileDelivery.Library FileDelivery.Library.Runs FileDelivery.Control FileDelivery.Bridge
open FileDelivery.Control.WorkspaceRepo FileDelivery.Proofs.ApplyResult FileDelivery.Proofs.Effects
open FileDelivery.Proofs.Tables FileDelivery.Proofs.Flow

/-- The application of the result sets the item to `uploaded`. -/
def Delivers (m : DeliveryResultMessage) (i : TaskItem) : Prop :=
  i.task_id = m.task_id ∧ ∃ d ∈ m.items, d.item_id = i.id ∧ d.status = "uploaded"

/-- The item has an object in some workspace. -/
def Visible (db : Db) (k : Nat) : Prop := ∃ w ∈ db.workspace_objects, w.task_item_id = k

/-- One of the new events lists the item as missing its workspace. -/
def Reported (before after : Db) (k : Nat) : Prop :=
  ∃ new e ids reason, after.events = before.events ++ new ∧ e ∈ new ∧
    e.payload = .workspace_mapping_missing ids reason ∧ k ∈ ids

/-- What the loop has done for an item so far. -/
def Shown (acc : ApplyState) (k : Nat) : Prop :=
  Visible acc.db k ∨ k ∈ acc.workspace_mapping_missing

def Keyed (d : DeliveryResultItemSpec) : Prop := (d.key.filter (· ≠ [])).isSome = true

variable {bucket : Text} {task : Task} {m : DeliveryResultMessage} {acc acc' : ApplyState}

theorem object_visible (h : get_object_by_task_item db k = some (w, p, ws)) : Visible db k := by
  obtain ⟨v, hv, hfound⟩ := List.exists_of_findSome?_eq_some h
  exact ⟨v, (List.mem_filter.mp hv).1, by simpa using (List.mem_filter.mp hv).2⟩

/-- What is shown stays so, and a turn shows nothing but the item of a keyed receipt. -/
theorem turn_shown (h : ItemTurn bucket task m acc d acc') :
    (Shown acc k → Shown acc' k) ∧
      (Shown acc' k → Shown acc k ∨ d.item_id = k ∧ d.status = "uploaded" ∧ Keyed d) := by
  cases h with
  | missing => exact ⟨id, .inl⟩
  | failed => exact ⟨id, .inl⟩
  | uploaded i db' result hst hsel hrec acc' hdb hmissing =>
    have hitem : i.id = d.item_id := (select_some hsel).2.1
    unfold Shown
    rw [hdb, hmissing]
    cases hrec with
    | keyless hk =>
      rw [if_neg (by rw [hk]; simp)]
      exact ⟨id, .inl⟩
    | existing w p ws hk hold =>
      rw [if_neg (by simp)]
      exact ⟨id, .inl⟩
    | unmapped hk =>
      rw [if_pos ⟨rfl, hk⟩]
      simp only [List.mem_append, List.mem_singleton]
      refine ⟨fun h => h.imp_right .inl, ?_⟩
      rintro (hv | hl | rfl)
      · exact .inl (.inl hv)
      · exact .inl (.inr hl)
      · exact .inr ⟨rfl, hst, hk⟩
    | created key ws hk hne hnew hws =>
      have hkeyed : Keyed d := by simp [Keyed, hk, Option.filter, hne]
      simp only [reduceCtorEq, false_and, if_false]
      refine ⟨fun h => h.imp_left ?_, ?_⟩
      · intro h
        obtain ⟨w, hw, he⟩ := h
        exact ⟨w, List.mem_append_left _ hw, he⟩
      · rintro (⟨w, hw, rfl⟩ | hl)
        · rcases List.mem_append.mp hw with hw | hw
          · exact .inl (.inl ⟨w, hw, rfl⟩)
          · rw [List.mem_singleton.mp hw]
            exact .inr ⟨hitem.symm, hst, hkeyed⟩
        · exact .inl (.inr hl)

/-- The turn of an entry with a key shows its item. -/
theorem turn_shows (h : ItemTurn bucket task m acc d acc') (hst : d.status = "uploaded") (hk : Keyed d)
    (hsel : ItemRepo.select acc.db d.item_id (some m.task_id) (some task.owner_tenant_id) ≠ none) :
    Shown acc' d.item_id := by
  cases h with
  | missing hnone => exact absurd (hnone (.inl hst)) hsel
  | failed _ hfail => exact absurd (hst.symm.trans hfail) (by decide)
  | uploaded i db' result _ hfound hrec acc' hdb hmissing =>
    have hitem : i.id = d.item_id := (select_some hfound).2.1
    unfold Shown
    rw [hdb, hmissing]
    cases hrec with
    | keyless hnone =>
      rw [Keyed, hnone] at hk
      cases hk
    | existing w p ws _ hold => exact .inl (hitem ▸ object_visible hold)
    | unmapped hkey =>
      rw [if_pos ⟨rfl, hkey⟩]
      exact .inr (by simp)
    | created key ws => exact .inl ⟨_, List.mem_append_right _ (List.mem_singleton_self _), hitem⟩

theorem loop_shown (ds : List DeliveryResultItemSpec) :
    (Shown acc k → Shown (ds.foldl (apply_item bucket task m) acc) k) ∧
      (Shown (ds.foldl (apply_item bucket task m) acc) k →
        Shown acc k ∨ ∃ d ∈ ds, d.item_id = k ∧ d.status = "uploaded" ∧ Keyed d) := by
  induction ds generalizing acc with
  | nil => exact ⟨id, .inl⟩
  | cons d ds ih =>
    obtain ⟨hkeep, hfrom⟩ := turn_shown (k := k) (apply_item_turn bucket task m acc d)
    obtain ⟨hkeep', hfrom'⟩ := @ih (apply_item bucket task m acc d)
    refine ⟨fun h => hkeep' (hkeep h), fun h => ?_⟩
    rcases hfrom' h with h | ⟨e, he, hrest⟩
    · rcases hfrom h with h | hrest
      · exact .inl h
      · exact .inr ⟨d, List.mem_cons_self, hrest⟩
    · exact .inr ⟨e, List.mem_cons_of_mem _ he, hrest⟩

/-- The loop shows every item of the task that has a keyed receipt. -/
theorem loop_shows {ds : List DeliveryResultItemSpec} (hn : (acc.db.items.map TaskItem.id).Nodup)
    (ho : ItemRepo.ownerAllows acc.db (some task.owner_tenant_id) m.task_id = true)
    (hd : d ∈ ds) (hst : d.status = "uploaded") (hk : Keyed d) (hi : i ∈ acc.db.items)
    (hid : i.id = d.item_id) (ht : i.task_id = m.task_id) :
    Shown (ds.foldl (apply_item bucket task m) acc) d.item_id := by
  obtain ⟨pre, post, rfl⟩ := List.append_of_mem hd
  rw [List.foldl_append, List.foldl_cons]
  obtain ⟨_, hitems⟩ := apply_loop_spec acc bucket task pre hn ho
  have hframe := apply_loop_frame bucket task m acc pre
  generalize pre.foldl (apply_item bucket task m) acc = mid at hitems hframe ⊢
  refine (loop_shown post).1 (turn_shows (apply_item_turn bucket task m mid d) hst hk ?_)
  -- The row is still there when its entry's turn comes.
  intro hnone
  have hcore : (pre.foldl (itemEffect m) i).core = i.core := effects_core pre
  have hmem : pre.foldl (itemEffect m) i ∈ mid.db.items := by
    rw [hitems]
    exact List.mem_map_of_mem hi
  obtain ⟨hsame, htask, _⟩ := core_eq_fields hcore
  refine select_none hnone ?_ ?_ hmem ⟨hsame.trans hid, htask.trans ht⟩
  · rw [hitems, map_ids _ (fun _ => effects_core pre)]
    exact hn
  · simpa only [ItemRepo.ownerAllows, hframe.tasks] using ho

/-- The events of an application: the list of what is missing comes last, if it is not empty. -/
theorem finish_events (task : Task) (m : DeliveryResultMessage) (acc : ApplyState) :
    ∃ first rest, (finish_apply task m acc).events = acc.db.events ++ first :: rest ∧
      (∀ ids reason, first.payload ≠ .workspace_mapping_missing ids reason) ∧
      ∀ k, k ∈ acc.workspace_mapping_missing ↔ ∃ e ∈ rest, ∃ ids reason,
        e.payload = .workspace_mapping_missing ids reason ∧ k ∈ ids := by
  have hevents := update_status_events acc.db m.task_id (.ofString m.status)
    (some task.owner_tenant_id) none (some m.ended_at)
  unfold finish_apply
  generalize TaskRepo.update_status acc.db m.task_id (.ofString m.status)
    (some task.owner_tenant_id) none (some m.ended_at) = db at hevents ⊢
  let applied : EventPayload := .delivery_result_applied m.topic m.status m.uploaded m.failed
    m.processed acc.applied_items acc.missing_items acc.workspace_objects_created
    acc.workspace_mapping_missing
  split
  · rename_i hnone
    refine ⟨⟨db.next_id, m.task_id, applied, db.now⟩, [], by rw [← hevents]; rfl, by simp [applied], ?_⟩
    simp [hnone]
  · refine ⟨⟨db.next_id, m.task_id, applied, db.now⟩, [⟨db.next_id + 1, m.task_id,
      .workspace_mapping_missing acc.workspace_mapping_missing
        "No workspace found for item target key", db.now⟩], ?_, by simp [applied], by simp⟩
    rw [← hevents]
    exact List.append_assoc _ _ _

/-- What an application shows, in the tables and the events that it leaves. -/
theorem applied_shown (h : TaskRepo.get db m.task_id none = some task) :
    Visible (apply_delivery_result bucket db m).1 k ∨
      Reported db (apply_delivery_result bucket db m).1 k ↔
    Shown (m.items.foldl (apply_item bucket task m) ⟨db, 0, [], 0, []⟩) k := by
  have hframe := apply_loop_frame bucket task m ⟨db, 0, [], 0, []⟩ m.items
  simp only [apply_delivery_result, h]
  generalize m.items.foldl (apply_item bucket task m) ⟨db, 0, [], 0, []⟩ = acc at hframe ⊢
  obtain ⟨first, rest, hevents, hfirst, hrest⟩ := finish_events task m acc
  have hobjects : Visible (finish_apply task m acc) k ↔ Visible acc.db k := by
    unfold Visible
    rw [(finish_same task m acc).2.2.1]
  have hreported : Reported db (finish_apply task m acc) k ↔ k ∈ acc.workspace_mapping_missing := by
    rw [hframe.events] at hevents
    rw [hrest]
    constructor
    · intro h
      obtain ⟨new, e, ids, reason, hnew, he, hpayload, hk⟩ := h
      rw [List.append_cancel_left (hnew.symm.trans hevents)] at he
      rcases List.mem_cons.mp he with rfl | he
      · exact absurd hpayload (hfirst ids reason)
      · exact ⟨e, he, ids, reason, hpayload, hk⟩
    · intro h
      obtain ⟨e, he, ids, reason, hpayload, hk⟩ := h
      exact ⟨_, e, ids, reason, hevents, List.mem_cons_of_mem _ he, hpayload, hk⟩
  rw [hobjects, hreported]
  rfl

/-- Every workspace object comes from a receipt, in every reachable state. -/
theorem reachable_recorded (h : Run (step cfg) ok initial s) :
    ∀ w ∈ s.db.workspace_objects, RecipientIsolation.Recorded cfg s w :=
  h.invariant_given (fun s => ∀ w ∈ s.db.workspace_objects, RecipientIsolation.Recorded cfg s w)
    (fun s => Invariant cfg s) (fun _ => reachable_flow) (by simp [initial])
    (fun _ _ _ hi hinv _ hs => RecipientIsolation.step_recorded hi hs hinv)

/-- Only items with a destination path have objects. -/
theorem visible_path (h : Run (step cfg) ok initial s) (hi : i ∈ s.db.items)
    (hv : Visible s.db i.id) : i.dst_path ≠ [] := by
  obtain ⟨w, hw, hid⟩ := hv
  obtain ⟨_, key, hr, _⟩ := reachable_recorded h w hw
  obtain ⟨p, hp, d, hd, hentry⟩ := RecipientIsolation.mem_resultReceipts.mp hr
  obtain ⟨row, hrow, hrowid, _, _, hstatus⟩ := (result_entries (reachable_flow h) hp).2 d hd
  unfold RecipientIsolation.entryReceipt at hentry
  split at hentry
  · rename_i hup
    obtain ⟨_, hkey, he⟩ := Option.map_eq_some_iff.mp hentry
    have hdid : d.item_id = w.task_item_id := congrArg Prod.fst he
    have hrowi : row = i := Rows.eq_of_key (reachable_flow h).tables.item_ids hrow hi
      (hrowid.trans (hdid.trans hid))
    rcases hstatus with hf | ⟨_, hk⟩
    · exact absurd (hup.symm.trans hf) (by decide)
    · intro hempty
      rw [hrowi, if_pos hempty, hkey] at hk
      cases hk
  · cases hentry

/-- An item that an application delivers has an object or is listed, unless it has no
destination path: then its receipt has no key, and it is neither. -/
theorem delivered_shown_iff (h : Run (step cfg) ok initial s) (hp : s.results[pid]? = some p)
    (hs : step cfg s (.apply pid) = some s') (hi : i ∈ s.db.items) (hd : Delivers p.message i) :
    Visible s'.db i.id ∨ Reported s.db s'.db i.id ↔ i.dst_path ≠ [] := by
  have hinv := reachable_flow h
  have hmem := List.mem_of_getElem? hp
  obtain ⟨hdistinct, hentries⟩ := result_entries hinv hmem
  obtain ⟨ht, d, hdmem, hid, hst⟩ := hd
  obtain ⟨row, hrow, hrowid, _, _, hstatus⟩ := hentries d hdmem
  have hrowi : row = i := Rows.eq_of_key hinv.tables.item_ids hrow hi (hrowid.trans hid)
  have hkey : d.key = if i.dst_path = [] then none else some i.dst_path := by
    rcases hstatus with hf | ⟨_, hk⟩
    · exact absurd (hst.symm.trans hf) (by decide)
    · rw [← hrowi]
      exact hk
  obtain ⟨m, hm, htask, _⟩ := (hinv.work.results p hmem).message
  obtain ⟨owner, known⟩ := (hinv.messages m (List.mem_of_getElem? hm)).known
  rw [← htask] at known
  obtain ⟨task, hget⟩ : ∃ task, TaskRepo.get s.db p.message.task_id none = some task := by
    obtain ⟨x, hx, hxid, _⟩ := known
    refine ⟨x, ?_⟩
    rw [get_unfiltered, ← hxid]
    exact Rows.find_of_mem hinv.tables.task_ids hx
  obtain ⟨q, hq, hdb⟩ := Option.map_eq_some_iff.mp hs
  rw [hp] at hq
  cases hq
  have hsdb : s'.db = (apply_delivery_result cfg.settings.s3_bucket_name s.db p.message).1 := by
    rw [← hdb]
  rw [hsdb, applied_shown hget]
  constructor
  · intro hshown
    rcases (loop_shown p.message.items).2 hshown with (hv | hl) | ⟨e, he, heid, _, hek⟩
    · exact visible_path h hi hv
    · cases hl
    · have hde : e = d := List.inj_on_of_nodup_map hdistinct he hdmem (heid.trans hid.symm)
      intro hempty
      rw [Keyed, hde, hkey, if_pos hempty] at hek
      cases hek
  · intro hne
    rw [← hid]
    refine loop_shows hinv.tables.item_ids (get_owner hget) hdmem hst ?_ hi hid.symm ht
    rw [Keyed, hkey, if_neg hne]
    simp [Option.filter, hne]

instance (m : DeliveryResultMessage) (i : TaskItem) : Decidable (Delivers m i) :=
  inferInstanceAs (Decidable (_ ∧ ∃ _ ∈ _, _))

/-- A task with one file, uploaded and run; the result is still to be applied. -/
def oneFile (name : Text) : List Action :=
  Sample.confirmed 0 0 [(name, [1])] ++ Sample.upload 0 1 ++ Sample.run 2 0 [none]

/-- There is no workspace for the item's target. -/
theorem unmapped_item_shown : ∃ (s s' : State) (i : TaskItem), s'.db.workspaces = [] ∧
    (Visible s'.db i.id ∨ Reported s.db s'.db i.id) := by
  obtain ⟨s, hrun, hs⟩ := run_of_replay Free
    (p := fun s => s.results[0]?.any (fun p => (step Sample.cfg s (.apply 0)).any (fun t =>
      t.db.workspaces = [] ∧ ∃ i ∈ s.db.items, Delivers p.message i ∧ i.dst_path ≠ [])))
    Sample.cfg initial (oneFile "acme/a.txt") (by decide +kernel)
  obtain ⟨p, hp, hs⟩ := (Option.any_eq_true _ _).mp hs
  obtain ⟨t, ht, hs⟩ := (Option.any_eq_true _ _).mp hs
  obtain ⟨hnone, i, hi, hd, hne⟩ := of_decide_eq_true hs
  exact ⟨s, t, i, hnone, (delivered_shown_iff hrun hp ht hi hd).mpr hne⟩

def listsMissing (e : TaskEvent) : Bool :=
  match e.payload with
  | .workspace_mapping_missing _ _ => true
  | _ => false

/-- A file whose suffix stands for no document type gets a warning and no path. -/
theorem item_without_path_is_silent :
    ¬ ∀ (cfg : Config) (s s' : State) (pid : Nat) (p : Produced) (i : TaskItem),
      Run (step cfg) Free initial s → s.results[pid]? = some p →
      step cfg s (.apply pid) = some s' → i ∈ s.db.items → Delivers p.message i →
      Visible s'.db i.id ∨ Reported s.db s'.db i.id := by
  intro h
  obtain ⟨s, hrun, hs⟩ := run_of_replay Free
    (p := fun s => s.results[0]?.any (fun p => (step Sample.cfg s (.apply 0)).any (fun t =>
      (∃ i ∈ s.db.items, Delivers p.message i) ∧ t.db.workspace_objects = [] ∧
        ∀ e ∈ t.db.events, listsMissing e = false)))
    Sample.cfg initial (oneFile "acme/a.bin" ++ Sample.workspaces) (by decide +kernel)
  obtain ⟨p, hp, hs⟩ := (Option.any_eq_true _ _).mp hs
  obtain ⟨t, ht, hs⟩ := (Option.any_eq_true _ _).mp hs
  obtain ⟨⟨i, hi, hd⟩, hobjects, hevents⟩ := of_decide_eq_true hs
  rcases h Sample.cfg s t 0 p i hrun hp ht hi hd with ⟨w, hw, _⟩ | ⟨new, e, ids, reason, hnew, he, hpay, _⟩
  · rw [hobjects] at hw
    cases hw
  · have := hevents e (hnew ▸ List.mem_append_right _ he)
    simp [listsMissing, hpay] at this

end FileDelivery.Proofs.DeliveredShown
