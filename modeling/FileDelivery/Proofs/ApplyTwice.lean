import FileDelivery.Proofs.ApplyLoop

namespace FileDelivery.Proofs.ApplyTwice
open FileDelivery.Library FileDelivery.Control FileDelivery.Control.WorkspaceRepo
open FileDelivery.Proofs.ApplyResult FileDelivery.Proofs.ApplyLoop

variable {bucket : Text} {task : Task} {m : DeliveryResultMessage} {acc acc' : ApplyState}

/-- A receipt of the item would make a new pair of rows. -/
structure Creates (db : Db) (task : Task) (item : TaskItem) (d : DeliveryResultItemSpec) : Prop where
  key : d.key.filter (· ≠ []) ≠ none
  new : get_object_by_task_item db item.id = none
  target : strip item.target_name_matched ≠ []
  workspace : get_workspace_by_target_key db task.owner_tenant_id
    (strip item.target_name_matched) ≠ none

theorem record_quiet (h : ¬Creates db task item d) :
    (record_uploaded_item db task item d bucket fin).1 = db := by
  unfold record_uploaded_item
  split
  · rfl
  · rename_i key hkey
    split
    · rfl
    · rename_i hnew
      split
      · rfl
      · rename_i htarget
        split
        · rfl
        · rename_i ws hws
          exact absurd ⟨hkey ▸ Option.some_ne_none key, hnew, htarget, by simp [hws]⟩ h

theorem record_creates (h : Creates db task item d) (bucket : Text) (fin : Option Time) :
    ∃ key ws, get_workspace_by_target_key db task.owner_tenant_id (strip item.target_name_matched) =
        some ws ∧
      (record_uploaded_item db task item d bucket fin).1 = recorded db task item d bucket key ws fin := by
  obtain ⟨key, hkey⟩ := Option.ne_none_iff_exists'.mp h.key
  obtain ⟨ws, hws⟩ := Option.ne_none_iff_exists'.mp h.workspace
  refine ⟨key, ws, hws, ?_⟩
  simp only [record_uploaded_item, hkey, h.new, if_neg h.target, hws]
  rfl

/-- What a recorded receipt leaves has no use for the receipt any more. -/
theorem record_settles (db : Db) (task : Task) (item : TaskItem) (d : DeliveryResultItemSpec)
    (bucket : Text) (fin : Option Time) :
    ¬Creates (record_uploaded_item db task item d bucket fin).1 task item d := by
  by_cases h : Creates db task item d
  · obtain ⟨key, ws, hws, he⟩ := record_creates h bucket fin
    rw [he]
    exact fun hc => recorded_object hws hc.new
  · rwa [record_quiet h]

/-- Later states of the tables create no more than earlier ones. -/
theorem Creates.earlier (hg : Grown a b) (hcore : j.core = i.core) (h : Creates b task j d) :
    Creates a task i d := by
  have hid : j.id = i.id := (core_eq_fields hcore).1
  have htarget : j.target_name_matched = i.target_name_matched := by
    simpa [TaskItem.core] using congrArg TaskItem.target_name_matched hcore
  refine ⟨h.key, ?_, htarget ▸ h.target, ?_⟩
  · by_contra hobj
    exact hg.objects i.id hobj (hid ▸ h.new)
  · have := h.workspace
    simpa only [get_workspace_by_target_key, hg.workspaces, htarget] using this

/-- An entry that will create no rows any more. -/
def Spent (db : Db) (task : Task) (m : DeliveryResultMessage) (d : DeliveryResultItemSpec) : Prop :=
  d.status = "uploaded" → ∀ i, named db task m d = some i → ¬Creates db task i d

theorem Spent.later (hg : Grown a b) (h : Spent a task m d) : Spent b task m d := by
  intro hst j hj hc
  have hcore : (named b task m d).map TaskItem.core = (named a task m d).map TaskItem.core := hg.named
  rw [hj, Option.map_some] at hcore
  obtain ⟨i, hi, he⟩ := Option.map_eq_some_iff.mp hcore.symm
  exact h hst i hi (hc.earlier hg he.symm)

/-- The turn of an `uploaded` entry that names a row of the task. -/
theorem turn_uploaded (bucket : Text) (acc : ApplyState) (hst : d.status = "uploaded")
    (hi : named acc.db task m d = some i) :
    (apply_item bucket task m acc d).db =
      (record_uploaded_item (written acc.db d .uploaded "" (some m.ended_at)) task
        (ItemRepo.setUpload .uploaded "" (some m.ended_at) i) d bucket (some m.ended_at)).1 := by
  unfold named at hi
  simp only [apply_item, if_pos hst, ItemRepo.update_upload_status, hi, written]
  split <;> simp [*]

/-- After its turn an entry is spent. -/
theorem turn_spent (bucket : Text) (task : Task) (m : DeliveryResultMessage) (acc : ApplyState)
    (d : DeliveryResultItemSpec) : Spent (apply_item bucket task m acc d).db task m d := by
  intro hst j hj hc
  have hcore : (named (apply_item bucket task m acc d).db task m d).map TaskItem.core =
      (named acc.db task m d).map TaskItem.core := (turn_grown bucket task m acc d).named
  rw [hj, Option.map_some] at hcore
  obtain ⟨i, hi, he⟩ := Option.map_eq_some_iff.mp hcore.symm
  rw [turn_uploaded bucket acc hst hi] at hc
  have hsame : Creates _ task (ItemRepo.setUpload .uploaded "" (some m.ended_at) i) d :=
    hc.earlier (.refl _) he.symm
  exact record_settles _ task _ d bucket _ hsame

/-- The turn of a spent entry adds no rows. -/
theorem turn_quiet (bucket : Text) (acc : ApplyState) (h : Spent acc.db task m d) :
    (apply_item bucket task m acc d).db.workspace_objects = acc.db.workspace_objects ∧
      (apply_item bucket task m acc d).db.physical_objects = acc.db.physical_objects := by
  by_cases hst : d.status = "uploaded"
  · cases hi : named acc.db task m d with
    | none =>
      unfold named at hi
      simp [apply_item, hst, ItemRepo.update_upload_status, hi]
    | some i =>
      rw [turn_uploaded bucket acc hst hi, record_quiet]
      · exact ⟨rfl, rfl⟩
      · intro hc
        have hsame : Creates acc.db task i d :=
          Creates.earlier (i := i) (written_grown acc.db d _ _ _) (ItemRepo.core_setUpload i) hc
        exact h hst i hi hsame
  · have hturn := apply_item_turn bucket task m acc d
    generalize apply_item bucket task m acc d = next at hturn ⊢
    cases hturn with
    | uploaded _ _ _ hup => exact absurd hup hst
    | _ => exact ⟨rfl, rfl⟩

theorem loop_spent (bucket : Text) (task : Task) (m : DeliveryResultMessage) (acc : ApplyState)
    (ds : List DeliveryResultItemSpec) :
    ∀ d ∈ ds, Spent (ds.foldl (apply_item bucket task m) acc).db task m d := by
  induction ds generalizing acc with
  | nil => simp
  | cons d ds ih =>
    intro e he
    rcases List.mem_cons.mp he with rfl | he
    · exact (turn_spent bucket task m acc e).later (loop_grown bucket task m _ ds)
    · exact ih _ e he

theorem loop_quiet (bucket : Text) (task : Task) (m : DeliveryResultMessage) (acc : ApplyState)
    (ds : List DeliveryResultItemSpec) (h : ∀ d ∈ ds, Spent acc.db task m d) :
    (ds.foldl (apply_item bucket task m) acc).db.workspace_objects = acc.db.workspace_objects ∧
      (ds.foldl (apply_item bucket task m) acc).db.physical_objects = acc.db.physical_objects := by
  induction ds generalizing acc with
  | nil => exact ⟨rfl, rfl⟩
  | cons d ds ih =>
    obtain ⟨hobjects, hphysical⟩ := turn_quiet bucket acc (h d List.mem_cons_self)
    have hrest : ∀ e ∈ ds, Spent (apply_item bucket task m acc d).db task m e :=
      fun e he => (h e (List.mem_cons_of_mem _ he)).later (turn_grown bucket task m acc d)
    obtain ⟨hobjects', hphysical'⟩ := ih _ hrest
    exact ⟨hobjects'.trans hobjects, hphysical'.trans hphysical⟩

/-- What one entry does to one row, if the loop accepts it. -/
def rewrite (db : Db) (task : Task) (m : DeliveryResultMessage) (i : TaskItem)
    (d : DeliveryResultItemSpec) : TaskItem :=
  if accepts db task m d = true ∧ i.id = d.item_id then ((setting m d).getD id) i else i

theorem rewrite_core : (rewrite db task m i d).core = i.core := by
  unfold rewrite
  split
  · cases hf : setting m d with
    | none => rfl
    | some f => exact setting_core hf i
  · rfl

theorem rewrites_core (ds : List DeliveryResultItemSpec) :
    (ds.foldl (rewrite db task m) i).core = i.core := by
  induction ds generalizing i with
  | nil => rfl
  | cons d ds ih => rw [List.foldl_cons, ih, rewrite_core]

/-- The items after the loop, by what is accepted at its start. -/
theorem loop_items (bucket : Text) (task : Task) (m : DeliveryResultMessage) (acc : ApplyState)
    (ds : List DeliveryResultItemSpec) :
    (ds.foldl (apply_item bucket task m) acc).db.items =
      acc.db.items.map (fun i => ds.foldl (rewrite acc.db task m) i) := by
  induction ds generalizing acc with
  | nil => simp
  | cons d ds ih =>
    have hsame : rewrite (apply_item bucket task m acc d).db task m = rewrite acc.db task m := by
      funext i e
      simp only [rewrite, (turn_grown bucket task m acc d).accepts]
    rw [List.foldl_cons, ih, hsame]
    have hitems : (apply_item bucket task m acc d).db.items =
        acc.db.items.map (fun i => rewrite acc.db task m i d) := by
      rcases turn_counts bucket task m acc d with ⟨hno, he⟩ | ⟨hyes, f, hf, _, _, he⟩
      · simp [he, rewrite, hno]
      · rw [he, Rows.update]
        simp [rewrite, hyes, hf]
    rw [hitems, List.map_map]
    rfl

/-- Rows that differ in their upload columns at most come out equal where an entry
is accepted for them. -/
theorem rewrites_agree {ds : List DeliveryResultItemSpec} (hcore : i.core = j.core) (hd : d ∈ ds)
    (hacc : accepts db task m d = true) (hid : i.id = d.item_id) :
    ds.foldl (rewrite db task m) i = ds.foldl (rewrite db task m) j := by
  induction ds generalizing i j with
  | nil => cases hd
  | cons e ds ih =>
    have hsame : j.id = i.id := (core_eq_fields hcore).1.symm
    by_cases he : accepts db task m e = true ∧ i.id = e.item_id
    · obtain ⟨f, hf⟩ := Option.isSome_iff_exists.mp (Bool.and_eq_true_iff.mp he.1).1
      obtain ⟨st, err, fin, rfl⟩ := setting_form hf
      have : ItemRepo.setUpload st err fin i = ItemRepo.setUpload st err fin j := by
        change ItemRepo.setUpload st err fin i.core = ItemRepo.setUpload st err fin j.core
        rw [hcore]
      simp only [List.foldl_cons, rewrite, he.1, he.2, hsame, hf, this, Option.getD_some, and_self,
        if_true]
    · have hj : ¬(accepts db task m e = true ∧ j.id = e.item_id) := hsame ▸ he
      rcases List.mem_cons.mp hd with rfl | hd
      · exact absurd ⟨hacc, hid⟩ he
      · simp only [List.foldl_cons, rewrite, if_neg he, if_neg hj]
        exact ih hcore hd hid

theorem rewrites_none {ds : List DeliveryResultItemSpec}
    (h : ∀ d ∈ ds, ¬(accepts db task m d = true ∧ i.id = d.item_id)) :
    ds.foldl (rewrite db task m) i = i := by
  induction ds with
  | nil => rfl
  | cons d ds ih =>
    rw [List.foldl_cons, rewrite, if_neg (h d List.mem_cons_self)]
    exact ih (fun e he => h e (List.mem_cons_of_mem _ he))

theorem rewrites_twice (db : Db) (task : Task) (m : DeliveryResultMessage)
    (ds : List DeliveryResultItemSpec) (i : TaskItem) :
    ds.foldl (rewrite db task m) (ds.foldl (rewrite db task m) i) = ds.foldl (rewrite db task m) i := by
  by_cases h : ∃ d ∈ ds, accepts db task m d = true ∧ i.id = d.item_id
  · obtain ⟨d, hd, hacc, hid⟩ := h
    have hcore : (ds.foldl (rewrite db task m) i).core = i.core := rewrites_core ds
    exact rewrites_agree hcore hd hacc ((core_eq_fields hcore).1.trans hid)
  · have hnone : ds.foldl (rewrite db task m) i = i :=
      rewrites_none (fun d hd hboth => h ⟨d, hd, hboth⟩)
    rw [hnone, hnone]

/-- The database between two applications: any time may pass. -/
def later (db : Db) (now : Time) : Db := { db with now := now }

theorem later_grown (db : Db) (now : Time) : Grown db (later db now) :=
  ⟨fun _ _ => rfl, rfl, rfl, fun _ h => h⟩

theorem owners_settled (m : DeliveryResultMessage) (h : b.tasks = Rows.update a.tasks k (settleTask m))
    (ten : Option String) (t : Nat) : ItemRepo.ownerAllows b ten t = ItemRepo.ownerAllows a ten t := by
  cases ten with
  | none => rfl
  | some ten =>
    simp only [ItemRepo.ownerAllows, h, Rows.update, List.any_map]
    congr 1
    funext task
    simp only [Function.comp_apply]
    split <;> rfl

theorem objects_same (ho : b.workspace_objects = a.workspace_objects)
    (hp : b.physical_objects = a.physical_objects) (hws : b.workspaces = a.workspaces) (k : Nat) :
    get_object_by_task_item b k = get_object_by_task_item a k := by
  simp only [get_object_by_task_item, ho, hp, hws]

/-- The database after the loop of an application. -/
def looped (bucket : Text) (db : Db) (task : Task) (m : DeliveryResultMessage) : ApplyState :=
  m.items.foldl (apply_item bucket task m) ⟨db, 0, [], 0, []⟩

def summary (m : DeliveryResultMessage) (acc : ApplyState) : DeliveryResultApplySummary :=
  ⟨m.task_id, m.status, m.uploaded, m.failed, m.processed, acc.applied_items, acc.missing_items⟩

theorem applied_eq (bucket : Text) (hget : TaskRepo.get db m.task_id none = some task) :
    apply_delivery_result bucket db m =
      (finish_apply task m (looped bucket db task m), summary m (looped bucket db task m)) := by
  simp only [apply_delivery_result, hget, looped, summary]

/-- The end of an application keeps what the loop has grown. -/
theorem finish_grown (bucket : Text) (hget : TaskRepo.get db m.task_id none = some task) :
    Grown (looped bucket db task m).db (apply_delivery_result bucket db m).1 := by
  have hframe : SameFrame db (looped bucket db task m).db :=
    apply_loop_frame bucket task m ⟨db, 0, [], 0, []⟩ m.items
  have htasks := apply_tasks bucket db m
  rw [← hframe.tasks] at htasks
  obtain ⟨hitems, hp, ho, hws, _, _⟩ := finish_same task m (looped bucket db task m)
  rw [applied_eq bucket hget] at htasks ⊢
  refine ⟨owners_settled m htasks, hws, congrArg (List.map TaskItem.core) hitems, fun k hk => ?_⟩
  rwa [objects_same ho hp hws]

/-- The settled row has the same owner and key. -/
theorem looped_settled (bucket : Text) (db : Db) (task : Task) (m n : DeliveryResultMessage) :
    looped bucket db (settleTask n task) m = looped bucket db task m := rfl

theorem get_settled (bucket : Text) (now : Time) (hget : TaskRepo.get db m.task_id none = some task) :
    TaskRepo.get (later (apply_delivery_result bucket db m).1 now) m.task_id none =
      some (settleTask m task) := by
  have hfind : Rows.find? (Rows.update db.tasks m.task_id (settleTask m)) m.task_id =
      (Rows.find? db.tasks m.task_id).map (fun t =>
        if m.task_id = m.task_id then settleTask m t else t) := Rows.find_update (fun _ => rfl)
  rw [get_unfiltered, later, apply_tasks, hfind, get_find hget]
  simp

theorem tasks_twice (bucket : Text) (db : Db) (m : DeliveryResultMessage) (now : Time) :
    (apply_delivery_result bucket (later (apply_delivery_result bucket db m).1 now) m).1.tasks =
      (apply_delivery_result bucket db m).1.tasks := by
  rw [apply_tasks, later, apply_tasks, Rows.update_update (f := settleTask m) (fun _ => rfl)]
  rfl

/-- A loop over items that the same loop has left writes nothing new. -/
theorem items_twice (hgrown : Grown a b) (hitems : b.items = (looped bucket a task m).db.items) :
    (looped bucket b task m).db.items = b.items := by
  have hsame : rewrite b task m = rewrite a task m := by
    funext i d
    simp only [rewrite, hgrown.accepts]
  have hloop : ∀ db, (looped bucket db task m).db.items =
      db.items.map (fun i => m.items.foldl (rewrite db task m) i) :=
    fun db => loop_items bucket task m ⟨db, 0, [], 0, []⟩ m.items
  rw [hloop, hitems, hloop, hsame, List.map_map]
  exact List.map_congr_left (fun i _ => rewrites_twice a task m m.items i)

theorem objects_twice (hgrown : Grown (looped bucket a task m).db b) :
    (looped bucket b task m).db.workspace_objects = b.workspace_objects ∧
      (looped bucket b task m).db.physical_objects = b.physical_objects := by
  refine loop_quiet bucket task m ⟨b, 0, [], 0, []⟩ m.items ?_
  intro d hd
  exact (loop_spent bucket task m ⟨a, 0, [], 0, []⟩ m.items d hd).later hgrown

theorem summary_twice (hgrown : Grown a b) :
    summary m (looped bucket b task m) = summary m (looped bucket a task m) := by
  have hsame : accepts b task m = accepts a task m := funext fun _ => hgrown.accepts
  obtain ⟨happlied, hmissing⟩ := loop_counts bucket task m ⟨a, 0, [], 0, []⟩ m.items
  obtain ⟨happlied', hmissing'⟩ := loop_counts bucket task m ⟨b, 0, [], 0, []⟩ m.items
  simp only [summary, looped, happlied, hmissing, happlied', hmissing', hsame]

/-- Applying a result a second time, at whatever time, changes no task, item, workspace
object or physical object, and returns the same summary. -/
theorem applied_twice (bucket : Text) (db : Db) (m : DeliveryResultMessage) (now : Time) :
    let once := apply_delivery_result bucket db m
    let twice := apply_delivery_result bucket (later once.1 now) m
    twice.1.tasks = once.1.tasks ∧ twice.1.items = once.1.items ∧
      twice.1.workspace_objects = once.1.workspace_objects ∧
      twice.1.physical_objects = once.1.physical_objects ∧ twice.2 = once.2 := by
  intro once twice
  refine ⟨tasks_twice bucket db m now, ?_⟩
  cases hget : TaskRepo.get db m.task_id none with
  | none =>
    have hagain : TaskRepo.get (later db now) m.task_id none = none := hget
    have htwice : twice = (later db now, once.2) := by
      simp only [twice, once, apply_delivery_result, hget, hagain]
    have honce : once.1 = db := apply_missing hget
    rw [htwice, honce]
    exact ⟨rfl, rfl, rfl, rfl⟩
  | some task =>
    have htwice := applied_eq bucket (get_settled bucket now hget)
    rw [looped_settled] at htwice
    have hend : Grown (looped bucket db task m).db (later once.1 now) :=
      (finish_grown bucket hget).trans (later_grown _ now)
    have hgrown : Grown db (later once.1 now) :=
      (loop_grown bucket task m ⟨db, 0, [], 0, []⟩ m.items).trans hend
    have hitems : once.1.items = (looped bucket db task m).db.items := by
      rw [show once = _ from applied_eq bucket hget]
      exact (finish_same task m _).1
    obtain ⟨hi, hp, ho, _⟩ :=
      finish_same (settleTask m task) m (looped bucket (later once.1 now) task m)
    obtain ⟨hobjects, hphysical⟩ := objects_twice hend
    rw [show twice = _ from htwice]
    refine ⟨hi.trans (items_twice hgrown hitems), ho.trans hobjects, hp.trans hphysical, ?_⟩
    rw [show once = _ from applied_eq bucket hget]
    exact summary_twice hgrown

end FileDelivery.Proofs.ApplyTwice
