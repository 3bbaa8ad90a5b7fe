import FileDelivery.Proofs.ItemNames

namespace FileDelivery.Proofs.Reclassify
open FileDelivery.Library FileDelivery.Library.Fallible FileDelivery.Control
open FileDelivery.Control.Classifier FileDelivery.Proofs.ApplyResult FileDelivery.Proofs.Effects
open FileDelivery.Proofs.ItemNames FileDelivery.Bridge

def taskRows (db : Db) (t : Nat) : List TaskItem := db.items.filter (·.task_id == t)

/-- The task's items and its summary are those of its archive under the profile. -/
def Describes (py : Python) (dir : TaskDir) (t : Nat) (db : Db) (profile : ProfileConfig) : Prop :=
  ∃ archive items summary, dir.archive = some archive ∧
    classify_zip py profile archive = some (items, summary) ∧
    ((taskRows db t).map unkeyed).Perm (items.map Tasks.itemRow) ∧
    (Rows.find? db.tasks t).bind (·.summary_json) = some summary

/-- Each request of a sequence succeeds and leaves what its own profile says. -/
def Repeatable (py : Python) (dir : TaskDir) (t : Nat) : Db → List (CurrentActor × ProfileConfig) → Prop
  | _, [] => True
  | db, (actor, profile) :: rest =>
    ∃ db', Tasks.classify_task py profile dir db actor t = .ok db' ∧ Describes py dir t db' profile ∧
      Repeatable py dir t db' rest

/-- The archive opens, the profile's template renders, and its items have distinct names. -/
def Classifies (py : Python) (dir : TaskDir) (profile : ProfileConfig) : Prop :=
  ∃ archive ∈ dir.archive, (classify_zip py profile archive).isSome ∧
    (itemNames py profile archive).Nodup

/-- The profile makes no item of the archive. -/
def Itemless (py : Python) (dir : TaskDir) (profile : ProfileConfig) : Prop :=
  ∀ archive ∈ dir.archive, itemNames py profile archive = []

/-- The actor may classify the task. -/
def Allowed (task : Task) (actor : CurrentActor) : Prop :=
  actor.can_write_tasks = true ∧ actor.tenant_id = task.owner_tenant_id

theorem allowed_read (ht : Rows.find? db.tasks t = some task) (ha : Allowed task actor) :
    Tasks.readTask db actor t = .ok task := by
  have hget : TaskRepo.get db t (some actor.tenant_id) = some task :=
    Option.filter_eq_some_iff.mpr ⟨ht, by simp [tenantAllows, ha.2]⟩
  simp [Tasks.readTask, ha.1, hget]

/-- The rows of a task after an insert: those it had, and the new ones. -/
theorem insert_rows (h : ItemRepo.bulk_insert db t rows = some db') :
    db'.tasks = db.tasks ∧ ∃ new, taskRows db' t = taskRows db t ++ new ∧
      new.map unkeyed = rows.map unkeyed ∧
      new.map TaskItem.src_path = rows.map TaskItem.src_path := by
  obtain ⟨new, hitems, htasks, heach, hcontent, hpaths⟩ := insert_appends h
  refine ⟨htasks, new, ?_, hcontent, hpaths⟩
  have : new.filter (·.task_id == t) = new :=
    List.filter_eq_self.mpr (fun i hi => by simpa using (heach i hi).1)
  rw [taskRows, hitems, List.filter_append, this, taskRows]

/-- The row that a status write leaves. -/
theorem update_status_find (ht : Rows.find? db.tasks t = some task)
    (hten : tenantAllows ten task.owner_tenant_id = true) :
    Rows.find? (TaskRepo.update_status db t st ten c f).tasks t =
      some { task with
        status := st
        confirmed_at := c.or task.confirmed_at
        finished_at := f.or task.finished_at } := by
  have hget : TaskRepo.get db t ten = some task := Option.filter_eq_some_iff.mpr ⟨ht, hten⟩
  simp only [TaskRepo.update_status, hget]
  rw [Rows.find_update (fun _ => by rfl), ht]
  simp

theorem append_tasks_find : Rows.find? (EventRepo.append db t p).tasks k = Rows.find? db.tasks k := rfl

/-- What a successful request does to the task and its items. -/
theorem classified_spec (ht : Rows.find? db.tasks t = some task) (ha : Allowed task actor)
    (h : Tasks.classify_task py profile dir db actor t = .ok db') :
    ∃ archive items summary new, dir.archive = some archive ∧
      classify_zip py profile archive = some (items, summary) ∧
      (taskPaths db t ++ itemNames py profile archive).Nodup ∧
      taskRows db' t = taskRows db t ++ new ∧ new.map unkeyed = items.map Tasks.itemRow ∧
      taskPaths db' t = taskPaths db t ++ itemNames py profile archive ∧
      ∃ task', Rows.find? db'.tasks t = some task' ∧ task'.owner_tenant_id = task.owner_tenant_id ∧
        task'.summary_json = some summary := by
  obtain ⟨archive, items, summary, inserted, harchive, hzip, _, hinsert, rfl⟩ := classify_spec h
  obtain ⟨htasks, new, hrows, hcontent, hpaths⟩ := insert_rows hinsert
  have hnodup := (insert_iff db t _).mp (by rw [hinsert]; rfl)
  rw [row_paths, classified_names hzip] at hnodup
  generalize hsummed : ({ inserted with
    tasks := Rows.update inserted.tasks t (Tasks.setSummary summary) } : Db) = summed
  have hitems := (update_status_same summed t .classified (some actor.tenant_id) none none).1
  have hafter : taskRows (EventRepo.append
      (TaskRepo.update_status summed t .classified (some actor.tenant_id) none none) t
      (.classified actor summary)) t = taskRows db t ++ new := by
    rw [← hrows, taskRows, append_items, hitems, ← hsummed]
    rfl
  have hfind : Rows.find? summed.tasks t = some (Tasks.setSummary summary task) := by
    rw [← hsummed]
    show Rows.find? (Rows.update inserted.tasks t (Tasks.setSummary summary)) t = _
    rw [Rows.find_update (fun _ => by rfl), htasks, ht]
    simp
  refine ⟨archive, items, summary, new, harchive, hzip, hnodup, hafter, ?_, ?_, ?_⟩
  · rw [hcontent, List.map_map]
    rfl
  · rw [taskPaths]
    show List.map TaskItem.src_path (taskRows _ t) = _
    rw [hafter, List.map_append, hpaths, row_paths, classified_names hzip]
    rfl
  · have hten : tenantAllows (some actor.tenant_id) (Tasks.setSummary summary task).owner_tenant_id =
        true := by
      simp [tenantAllows, Tasks.setSummary, ha.2]
    rw [append_tasks_find, update_status_find hfind hten]
    exact ⟨_, rfl, rfl, rfl⟩

theorem classifies_ok (ht : Rows.find? db.tasks t = some task) (ha : Allowed task actor)
    (hempty : taskPaths db t = []) (hc : Classifies py dir profile) :
    ∃ db', Tasks.classify_task py profile dir db actor t = .ok db' := by
  obtain ⟨archive, harchive, hzip, hnodup⟩ := hc
  have harchive : dir.archive = some archive := harchive
  obtain ⟨⟨items, summary⟩, hzip⟩ := Option.isSome_iff_exists.mp hzip
  have hinsert : (ItemRepo.bulk_insert db t (items.map Tasks.itemRow)).isSome := by
    rw [insert_iff, row_paths, classified_names hzip, hempty, List.nil_append]
    exact hnodup
  obtain ⟨inserted, hinsert⟩ := Option.isSome_iff_exists.mp hinsert
  rw [Tasks.classify_task, allowed_read ht ha]
  simp only [Except.bind, harchive, hzip, hinsert]
  exact ⟨_, rfl⟩

/-- One request leaves exactly what its profile says just on a task without items. -/
theorem described_iff (ht : Rows.find? db.tasks t = some task) (ha : Allowed task actor)
    (h : Tasks.classify_task py profile dir db actor t = .ok db') :
    Describes py dir t db' profile ↔ taskPaths db t = [] := by
  obtain ⟨archive, items, summary, new, harchive, hzip, _, hrows, hnew, _, task', ht', _, hsummary⟩ :=
    classified_spec ht ha h
  constructor
  · intro h
    obtain ⟨archive', items', summary', harchive', hzip', hperm, _⟩ := h
    obtain rfl : archive = archive' := Option.some.inj (harchive.symm.trans harchive')
    obtain ⟨rfl, rfl⟩ := Prod.mk.inj (Option.some.inj (hzip.symm.trans hzip'))
    have hlen := hperm.length_eq
    rw [hrows, List.map_append, hnew, List.length_append, List.length_map] at hlen
    have : taskRows db t = [] := List.eq_nil_of_length_eq_zero (by omega)
    show List.map TaskItem.src_path (taskRows db t) = []
    rw [this]
    rfl
  · intro hempty
    have : taskRows db t = [] := List.map_eq_nil_iff.mp hempty
    refine ⟨archive, items, summary, harchive, hzip, ?_, ?_⟩
    · rw [hrows, this, List.nil_append, hnew]
    · rw [ht']
      exact hsummary

/-- Requests can be repeated only while they find the task without items, so that all but
the last make none. -/
theorem repeatable_iff (py : Python) (dir : TaskDir) (requests : List (CurrentActor × ProfileConfig))
    (ht : Rows.find? db.tasks t = some task) (ha : ∀ r ∈ requests, Allowed task r.1) :
    Repeatable py dir t db requests ↔
      requests = [] ∨ (taskPaths db t = [] ∧ (∀ r ∈ requests, Classifies py dir r.2) ∧
        ∀ r ∈ requests.dropLast, Itemless py dir r.2) := by
  induction requests generalizing db task with
  | nil => simp [Repeatable]
  | cons request rest ih =>
    obtain ⟨actor, profile⟩ := request
    have hactor : Allowed task actor := ha _ List.mem_cons_self
    -- A successful request leaves a task for which the induction hypothesis speaks.
    have hnext : ∀ db', Tasks.classify_task py profile dir db actor t = .ok db' →
        (Repeatable py dir t db' rest ↔ rest = [] ∨ (taskPaths db' t = [] ∧
          (∀ r ∈ rest, Classifies py dir r.2) ∧ ∀ r ∈ rest.dropLast, Itemless py dir r.2)) := by
      intro db' h
      obtain ⟨_, _, _, _, _, _, _, _, _, _, task', ht', howner, _⟩ := classified_spec ht hactor h
      refine ih ht' (fun r hr => ?_)
      have := ha r (List.mem_cons_of_mem _ hr)
      exact ⟨this.1, this.2.trans howner.symm⟩
    constructor
    · intro h
      obtain ⟨db', hok, hdesc, hrest⟩ := h
      have hempty := (described_iff ht hactor hok).mp hdesc
      obtain ⟨archive, items, summary, _, harchive, hzip, hnodup, _, _, hpaths, _⟩ :=
        classified_spec ht hactor hok
      have hclass : Classifies py dir profile :=
        ⟨archive, harchive, by rw [hzip]; rfl, (List.nodup_append.mp hnodup).2.1⟩
      refine .inr ⟨hempty, ?_⟩
      rcases (hnext db' hok).mp hrest with rfl | ⟨hempty', hclasses, hless⟩
      · exact ⟨by simpa using hclass, by simp⟩
      · refine ⟨List.forall_mem_cons.mpr ⟨hclass, hclasses⟩, ?_⟩
        by_cases hr : rest = []
        · simp [hr]
        · rw [List.dropLast_cons_of_ne_nil hr]
          refine List.forall_mem_cons.mpr ⟨fun archive' ha' => ?_, hless⟩
          obtain rfl : archive = archive' := Option.some.inj (harchive.symm.trans ha')
          rw [hpaths] at hempty'
          exact (List.append_eq_nil_iff.mp hempty').2
    · rintro (h | ⟨hempty, hclasses, hless⟩)
      · cases h
      · obtain ⟨db', hok⟩ := classifies_ok ht hactor hempty (hclasses _ List.mem_cons_self)
        refine ⟨db', hok, (described_iff ht hactor hok).mpr hempty, (hnext db' hok).mpr ?_⟩
        by_cases hr : rest = []
        · exact .inl hr
        · rw [List.dropLast_cons_of_ne_nil hr] at hless
          obtain ⟨archive, _, _, _, harchive, _, _, _, _, hpaths, _⟩ := classified_spec ht hactor hok
          refine .inr ⟨?_, fun r hm => hclasses r (List.mem_cons_of_mem _ hm),
            fun r hm => hless r (List.mem_cons_of_mem _ hm)⟩
          rw [hpaths, hempty, List.nil_append]
          exact hless _ List.mem_cons_self archive harchive

/-- The draft of one file. -/
def sampleDraft : Db :=
  EventRepo.append { initial.db with
    tasks := [Tasks.draftTask Sample.cfg.settings initial.db Sample.actor "k" "acme"]
    next_id := 1 } 0 (.task_created Sample.actor "acme")

def sampleDir : TaskDir where
  archive := some [⟨"acme/a.txt", [1]⟩]
  files := [(["acme", "a.txt"], [1])]

example : Tasks.create_task Sample.py Sample.cfg.settings initial.db Sample.actor "k"
    [("acme/a.txt", [1])] none = .ok (.created sampleDraft 0 sampleDir) := rfl

theorem first_classification_described :
    Repeatable Sample.py sampleDir 0 sampleDraft [(Sample.actor, Sample.profile)] := by
  refine (repeatable_iff _ _ _ rfl ?_).mpr (.inr ⟨rfl, ?_, by simp⟩)
  · intro r hr
    rw [List.mem_singleton.mp hr]
    exact ⟨rfl, rfl⟩
  · intro r hr
    rw [List.mem_singleton.mp hr]
    exact ⟨_, rfl, by decide, by decide⟩

/-- The same request again meets the rows of the first. -/
theorem second_classification_fails :
    ¬Repeatable Sample.py sampleDir 0 sampleDraft
      [(Sample.actor, Sample.profile), (Sample.actor, Sample.profile)] := by
  intro h
  obtain ⟨db, hfirst, _, db', hsecond, _⟩ := h
  obtain ⟨archive, _, _, _, harchive, _, _, _, _, hpaths, task, ht, howner, _⟩ :=
    classified_spec rfl ⟨rfl, rfl⟩ hfirst
  obtain ⟨archive', _, _, _, harchive', _, hnodup, _⟩ :=
    classified_spec ht ⟨rfl, howner.symm⟩ hsecond
  obtain rfl : archive' = archive := Option.some.inj (harchive'.symm.trans harchive)
  obtain rfl : [⟨"acme/a.txt", [1]⟩] = archive' := Option.some.inj harchive
  rw [hpaths] at hnodup
  exact absurd hnodup (by decide)

end FileDelivery.Proofs.Reclassify
