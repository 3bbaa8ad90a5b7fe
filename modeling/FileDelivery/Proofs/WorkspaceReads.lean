import FileDelivery.Bridge.Replay
import FileDelivery.Control.Workspaces
import Mathlib.Data.String.Basic

namespace FileDelivery.Proofs.WorkspaceReads
open FileDelivery.Library FileDelivery.Control FileDelivery.Control.WorkspaceRepo
open FileDelivery.Control.Workspaces

/-- Primary keys are distinct. -/
structure Keyed (db : Db) : Prop where
  workspaces : (db.workspaces.map Workspace.id).Nodup
  objects : (db.workspace_objects.map WorkspaceObject.id).Nodup
  physical : (db.physical_objects.map PhysicalObject.id).Nodup

variable (tenant_id : String) (scope : WorkspaceAccessScope)

def Visible (w : Workspace) : Prop := visible tenant_id scope w = true

instance (w : Workspace) : Decidable (Visible tenant_id scope w) :=
  inferInstanceAs (Decidable (_ = true))

/-- An object of a visible workspace. -/
def Reachable (db : Db) (o : WorkspaceObject) : Prop :=
  o ∈ db.workspace_objects ∧ ∃ w ∈ db.workspaces, Visible tenant_id scope w ∧ w.id = o.workspace_id

/-- Two databases that a tenant cannot tell apart by what it may see. -/
structure SameView (a b : Db) : Prop where
  workspaces : ∀ w, Visible tenant_id scope w → (w ∈ a.workspaces ↔ w ∈ b.workspaces)
  objects : ∀ o, Reachable tenant_id scope a o ↔ Reachable tenant_id scope b o
  physical : ∀ p o, Reachable tenant_id scope a o → o.physical_object_id = p.id →
    (p ∈ a.physical_objects ↔ p ∈ b.physical_objects)

variable {tenant_id : String} {scope : WorkspaceAccessScope}

theorem workspace_found (hk : Keyed db) :
    db.workspaces.find? (·.id == k) = some w ↔ w ∈ db.workspaces ∧ w.id = k :=
  Rows.find_iff hk.workspaces

theorem physical_found (hk : Keyed db) :
    Rows.find? db.physical_objects k = some p ↔ p ∈ db.physical_objects ∧ p.id = k :=
  Rows.find_iff hk.physical

/-- The rows of the join. -/
theorem mem_joined (hk : Keyed db) : r ∈ joined db ↔
    r.workspace_object ∈ db.workspace_objects ∧ r.physical_object ∈ db.physical_objects ∧
      r.workspace ∈ db.workspaces ∧ r.physical_object.id = r.workspace_object.physical_object_id ∧
      r.workspace.id = r.workspace_object.workspace_id := by
  simp only [joined, List.mem_filterMap, Option.bind_eq_some_iff, Option.map_eq_some_iff,
    physical_found hk, workspace_found hk]
  constructor
  · intro h
    obtain ⟨o, ho, p, ⟨hp, hpid⟩, w, ⟨hw, hwid⟩, rfl⟩ := h
    exact ⟨ho, hp, hw, hpid, hwid⟩
  · intro h
    obtain ⟨ho, hp, hw, hpid, hwid⟩ := h
    exact ⟨_, ho, _, ⟨hp, hpid⟩, _, ⟨hw, hwid⟩, rfl⟩

/-- An object stands in one row of the join. -/
theorem joined_unique (hk : Keyed db) (hr : r ∈ joined db) (hq : q ∈ joined db)
    (h : r.workspace_object.id = q.workspace_object.id) : r = q := by
  obtain ⟨hro, hrp, hrw, hrpid, hrwid⟩ := (mem_joined hk).mp hr
  obtain ⟨hqo, hqp, hqw, hqpid, hqwid⟩ := (mem_joined hk).mp hq
  have ho : r.workspace_object = q.workspace_object := List.inj_on_of_nodup_map hk.objects hro hqo h
  have hp : r.physical_object = q.physical_object :=
    List.inj_on_of_nodup_map hk.physical hrp hqp (by rw [hrpid, hqpid, ho])
  have hw : r.workspace = q.workspace :=
    List.inj_on_of_nodup_map hk.workspaces hrw hqw (by rw [hrwid, hqwid, ho])
  cases r
  cases q
  simp_all

theorem joined_nodup (hk : Keyed db) : (joined db).Nodup := by
  refine (List.Nodup.of_map _ hk.objects).filterMap ?_
  intro o o' r hr hr'
  obtain ⟨_, _, hr⟩ := Option.bind_eq_some_iff.mp hr
  obtain ⟨_, _, rfl⟩ := Option.map_eq_some_iff.mp hr
  obtain ⟨_, _, hr'⟩ := Option.bind_eq_some_iff.mp hr'
  obtain ⟨_, _, he⟩ := Option.map_eq_some_iff.mp hr'
  exact (congrArg WorkspaceObjectRecord.workspace_object he).symm

theorem SameView.symm (h : SameView tenant_id scope a b) : SameView tenant_id scope b a :=
  ⟨fun w hw => (h.workspaces w hw).symm, fun o => (h.objects o).symm,
    fun p o ho hp => (h.physical p o ((h.objects o).mpr ho) hp).symm⟩

/-- The join shows the same rows of visible workspaces. -/
theorem joined_sub (ha : Keyed a) (hb : Keyed b) (h : SameView tenant_id scope a b)
    (hv : Visible tenant_id scope r.workspace) (hr : r ∈ joined a) : r ∈ joined b := by
  obtain ⟨ho, hp, hw, hpid, hwid⟩ := (mem_joined ha).mp hr
  have hreach : Reachable tenant_id scope a r.workspace_object := ⟨ho, _, hw, hv, hwid⟩
  exact (mem_joined hb).mpr ⟨((h.objects _).mp hreach).1, (h.physical _ _ hreach hpid.symm).mp hp,
    (h.workspaces _ hv).mp hw, hpid, hwid⟩

theorem joined_same (ha : Keyed a) (hb : Keyed b) (h : SameView tenant_id scope a b)
    (hv : Visible tenant_id scope r.workspace) : r ∈ joined a ↔ r ∈ joined b :=
  ⟨joined_sub ha hb h hv, joined_sub hb ha h.symm hv⟩

theorem list_workspaces_same (ha : Keyed a) (hb : Keyed b) (h : SameView tenant_id scope a b) :
    WorkspaceRepo.list_workspaces a tenant_id scope =
      WorkspaceRepo.list_workspaces b tenant_id scope := by
  refine Rows.sorted_unique Workspace.name Workspace.id (fun _ _ => .rfl) ?_
    ((List.Nodup.of_map _ ha.workspaces).filter _) ((List.Nodup.of_map _ hb.workspaces).filter _) ?_
  · intro v hv w hw hid
    exact List.inj_on_of_nodup_map ha.workspaces (List.mem_of_mem_filter hv)
      (List.mem_of_mem_filter hw) hid
  · intro w
    simp only [List.mem_filter]
    exact and_congr_left (h.workspaces w)

theorem get_workspace_same (ha : Keyed a) (h : SameView tenant_id scope a b) (t : Text) :
    get_workspace a t tenant_id scope = get_workspace b t tenant_id scope := by
  refine Rows.find_unique ?_ ?_
  · intro v hv w hw hvt hwt
    simp only [Bool.and_eq_true, beq_iff_eq] at hvt hwt
    exact List.inj_on_of_nodup_map ha.workspaces hv hw (idText_injective (hvt.1.trans hwt.1.symm))
  · intro w hw
    simp only [Bool.and_eq_true] at hw
    exact h.workspaces w hw.2

theorem get_object_same (ha : Keyed a) (hb : Keyed b) (h : SameView tenant_id scope a b) (t : Text) :
    get_object a t tenant_id scope = get_object b t tenant_id scope := by
  refine Rows.find_unique ?_ ?_
  · intro r hr q hq hrt hqt
    simp only [Bool.and_eq_true, beq_iff_eq] at hrt hqt
    exact joined_unique ha hr hq (idText_injective (hrt.1.trans hqt.1.symm))
  · intro r hr
    simp only [Bool.and_eq_true] at hr
    exact joined_same ha hb h hr.2

/-- The unscoped query returns rows of the workspace whose scope was checked. -/
theorem list_objects_same (ha : Keyed a) (hb : Keyed b) (h : SameView tenant_id scope a b) (t : Text) :
    WorkspaceRepo.list_objects a t tenant_id scope = WorkspaceRepo.list_objects b t tenant_id scope := by
  unfold WorkspaceRepo.list_objects
  rw [← get_workspace_same ha h t]
  cases hget : get_workspace a t tenant_id scope with
  | none => rfl
  | some w =>
    have hw := List.mem_of_find?_eq_some hget
    have hfound := List.find?_some hget
    simp only [Bool.and_eq_true, beq_iff_eq] at hfound
    obtain ⟨hid, hv⟩ := hfound
    -- A row under this key belongs to the checked workspace, in either database.
    have owned : ∀ {db r}, Keyed db → w ∈ db.workspaces → r ∈ joined db →
        idText r.workspace_object.workspace_id = t → r.workspace = w := by
      intro db r hk hmem hr ht
      obtain ⟨_, _, hrw, _, hrid⟩ := (mem_joined hk).mp hr
      exact List.inj_on_of_nodup_map hk.workspaces hrw hmem
        (hrid.trans (idText_injective (ht.trans hid.symm)))
    refine congrArg some (Rows.sorted_unique
      (fun r => OrderDual.toDual r.workspace_object.uploaded_at)
      (fun r => OrderDual.toDual r.workspace_object.id) ?_ ?_
      ((joined_nodup ha).filter _) ((joined_nodup hb).filter _) ?_)
    · intro r q
      simp only [recentOrder, OrderDual.toDual_lt_toDual, OrderDual.toDual_le_toDual,
        OrderDual.toDual_inj, eq_comm]
    · intro r hr q hq hid
      exact joined_unique ha (List.mem_of_mem_filter hr) (List.mem_of_mem_filter hq)
        (OrderDual.toDual_inj.mp hid)
    · intro r
      simp only [List.mem_filter, beq_iff_eq]
      constructor
      · intro h
        obtain ⟨hr, ht⟩ := h
        exact ⟨joined_sub ha hb h (owned ha hw hr ht ▸ hv) hr, ht⟩
      · intro h
        obtain ⟨hr, ht⟩ := h
        have hwb := (h.workspaces w hv).mp hw
        exact ⟨joined_sub hb ha h.symm (owned hb hwb hr ht ▸ hv) hr, ht⟩

/-- What the request names does not exist, or not for the tenant. -/
def Hidden (db : Db) (actor : CurrentActor) : Request → Prop
  | .list_workspaces => False
  | .list_workspace_objects t => ∀ w ∈ db.workspaces,
      Visible actor.tenant_id actor.workspace_access_scope w → idText w.id ≠ t
  | .get_workspace_object t | .create_workspace_object_download_url t =>
    ∀ o, Reachable actor.tenant_id actor.workspace_access_scope db o → idText o.id ≠ t

/-- The answer about what does not exist: no URL is signed, no event committed. -/
def refused (py : Python) : Request → Outcome
  | .list_workspaces => .read (.ok (.workspaces []))
  | .list_workspace_objects t => .read (.error (workspaceNotFound py t))
  | .get_workspace_object t | .create_workspace_object_download_url t =>
    .read (.error (objectNotFound py t))

theorem refused_commit : (refused py request).presigned = [] ∧ (refused py request).commit db = db := by
  cases request <;> exact ⟨rfl, rfl⟩

theorem get_object_hidden (hk : Keyed db) (h : ∀ o, Reachable tenant_id scope db o → idText o.id ≠ t) :
    get_object db t tenant_id scope = none := by
  refine List.find?_eq_none.mpr ?_
  intro r hr hfound
  simp only [Bool.and_eq_true, beq_iff_eq] at hfound
  obtain ⟨ho, _, hw, _, hwid⟩ := (mem_joined hk).mp hr
  exact h r.workspace_object ⟨ho, r.workspace, hw, hfound.2, hwid⟩ hfound.1

theorem list_objects_hidden (h : ∀ w ∈ db.workspaces, Visible tenant_id scope w → idText w.id ≠ t) :
    WorkspaceRepo.list_objects db t tenant_id scope = none := by
  refine Option.map_eq_none_iff.mpr (List.find?_eq_none.mpr ?_)
  intro w hw hfound
  simp only [Bool.and_eq_true, beq_iff_eq] at hfound
  exact h w hw hfound.2 hfound.1

theorem serve_hidden (hk : Keyed db) (h : Hidden db actor request) :
    serve env db actor request = refused env.py request := by
  cases request with
  | list_workspaces => exact False.elim h
  | list_workspace_objects t =>
    simp only [serve, list_workspace_objects, list_objects_hidden h]
    rfl
  | get_workspace_object t =>
    simp only [serve, get_workspace_object, get_object_hidden hk h]
    rfl
  | create_workspace_object_download_url t =>
    simp only [serve, create_workspace_object_download_url, get_object_hidden hk h]
    rfl

theorem serve_same (ha : Keyed a) (hb : Keyed b)
    (h : SameView actor.tenant_id actor.workspace_access_scope a b) :
    serve env a actor request = serve env b actor request := by
  cases request with
  | list_workspaces =>
    simp only [serve, Workspaces.list_workspaces, list_workspaces_same ha hb h]
  | list_workspace_objects t =>
    simp only [serve, list_workspace_objects, list_objects_same ha hb h t]
  | get_workspace_object t =>
    simp only [serve, get_workspace_object, get_object_same ha hb h t]
  | create_workspace_object_download_url t =>
    simp only [serve, create_workspace_object_download_url, get_object_same ha hb h t]

/-- A tenant's reads depend on what it may see, and what it may not see is answered like
what does not exist. -/
theorem reads_noninterfering (ha : Keyed a) (hb : Keyed b)
    (h : SameView actor.tenant_id actor.workspace_access_scope a b) (request : Request) :
    serve env a actor request = serve env b actor request ∧
      (Hidden a actor request → serve env a actor request = refused env.py request ∧
        (serve env a actor request).presigned = [] ∧ (serve env a actor request).commit a = a) := by
  refine ⟨serve_same ha hb h, fun hhidden => ?_⟩
  rw [serve_hidden ha hhidden]
  exact ⟨rfl, refused_commit⟩

namespace Sample

def env : Env := ⟨Bridge.Sample.py, fun _ key _ => some (String.ofList key), 300⟩

/-- A workspace of the target `name` with one object. -/
def workspace (k : Nat) (name : String) : Workspace := ⟨k, name, "hq", name, name.toList, 0⟩
def physical (k : Nat) : PhysicalObject := ⟨k, "hq", "s3", "sink".toList, idText k, 1, "", 0⟩
def object (k p w : Nat) : WorkspaceObject := ⟨k, w, p, 0, 0, "a.txt".toList, idText p, none, 0⟩

def one : Db where
  tasks := []
  items := []
  events := []
  workspaces := [workspace 1 "acme"]
  physical_objects := [physical 3]
  workspace_objects := [object 5 3 1]
  next_id := 7
  now := 0

def two : Db :=
  { one with
    workspaces := [workspace 2 "beta", workspace 1 "acme"]
    physical_objects := [physical 3, physical 4]
    workspace_objects := [object 6 4 2, object 5 3 1] }

def viewer : CurrentActor := ⟨"acme", "u2", .subsidiary_viewer⟩

theorem keyed_two : Keyed two := ⟨by decide, by decide, by decide⟩
theorem keyed_one : Keyed one := ⟨by decide, by decide, by decide⟩

theorem reachable_two (h : Reachable "acme" .target two o) : o = object 5 3 1 := by
  obtain ⟨ho, w, hw, hv, hid⟩ := h
  simp only [two, List.mem_cons, List.not_mem_nil, or_false] at ho hw
  rcases hw with rfl | rfl
  · exact absurd hv (by decide)
  · rcases ho with rfl | rfl
    · exact absurd hid (by decide)
    · rfl

theorem reachable_one (h : Reachable "acme" .target one o) : o = object 5 3 1 := by
  simpa [one] using h.1

/-- The viewer does not see the workspace of `beta`. -/
theorem same_view : SameView "acme" .target two one where
  workspaces := by
    intro w hv
    simp only [two, one, List.mem_cons, List.not_mem_nil, or_false, or_iff_right_iff_imp]
    intro heq
    subst heq
    exact absurd hv (by decide)
  objects := by
    intro o
    constructor
    · intro h
      rw [reachable_two h]
      exact ⟨by decide, workspace 1 "acme", by decide, by decide⟩
    · intro h
      rw [reachable_one h]
      exact ⟨by decide, workspace 1 "acme", by decide, by decide⟩
  physical := by
    intro p o ho hp
    have hid : p.id = 3 := by rw [← hp, reachable_two ho]; rfl
    simp only [two, one, List.mem_cons, List.not_mem_nil, or_false, or_iff_left_iff_imp]
    intro heq
    subst heq
    exact absurd hid (by decide)

end Sample

/-- The object of another target's workspace, and an object that there is not. -/
theorem other_target_hidden :
    serve Sample.env Sample.two Sample.viewer (.create_workspace_object_download_url (idText 6)) =
      serve Sample.env Sample.one Sample.viewer (.create_workspace_object_download_url (idText 6)) ∧
    serve Sample.env Sample.two Sample.viewer (.create_workspace_object_download_url (idText 6)) =
      refused Sample.env.py (.create_workspace_object_download_url (idText 6)) := by
  have h := @reads_noninterfering _ _ Sample.env Sample.viewer Sample.keyed_two
    Sample.keyed_one Sample.same_view (.create_workspace_object_download_url (idText 6))
  refine ⟨h.1, (h.2 ?_).1⟩
  intro o ho
  rw [Sample.reachable_two ho]
  decide

end FileDelivery.Proofs.WorkspaceReads
