import FileDelivery.Control.Workspaces
import FileDelivery.Proofs.RecipientIsolation
import FileDelivery.Proofs.WorkspaceMapping

namespace FileDelivery.Proofs.Checksums
open FileDelivery.Library FileDelivery.Library.Runs FileDelivery.Control FileDelivery.Bridge
open FileDelivery.Proofs.ApplyResult FileDelivery.Proofs.Moves FileDelivery.Proofs.Effects
open FileDelivery.Proofs.Tables FileDelivery.Proofs.Flow FileDelivery.Proofs.Sources

/-- An item's key and source bytes; under the key the sink has an object. -/
structure Attested (cfg : Config) (s : State) (row : TaskItem) (key : Text) (bytes : Bytes) : Prop where
  found : Rows.find? s.db.items row.id = some row
  path : row.dst_path = key
  source : readable cfg s row = some bytes
  taken : cfg.refuses key bytes = none
  stored : (s.sink (cfg.settings.s3_bucket_name, key)).isSome

/-- A receipt states the size and the checksum of its item's source. -/
def Certified (cfg : Config) (s : State) (r : Worker.DeliveryResultItem) : Prop :=
  r.status = "uploaded" → ∃ row bytes, row.id = ofIdText r.itemId ∧ Attested cfg s row r.key bytes ∧
    r.size = bytes.length ∧ r.sha256 = cfg.sha256 bytes

/-- What is recorded for a workspace object is true of its item's source. An empty object has
the size that its item was classified with. -/
structure Recorded (cfg : Config) (s : State) (w : WorkspaceObject) (p : PhysicalObject)
    (row : TaskItem) (bytes : Bytes) : Prop where
  physical : s.db.physicalOf w = some p
  item : row.id = w.task_item_id
  bucket : p.bucket = cfg.settings.s3_bucket_name
  attested : Attested cfg s row p.object_key bytes
  size : p.size_bytes = if bytes = [] then (row.file_size : Int) else (bytes.length : Int)
  checksum : p.sha256 = cfg.sha256 bytes

/-- A row keeps what the workers read for it. -/
theorem readable_grow (g : Grows s s') (hw' : Wellformed cfg s'.db) (hcore : row'.core = row.core)
    (h : readable cfg s row = some bytes) : readable cfg s' row' = some bytes := by
  obtain ⟨_, htask, hsrc, _, _⟩ := core_eq_fields hcore
  obtain ⟨dir, hd, hread⟩ := Option.bind_eq_some_iff.mp h
  obtain ⟨task, hfind, hdir⟩ := Option.bind_eq_some_iff.mp hd
  have hknown : KnownTask s.db row.task_id task.owner_tenant_id task.temp_dir :=
    ⟨task, Rows.find_mem hfind, Rows.find_key hfind, rfl, rfl⟩
  unfold readable
  rw [dirOf_known hw' (g.tasks hknown) htask, g.dirs hknown, hdir, Option.bind_some, hsrc]
  exact hread

/-- No step takes an object out of the sink. -/
theorem step_sink (hs : step cfg s a = some s') (h : (s.sink k).isSome) : (s'.sink k).isSome := by
  cases step_moves hs with
  | requested r u next hfind hmove =>
    generalize r.stage = stage at hmove
    cases hmove <;> exact h
  | worked hmove =>
    cases hmove with
    | item run item hfind hslot hitem =>
      simp only [runItem]
      cases stores cfg item (resolve cfg s run item).1 _ with
      | none => exact h
      | some bytes =>
        by_cases hk : k = (cfg.settings.s3_bucket_name, item.dstPath)
        · simp [hk, Objects.put_self]
        · simpa [Objects.put_ne _ hk] using h
    | _ => exact h
  | cleaned hmove => cases hmove <;> exact h
  | _ => exact h

theorem Attested.step (hi : Invariant cfg s) (hs : step cfg s a = some s')
    (h : Attested cfg s row key bytes) :
    ∃ row', row'.core = row.core ∧ Attested cfg s' row' key bytes := by
  have g := step_grows hi.tables hs
  have hi' := step_flow hi hs
  obtain ⟨row', hmem, hcore⟩ := g.items ⟨row, Rows.find_mem h.found, rfl⟩
  obtain ⟨_, _, _, hdst, _⟩ := core_eq_fields hcore
  refine ⟨row', hcore, Rows.find_of_mem hi'.tables.item_ids hmem, hdst.trans h.path, ?_, h.taken, ?_⟩
  · exact readable_grow g hi'.tables hcore h.source
  · exact step_sink hs h.stored

theorem Certified.step (hi : Invariant cfg s) (hs : step cfg s a = some s') (h : Certified cfg s r) :
    Certified cfg s' r := by
  intro hup
  obtain ⟨row, bytes, hid, hatt, hrest⟩ := h hup
  obtain ⟨row', hcore, hatt'⟩ := hatt.step hi hs
  exact ⟨row', bytes, (core_eq_fields hcore).1.trans hid, hatt', hrest⟩

/-- A filled slot was filled before, or this step has filled it. -/
theorem step_slots (hi : Invariant cfg s) (hs : step cfg s a = some s') (hrun : run ∈ s'.runs)
    (hr : some r ∈ run.slots) : (∃ run ∈ s.runs, some r ∈ run.slots) ∨
      ∃ run item k fault, run ∈ s.runs ∧ (Worker.Pipeline.uploadItems run.task)[k]? = some item ∧
        s' = runItem cfg s run k item fault ∧
        r = Worker.Pipeline.processItem item (resolveFault (resolve cfg s run item).1 fault)
          (limiterFault fault) (sinkFault cfg item fault) := by
  have same : s'.runs = s.runs → ∃ run ∈ s.runs, some r ∈ run.slots :=
    fun he => ⟨run, he ▸ hrun, hr⟩
  cases step_moves hs with
  | requested q u next hfind hmove =>
    generalize q.stage = stage at hmove
    cases hmove <;> exact .inl (same rfl)
  | worked hmove =>
    cases hmove with
    | started m hm =>
      rcases List.mem_append.mp hrun with hrun | hrun
      · exact .inl ⟨run, hrun, hr⟩
      · rw [List.mem_singleton.mp hrun] at hr
        obtain ⟨_, _, hnone⟩ := List.mem_map.mp hr
        cases hnone
    | @item wid k fault own item hfind hslot hitem =>
      obtain rfl : own.wid = wid := Rows.find_key hfind
      rcases Rows.mem_update_cases hi.work.wids hfind hrun with rfl | ⟨hold, _⟩
      · rcases List.mem_or_eq_of_mem_set hr with hold | hnew
        · exact .inl ⟨own, Rows.find_mem hfind, hold⟩
        · exact .inr ⟨own, item, k, fault, Rows.find_mem hfind, hitem, rfl, Option.some.inj hnew⟩
      · exact .inl ⟨run, hold, hr⟩
    | produced own result hfind hnew hresult =>
      obtain rfl : own.wid = _ := Rows.find_key hfind
      rcases Rows.mem_update_cases hi.work.wids hfind hrun with rfl | ⟨hold, _⟩
      · exact .inl ⟨own, Rows.find_mem hfind, hr⟩
      · exact .inl ⟨run, hold, hr⟩
    | acked own hfind hdone => exact .inl ⟨run, (Rows.erase_sublist _ _).subset hrun, hr⟩
    | crashed own hfind => exact .inl ⟨run, (Rows.erase_sublist _ _).subset hrun, hr⟩
  | cleaned hmove => cases hmove <;> exact .inl (same rfl)
  | _ => exact .inl (same rfl)

/-- Without a fault the item is reported with the receipt of its bytes. -/
theorem faultless_item (htaken : cfg.refuses item.dstPath bytes = none) :
    Worker.Pipeline.processItem item (resolveFault (.ok bytes) none) (limiterFault none)
      (sinkFault cfg item none) = Worker.Pipeline.uploadedItem item (receipt cfg item bytes) := by
  simp only [Worker.Pipeline.processItem, resolveFault, limiterFault, sinkFault, htaken]

/-- A new slot states what was stored. -/
theorem new_certified {k : Nat} (hi : Invariant cfg s) (hg : Genuine cfg s) (hrun : run ∈ s.runs)
    (hitem : (Worker.Pipeline.uploadItems run.task)[k]? = some item)
    (hs : step cfg s a = some (runItem cfg s run k item fault)) :
    Certified cfg (runItem cfg s run k item fault) (Worker.Pipeline.processItem item
      (resolveFault (resolve cfg s run item).1 fault) (limiterFault fault)
      (sinkFault cfg item fault)) := by
  intro hup
  obtain ⟨rfl, bytes, hres, htaken⟩ := RecipientIsolation.uploaded_faultless hup
  obtain ⟨row, hfind, hdst, hread⟩ := resolved_readable hi hg hrun hitem hres
  have g := step_grows hi.tables hs
  have hi' := step_flow hi hs
  obtain ⟨row', hmem, hcore⟩ := g.items ⟨row, Rows.find_mem hfind, rfl⟩
  obtain ⟨hid, _, _, hdst', _⟩ := core_eq_fields hcore
  have hstored : (runItem cfg s run k item none).sink (cfg.settings.s3_bucket_name, item.dstPath) =
      some bytes := by
    have hstores : stores cfg item (resolve cfg s run item).1 none = some bytes := by
      simp [stores, hres, htaken, Except.toOption]
    simp only [runItem, hstores]
    exact Objects.put_self _
  rw [hres, faultless_item htaken]
  refine ⟨row', bytes, hid.trans (Rows.find_key hfind), ⟨?_, ?_, ?_, htaken, ?_⟩, rfl, rfl⟩
  · exact Rows.find_of_mem hi'.tables.item_ids hmem
  · exact hdst'.trans hdst
  · exact readable_grow g hi'.tables hcore hread
  · exact Option.isSome_of_eq_some hstored

theorem step_certified (hi : Invariant cfg s) (hg : Genuine cfg s) (hs : step cfg s a = some s')
    (h : ∀ run ∈ s.runs, ∀ r, some r ∈ run.slots → Certified cfg s r) :
    ∀ run ∈ s'.runs, ∀ r, some r ∈ run.slots → Certified cfg s' r := by
  intro run hrun r hr
  rcases step_slots hi hs hrun hr with ⟨q, hq, hold⟩ | ⟨q, item, k, fault, hq, hitem, rfl, rfl⟩
  · exact (h q hq r hold).step hi hs
  · exact new_certified hi hg hq hitem hs

/-- An entry of a result was there before, or is one of the slots of the run that reports now. -/
theorem step_entries (hs : step cfg s a = some s') (hp : p ∈ s'.results) (hd : d ∈ p.message.items) :
    p ∈ s.results ∨ ∃ run ∈ s.runs, ∃ r, some r ∈ run.slots ∧ d = itemToControl r := by
  have same : s'.results = s.results → p ∈ s.results := fun he => he ▸ hp
  cases step_moves hs with
  | requested q u next hfind hmove =>
    generalize q.stage = stage at hmove
    cases hmove <;> exact .inl (same rfl)
  | worked hmove =>
    cases hmove with
    | produced run result hfind hnew hresult =>
      rcases List.mem_append.mp hp with hp | hp
      · exact .inl hp
      · rw [List.mem_singleton.mp hp] at hd
        obtain ⟨results, hslots, rfl⟩ := Option.map_eq_some_iff.mp hresult
        obtain ⟨r, hr, rfl⟩ := List.mem_map.mp hd
        refine .inr ⟨run, Rows.find_mem hfind, r, ?_, rfl⟩
        rw [RecipientIsolation.filled_slots hslots]
        exact List.mem_map_of_mem hr
    | _ => exact .inl (same rfl)
  | cleaned hmove => cases hmove <;> exact .inl (same rfl)
  | _ => exact .inl (same rfl)

/-- A workspace object that the application of a result has added, with the entry it is for. -/
structure Repeats (bucket : Text) (db : Db) (w : WorkspaceObject) (d : DeliveryResultItemSpec)
    (p : PhysicalObject) (row : TaskItem) : Prop where
  status : d.status = "uploaded"
  key : d.key = some p.object_key
  physical : db.physicalOf w = some p
  place : p.bucket = bucket
  found : Rows.find? db.items row.id = some row
  item : row.id = w.task_item_id
  entry : d.item_id = w.task_item_id
  size : p.size_bytes = (d.size.filter (· ≠ 0)).getD row.file_size
  checksum : p.sha256 = d.sha256.getD ""

theorem Repeats.keep (h : Repeats bucket a w d p row) (hk : WorkspaceMapping.Keeps a b)
    (hp : b.physicalOf w = some p) : ∃ row, Repeats bucket b w d p row := by
  obtain ⟨row', hfind, hcore⟩ := hk.items _ _ h.found
  have hid : row'.id = row.id := (core_eq_fields hcore).1
  have hsize : row'.file_size = row.file_size := by
    simpa [TaskItem.core] using congrArg TaskItem.file_size hcore
  exact ⟨row', h.status, h.key, hp, h.place, hid.symm ▸ hfind, hid.trans h.item, h.entry,
    hsize.symm ▸ h.size, h.checksum⟩

/-- Each workspace object was there before, or repeats an entry. -/
def Accounted (bucket : Text) (m : DeliveryResultMessage) (before after : Db) : Prop :=
  ∀ w ∈ after.workspace_objects, w ∈ before.workspace_objects ∨
    ∃ d ∈ m.items, ∃ p row, Repeats bucket after w d p row

theorem Accounted.keep (h : Accounted bucket m db a) (hk : WorkspaceMapping.Keeps a b)
    (hp : b.physical_objects = a.physical_objects) (hw : b.workspace_objects = a.workspace_objects) :
    Accounted bucket m db b := by
  intro w hmem
  refine (h w (hw ▸ hmem)).imp_right ?_
  rintro ⟨d, hd, p, row, hr⟩
  exact ⟨d, hd, p, hr.keep hk (by simpa only [Db.physicalOf, hp] using hr.physical)⟩

theorem recorded_accounted (hf : PhysicalFresh db) (ha : Accounted bucket m before db) (hd : d ∈ m.items)
    (hst : d.status = "uploaded") (hk : d.key = some key)
    (hi : Rows.find? db.items item.id = some item) (hid : item.id = d.item_id) :
    Accounted bucket m before (recorded db task item d bucket key ws fin) := by
  intro w hw
  rcases List.mem_append.mp hw with hw | hw
  · refine (ha w hw).imp_right ?_
    rintro ⟨e, he, p, row, hr⟩
    exact ⟨e, he, p, row, hr.status, hr.key, Rows.find_append hr.physical, hr.place, hr.found, hr.item,
      hr.entry, hr.size, hr.checksum⟩
  · rw [List.mem_singleton.mp hw]
    refine .inr ⟨d, hd, WorkspaceRepo.physicalRow db task item d bucket key, item, hst, hk, ?_, rfl, hi,
      rfl, hid.symm, rfl, rfl⟩
    exact Rows.find_append_new (fun q hq => Nat.ne_of_lt (hf q hq))

theorem turn_accounted (h : ItemTurn bucket task m acc d acc') (hd : d ∈ m.items)
    (hf : PhysicalFresh acc.db) (ha : Accounted bucket m db acc.db) :
    PhysicalFresh acc'.db ∧ Accounted bucket m db acc'.db := by
  cases h with
  | missing => exact ⟨hf, ha⟩
  | failed => exact ⟨hf, ha.keep (WorkspaceMapping.written_keeps _ _ _ _ _) rfl rfl⟩
  | uploaded i db' result hst hsel hrec acc' hdb _ =>
    obtain ⟨hfind, hid, _⟩ := select_some hsel
    have hwritten : Accounted bucket m db (written acc.db d .uploaded "" (some m.ended_at)) :=
      ha.keep (WorkspaceMapping.written_keeps _ _ _ _ _) rfl rfl
    rw [hdb]
    refine ⟨(recorded_records hrec hst hid).fresh hf, ?_⟩
    cases hrec with
    | created key ws hk hne hnew hws =>
      refine recorded_accounted hf hwritten hd hst hk ?_ hid
      have hrow : Rows.find? (written acc.db d .uploaded "" (some m.ended_at)).items i.id =
          (Rows.find? acc.db.items i.id).map (fun j =>
            if i.id = d.item_id then ItemRepo.setUpload .uploaded "" (some m.ended_at) j else j) :=
        Rows.find_update (fun _ => rfl)
      rwa [hid, hfind, Option.map_some, if_pos rfl, ← hid] at hrow
    | _ => exact hwritten

theorem loop_accounted (bucket : Text) (task : Task) (ds : List DeliveryResultItemSpec)
    (hsub : ds ⊆ m.items) (hf : PhysicalFresh acc.db) (ha : Accounted bucket m db acc.db) :
    Accounted bucket m db (ds.foldl (apply_item bucket task m) acc).db := by
  induction ds generalizing acc with
  | nil => exact ha
  | cons d ds ih =>
    obtain ⟨hd, hds⟩ := List.cons_subset.mp hsub
    obtain ⟨hf', ha'⟩ := turn_accounted (apply_item_turn bucket task m acc d) hd hf ha
    exact ih hds hf' ha'

theorem applied_accounted (bucket : Text) (m : DeliveryResultMessage) (hf : PhysicalFresh db) :
    Accounted bucket m db (apply_delivery_result bucket db m).1 := by
  cases h : TaskRepo.get db m.task_id none with
  | none =>
    rw [apply_missing h]
    exact fun w hw => .inl hw
  | some task =>
    have hloop : Accounted bucket m db (m.items.foldl (apply_item bucket task m) ⟨db, 0, [], 0, []⟩).db :=
      loop_accounted bucket task m.items (List.Subset.refl _) hf (fun w hw => .inl hw)
    simp only [apply_delivery_result, h]
    obtain ⟨hi, hp, hw, hws, _⟩ := finish_same task m
      (m.items.foldl (apply_item bucket task m) ⟨db, 0, [], 0, []⟩)
    intro w hmem
    refine (hloop w (hw ▸ hmem)).imp_right ?_
    rintro ⟨d, hd, p, row, hr⟩
    refine ⟨d, hd, p, row, hr.status, hr.key, ?_, hr.place, hi ▸ hr.found, hr.item, hr.entry, hr.size,
      hr.checksum⟩
    simpa only [Db.physicalOf, hp] using hr.physical

theorem Recorded.step (hi : Invariant cfg s) (hs : step cfg s a = some s')
    (hp : s'.db.physicalOf w = some p) (h : Recorded cfg s w p row bytes) :
    ∃ row, Recorded cfg s' w p row bytes := by
  obtain ⟨row', hcore, hatt⟩ := h.attested.step hi hs
  have hsize : row'.file_size = row.file_size := by
    simpa [TaskItem.core] using congrArg TaskItem.file_size hcore
  exact ⟨row', hp, (core_eq_fields hcore).1.trans h.item, h.bucket, hatt, hsize.symm ▸ h.size,
    h.checksum⟩

/-- A new workspace object is recorded as its receipt says. -/
theorem repeated_recorded (hr : Repeats cfg.settings.s3_bucket_name s'.db w (itemToControl r) p row)
    (hi : Invariant cfg s) (hs : step cfg s a = some s') (hc : Certified cfg s r) :
    ∃ p row bytes, Recorded cfg s' w p row bytes := by
  obtain ⟨own, bytes, hid, hatt, hlength, hsum⟩ := hc hr.status
  obtain ⟨own', hcore, hatt'⟩ := hatt.step hi hs
  have hrow : own' = row := by
    have hkey : own'.id = row.id :=
      (core_eq_fields hcore).1.trans (hid.trans (hr.entry.trans hr.item.symm))
    exact Option.some.inj (hatt'.found.symm.trans (hkey ▸ hr.found))
  subst hrow
  have hkey : r.key = p.object_key := by
    have hsome := hr.key
    simp only [itemToControl] at hsome
    split at hsome
    · cases hsome
    · exact Option.some.inj hsome
  refine ⟨p, own', bytes, hr.physical, hr.item, hr.place, hkey ▸ hatt', ?_, ?_⟩
  · rw [hr.size]
    cases bytes with
    | nil => simp [itemToControl, hlength]
    | cons b bs =>
      have hpos : ((bs.length : Int) + 1) ≠ 0 := by omega
      simp [itemToControl, hlength, Option.filter, hpos]
  · rw [hr.checksum, ← hsum]
    by_cases he : r.sha256 = "" <;> simp [itemToControl, he]

/-- Receipts, results and the workspace tables state what the sources are. -/
structure Truthful (cfg : Config) (s : State) : Prop where
  slots : ∀ run ∈ s.runs, ∀ r, some r ∈ run.slots → Certified cfg s r
  entries : ∀ p ∈ s.results, ∀ d ∈ p.message.items, ∃ r, d = itemToControl r ∧ Certified cfg s r
  objects : ∀ w ∈ s.db.workspace_objects, ∃ p row bytes, Recorded cfg s w p row bytes

theorem step_objects (hi : Invariant cfg s) (hs : step cfg s a = some s') (h : Truthful cfg s) :
    ∀ w ∈ s'.db.workspace_objects, ∃ p row bytes, Recorded cfg s' w p row bytes := by
  have same : SameObjects s.db s'.db →
      ∀ w ∈ s'.db.workspace_objects, ∃ p row bytes, Recorded cfg s' w p row bytes := by
    intro ho w hw
    obtain ⟨p, row, bytes, hrec⟩ := h.objects w (ho.objects ▸ hw)
    have hp : s'.db.physicalOf w = some p := by
      simpa only [Db.physicalOf, ho.physical] using hrec.physical
    obtain ⟨row', hrec'⟩ := hrec.step hi hs hp
    exact ⟨p, row', bytes, hrec'⟩
  cases step_effect hs with
  | quiet _ _ ho | created _ _ _ _ _ _ _ ho | classified _ _ _ _ _ _ _ ho | confirmed _ _ _ _ _ ho
  | retried _ _ _ _ _ _ ho | queued _ _ _ _ _ _ ho => exact same ho
  | applied produced hp hdb =>
    intro w hw
    rcases applied_accounted cfg.settings.s3_bucket_name produced.message hi.tables.physical_fresh w
      (hdb ▸ hw) with hold | ⟨d, hd, p, row, hr⟩
    · obtain ⟨p, row, bytes, hrec⟩ := h.objects w hold
      have hp' : s'.db.physicalOf w = some p := by
        rw [hdb]
        exact (apply_records cfg.settings.s3_bucket_name hi.tables.item_ids produced.message).physical
          hrec.physical
      obtain ⟨row', hrec'⟩ := hrec.step hi hs hp'
      exact ⟨p, row', bytes, hrec'⟩
    · obtain ⟨r, rfl, hc⟩ := h.entries produced (List.mem_of_getElem? hp) d hd
      exact repeated_recorded (hdb ▸ hr) hi hs hc

theorem step_truthful (hi : Invariant cfg s) (hg : Genuine cfg s) (hs : step cfg s a = some s')
    (h : Truthful cfg s) : Truthful cfg s' := by
  refine ⟨step_certified hi hg hs h.slots, ?_, step_objects hi hs h⟩
  intro p hp d hd
  rcases step_entries hs hp hd with hold | ⟨run, hrun, r, hr, rfl⟩
  · obtain ⟨r, rfl, hc⟩ := h.entries p hold d hd
    exact ⟨r, rfl, hc.step hi hs⟩
  · exact ⟨r, rfl, (h.slots run hrun r hr).step hi hs⟩

theorem reachable_truthful (h : Run (step cfg) ok initial s) : Truthful cfg s :=
  h.invariant_given (fun s => Truthful cfg s) (fun s => Invariant cfg s ∧ Genuine cfg s)
    (fun _ ht => ⟨reachable_flow ht, reachable_genuine ht⟩)
    ⟨by simp [initial], by simp [initial], by simp [initial]⟩
    (fun _ _ _ ⟨hi, hg⟩ hinv _ hs => step_truthful hi hg hs hinv)

/-- What a response says about an object is true of its item's source, and there is something
to download. -/
def Stated (cfg : Config) (s : State) (o : Workspaces.ObjectDict) : Prop :=
  ∃ row bytes, idText row.id = o.task_item_id ∧ o.physical_object.bucket = cfg.settings.s3_bucket_name ∧
    Attested cfg s row o.physical_object.object_key bytes ∧
    o.physical_object.size_bytes = (if bytes = [] then (row.file_size : Int) else (bytes.length : Int)) ∧
    o.physical_object.sha256 = cfg.sha256 bytes

theorem record_stated (h : Truthful cfg s) (hr : record ∈ WorkspaceRepo.joined s.db) :
    Stated cfg s (Workspaces._object_record_to_dict record) := by
  obtain ⟨w, hw, hjoin⟩ := List.mem_filterMap.mp hr
  obtain ⟨p, hp, hjoin⟩ := Option.bind_eq_some_iff.mp hjoin
  obtain ⟨ws, _, rfl⟩ := Option.map_eq_some_iff.mp hjoin
  obtain ⟨q, row, bytes, hrec⟩ := h.objects w hw
  have hpq : p = q := Option.some.inj (hp.symm.trans hrec.physical)
  subst hpq
  exact ⟨row, bytes, congrArg idText hrec.item, hrec.bucket, hrec.attested, hrec.size, hrec.checksum⟩

theorem object_stated (h : Truthful cfg s)
    (hget : WorkspaceRepo.get_object s.db object_id tenant scope = some record) :
    Stated cfg s (Workspaces._object_record_to_dict record) :=
  record_stated h (List.mem_of_find?_eq_some hget)

/-- In every reachable state, whoever asks: the size and the checksum that the workspace endpoints
show for an object are those of the bytes that the workers read for its item, and there is an object
in the sink wherever they lead, download addresses included. -/
theorem shown_truthful (h : Run (step cfg) Free initial s) (env : Workspaces.Env) (actor : CurrentActor)
    (id : Text) :
    (∀ shown os, (Workspaces.list_workspace_objects env s.db actor id).response =
      .ok (.objects shown os) → ∀ o ∈ os, Stated cfg s o) ∧
    (∀ o, (Workspaces.get_workspace_object env s.db actor id).response = .ok (.object o) →
      Stated cfg s o) ∧
    ∀ call ∈ (Workspaces.create_workspace_object_download_url env s.db actor id).presigned,
      (s.sink (call.1, call.2.1)).isSome := by
  have ht := reachable_truthful h
  refine ⟨?_, ?_, ?_⟩
  · intro shown os hresponse o ho
    unfold Workspaces.list_workspace_objects at hresponse
    split at hresponse
    · cases hresponse
    · rename_i records hlist
      cases hresponse
      obtain ⟨_, _, rfl⟩ := Option.map_eq_some_iff.mp hlist
      obtain ⟨record, hrecord, rfl⟩ := List.mem_map.mp ho
      exact record_stated ht (List.mem_filter.mp ((List.mem_insertionSort _).mp hrecord)).1
  · intro o hresponse
    unfold Workspaces.get_workspace_object at hresponse
    split at hresponse
    · cases hresponse
    · rename_i record hget
      cases hresponse
      exact object_stated ht hget
  · intro call hcall
    unfold Workspaces.create_workspace_object_download_url at hcall
    split at hcall
    · cases hcall
    · rename_i record hget
      have hmem : call = (record.physical_object.bucket, record.physical_object.object_key,
          env.workspace_download_url_ttl_seconds) := by
        dsimp only at hcall
        split at hcall <;> exact List.mem_singleton.mp hcall
      obtain ⟨row, bytes, _, hbucket, hatt, _⟩ := object_stated ht hget
      have hplace : record.physical_object.bucket = cfg.settings.s3_bucket_name := hbucket
      rw [hmem, hplace]
      exact hatt.stored

/-- A deployment whose checksum tells sizes apart. -/
def sizeSums : Config := { Sample.cfg with sha256 := fun bytes => toString bytes.length }

def sampleEnv : Workspaces.Env := ⟨Sample.py, fun _ _ _ => some "", 60⟩

/-- The objects of the first workspace of `twoTargets`. -/
def firstShown (s : State) : List Workspaces.ObjectDict :=
  match (Workspaces.list_workspace_objects sampleEnv s.db Sample.actor (idText 6)).response with
  | .ok (.objects _ os) => os
  | _ => []

theorem shown_truthful_run : ∃ (s : State) (o : Workspaces.ObjectDict),
    o ∈ firstShown s ∧ o.physical_object.sha256 = "1" ∧ Stated sizeSums s o := by
  obtain ⟨s, h, o, ho, hsum⟩ := run_of_replay Free
    (p := fun s => ∃ o ∈ firstShown s, o.physical_object.sha256 = "1") sizeSums initial
    (RecipientIsolation.twoTargets "acme/a.txt" "beta/b.txt") (by decide +kernel)
  refine ⟨s, o, ho, hsum, ?_⟩
  have hall := (shown_truthful h sampleEnv Sample.actor (idText 6)).1
  unfold firstShown at ho
  split at ho
  · rename_i shown os hresponse
    exact hall shown os hresponse o ho
  · cases ho

end FileDelivery.Proofs.Checksums
