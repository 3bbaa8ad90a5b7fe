import FileDelivery.Bridge.Replay
import FileDelivery.Proofs.Sources

namespace FileDelivery.Proofs.RecipientIsolation
open FileDelivery.Library FileDelivery.Library.Runs FileDelivery.Control FileDelivery.Bridge
open FileDelivery.Proofs.ApplyResult FileDelivery.Proofs.Moves FileDelivery.Proofs.Effects
open FileDelivery.Proofs.Tables FileDelivery.Proofs.Flow FileDelivery.Proofs.Sources

/-- The upload that a filled slot reports: item and key. -/
def slotReceipt : Option Worker.DeliveryResultItem → Option (Nat × Text)
  | some r => if r.status = "uploaded" ∧ r.key ≠ [] then some (ofIdText r.itemId, r.key) else none
  | none => none

/-- The upload that an entry of a result reports. -/
def entryReceipt (d : DeliveryResultItemSpec) : Option (Nat × Text) :=
  if d.status = "uploaded" then d.key.map (d.item_id, ·) else none

def resultReceipts (s : State) : List (Nat × Text) :=
  s.results.flatMap (fun p => p.message.items.filterMap entryReceipt)

/-- Uploads reported so far, by runs in progress and by results. -/
def receipts (s : State) : List (Nat × Text) :=
  s.runs.flatMap (fun run => run.slots.filterMap slotReceipt) ++ resultReceipts s

/-- With this fault, or without one, the object gets stored. -/
def storing : Option ItemFault → Bool
  | none | some (.sink _ true) => true
  | _ => false

/-- The bytes are the item's own, and those of every item already delivered under its
key. -/
def OwnBytes (cfg : Config) (s : State) (i : TaskItem) (bytes : Bytes) : Prop :=
  sourceBytes cfg s i = some bytes ∧ ∀ receipt ∈ receipts s, receipt.2 = i.dst_path →
    ∀ j ∈ Rows.find? s.db.items receipt.1, sourceBytes cfg s j = some bytes

instance (cfg : Config) (s : State) (i : TaskItem) (bytes : Bytes) :
    Decidable (OwnBytes cfg s i bytes) := inferInstanceAs (Decidable (_ ∧ _))

/-- What the workers read for the item may be stored under its key. -/
def Storable (cfg : Config) (s : State) (item : Worker.DeliveryItem) : Prop :=
  ∀ i ∈ Rows.find? s.db.items (ofIdText item.itemId), ∀ bytes ∈ readable cfg s i,
    OwnBytes cfg s i bytes

instance (cfg : Config) (s : State) (item : Worker.DeliveryItem) : Decidable (Storable cfg s item) :=
  inferInstanceAs (Decidable (∀ i ∈ Rows.find? s.db.items (ofIdText item.itemId), _))

/-- An object is stored only under a key where it replaces no other item's bytes. -/
def StoresOwn (cfg : Config) (s : State) : Action → Prop
  | .worker (.item wid index fault) => storing fault = true →
      ∀ run ∈ Rows.find? s.runs wid, ∀ item ∈ (Worker.Pipeline.uploadItems run.task)[index]?,
        Storable cfg s item
  | _ => True

/-- The reported object holds the item's own bytes. -/
def Holds (cfg : Config) (s : State) (receipt : Nat × Text) : Prop :=
  ∃ i bytes, Rows.find? s.db.items receipt.1 = some i ∧ sourceBytes cfg s i = some bytes ∧
    i.dst_path = receipt.2 ∧ s.sink (cfg.settings.s3_bucket_name, receipt.2) = some bytes

/-- Every workspace object leads to the bytes of its own item. -/
def Isolated (cfg : Config) (s : State) : Prop :=
  ∀ w ∈ s.db.workspace_objects, ∃ p i bytes, s.db.physicalOf w = some p ∧
    Rows.find? s.db.items w.task_item_id = some i ∧ sourceBytes cfg s i = some bytes ∧
    s.sink (p.bucket, p.object_key) = some bytes

/-- A workspace object stands for an upload that a result reports. -/
def Recorded (cfg : Config) (s : State) (w : WorkspaceObject) : Prop :=
  ∃ p key, (w.task_item_id, key) ∈ resultReceipts s ∧ s.db.physicalOf w = some p ∧
    p.bucket = cfg.settings.s3_bucket_name ∧ p.object_key = key

theorem mem_resultReceipts : r ∈ resultReceipts s ↔ ∃ p ∈ s.results, ∃ d ∈ p.message.items,
    entryReceipt d = some r := by
  simp [resultReceipts, List.mem_flatMap, List.mem_filterMap]

theorem mem_receipts : r ∈ receipts s ↔ (∃ run ∈ s.runs, ∃ slot ∈ run.slots,
    slotReceipt slot = some r) ∨ r ∈ resultReceipts s := by
  simp [receipts, List.mem_append, List.mem_flatMap, List.mem_filterMap]

/-- A result lists the filled slots of its run. -/
theorem filled_slots {slots : List (Option α)} (h : slots.mapM id = some results) :
    slots = results.map some := by
  induction slots generalizing results with
  | nil =>
    cases h
    rfl
  | cons slot slots ih =>
    simp only [List.mapM_cons, Option.bind_eq_bind, Option.bind_eq_some_iff] at h
    obtain ⟨y, hy, rest, hrest, he⟩ := h
    cases he
    have hslot : slot = some y := hy
    rw [List.map_cons, ← ih hrest, hslot]

/-- A result reports the uploads of its run, and nothing else. -/
theorem produced_receipt {run : WorkerRun} {p : Produced} (h : run.result ended = some p)
    (hd : d ∈ p.message.items) (hr : entryReceipt d = some r) :
    ∃ slot ∈ run.slots, slotReceipt slot = some r := by
  obtain ⟨results, hs, rfl⟩ := Option.map_eq_some_iff.mp h
  obtain ⟨x, hx, rfl⟩ := List.mem_map.mp hd
  refine ⟨some x, ?_, ?_⟩
  · rw [filled_slots hs]
    exact List.mem_map_of_mem hx
  · unfold entryReceipt at hr
    split at hr
    · rename_i hup
      obtain ⟨key, hk, rfl⟩ := Option.map_eq_some_iff.mp hr
      simp only [itemToControl] at hk hup
      split at hk
      · cases hk
      · rename_i hne
        cases hk
        simp [slotReceipt, hup, hne, itemToControl]
    · cases hr

/-- Holding is kept where rows, sources and the object at the key are. -/
theorem Holds.grow (g : Grows s s') (hi' : Invariant cfg s')
    (hs : s'.sink (cfg.settings.s3_bucket_name, r.2) = s.sink (cfg.settings.s3_bucket_name, r.2))
    (h : Holds cfg s r) : Holds cfg s' r := by
  obtain ⟨i, bytes, hfind, hb, hk, hsink⟩ := h
  obtain ⟨j, hj, hcore⟩ := g.items ⟨i, Rows.find_mem hfind, rfl⟩
  obtain ⟨hid, _, _, hdst, _⟩ := core_eq_fields hcore
  have hid' : j.id = r.1 := hid.trans (Rows.find_key hfind)
  have hfind' := Rows.find_of_mem hi'.tables.item_ids hj
  rw [item_key, hid'] at hfind'
  exact ⟨j, bytes, hfind', sourceBytes_grow g hi'.tables hcore hb, hdst.trans hk,
    hs.trans hsink⟩

/-- An item that is reported as uploaded met no fault. -/
theorem uploaded_faultless (h : (Worker.Pipeline.processItem item (resolveFault resolved fault)
      (limiterFault fault) (sinkFault cfg item fault)).status = "uploaded") :
    fault = none ∧ ∃ bytes, resolved = .ok bytes ∧ cfg.refuses item.dstPath bytes = none := by
  cases fault with
  | some f => cases f <;> revert h <;> unfold Worker.Pipeline.processItem <;>
      cases resolved <;> simp [resolveFault, limiterFault, sinkFault, Worker.Pipeline.failedItem]
  | none =>
    refine ⟨rfl, ?_⟩
    cases resolved with
    | ok bytes =>
      refine ⟨bytes, rfl, ?_⟩
      cases hrefused : cfg.refuses item.dstPath bytes with
      | none => rfl
      | some e =>
        simp [Worker.Pipeline.processItem, resolveFault, limiterFault, sinkFault, hrefused,
          Worker.Pipeline.failedItem] at h
    | error e => simp [Worker.Pipeline.processItem, resolveFault, Worker.Pipeline.failedItem] at h

/-- What is stored was resolved. -/
theorem stores_resolved (h : stores cfg item resolved fault = some bytes) :
    storing fault = true ∧ resolved = .ok bytes := by
  unfold stores at h
  split at h
  case h_3 => cases h
  all_goals
    cases resolved with
    | error e => cases h
    | ok b =>
      obtain ⟨hb, _⟩ := Option.filter_eq_some_iff.mp h
      cases hb
      exact ⟨rfl, rfl⟩

/-- The bytes that a step of a run stores are the item's own, and those of every item
delivered under its key. -/
theorem item_stores {k : Nat} (hi : Invariant cfg s) (hg : Genuine cfg s) (hr : run ∈ s.runs)
    (hitem : (Worker.Pipeline.uploadItems run.task)[k]? = some item)
    (hok : storing fault = true → Storable cfg s item)
    (hb : stores cfg item (resolve cfg s run item).1 fault = some bytes) :
    ∃ row, Rows.find? s.db.items (ofIdText item.itemId) = some row ∧ row.dst_path = item.dstPath ∧
      OwnBytes cfg s row bytes := by
  obtain ⟨hstoring, hres⟩ := stores_resolved hb
  obtain ⟨row, hfind, hdst, hread⟩ := resolved_readable hi hg hr hitem hres
  exact ⟨row, hfind, hdst, hok hstoring row hfind bytes hread⟩

/-- The object under a key with a receipt still holds that item's bytes. -/
theorem item_sink {k : Nat} (hi : Invariant cfg s) (hg : Genuine cfg s) (hr : run ∈ s.runs)
    (hitem : (Worker.Pipeline.uploadItems run.task)[k]? = some item)
    (hok : storing fault = true → Storable cfg s item) (hreceipt : r ∈ receipts s)
    (h : Holds cfg s r) :
    (runItem cfg s run k item fault).sink (cfg.settings.s3_bucket_name, r.2) =
      s.sink (cfg.settings.s3_bucket_name, r.2) := by
  simp only [runItem]
  cases hb : stores cfg item (resolve cfg s run item).1 fault with
  | none => rfl
  | some bytes =>
    obtain ⟨row, hfind, hdst, _, hown⟩ := item_stores hi hg hr hitem hok hb
    obtain ⟨i, own, hi', hsource, hkey, hsink⟩ := h
    by_cases hk : r.2 = item.dstPath
    · have := hown r hreceipt (hk.trans hdst.symm) i hi'
      rw [hsource] at this
      cases this
      rw [hsink, hk]
      exact Objects.put_self _
    · exact Objects.put_ne _ (fun he => hk (Prod.mk.inj he).2)

/-- A receipt of the run that has moved was there before, or it is the new one. -/
theorem item_receipt {k : Nat} (hi : Invariant cfg s) (hfind : Rows.find? s.runs wid = some run)
    (hr : r ∈ receipts (runItem cfg s run k item fault)) :
    r ∈ receipts s ∨ slotReceipt (some (Worker.Pipeline.processItem item
      (resolveFault (resolve cfg s run item).1 fault) (limiterFault fault)
      (sinkFault cfg item fault))) = some r := by
  obtain rfl : run.wid = wid := Rows.find_key hfind
  rcases mem_receipts.mp hr with ⟨q, hq, slot, hslot, he⟩ | hres
  · rcases Rows.mem_update_cases hi.work.wids hfind hq with rfl | ⟨hq, _⟩
    · rcases List.mem_or_eq_of_mem_set hslot with hold | rfl
      · exact .inl (mem_receipts.mpr (.inl ⟨run, Rows.find_mem hfind, slot, hold, he⟩))
      · exact .inr he
    · exact .inl (mem_receipts.mpr (.inl ⟨q, hq, slot, hslot, he⟩))
  · exact .inl (mem_receipts.mpr (.inr hres))

/-- The new receipt of an item holds right away. -/
theorem new_receipt {k : Nat} (hi' : Invariant cfg s') (g : Grows s s') (hi : Invariant cfg s)
    (hg : Genuine cfg s) (hr : run ∈ s.runs)
    (hitem : (Worker.Pipeline.uploadItems run.task)[k]? = some item)
    (hok : storing fault = true → Storable cfg s item)
    (he : slotReceipt (some (Worker.Pipeline.processItem item
      (resolveFault (resolve cfg s run item).1 fault) (limiterFault fault)
      (sinkFault cfg item fault))) = some r)
    (hs : s' = runItem cfg s run k item fault) : Holds cfg s' r := by
  simp only [slotReceipt] at he
  split at he
  · rename_i hup
    obtain ⟨rfl, bytes, hres, htaken⟩ := uploaded_faultless hup.1
    have hstores : stores cfg item (resolve cfg s run item).1 none = some bytes := by
      simp [stores, hres, htaken, Except.toOption]
    obtain ⟨row, hfind, hdst, hsource, _⟩ := item_stores hi hg hr hitem hok hstores
    have hr' : r = (ofIdText item.itemId, item.dstPath) := by
      cases he
      simp [Worker.Pipeline.processItem, resolveFault, limiterFault, sinkFault, receipt, hres, htaken,
        Worker.Pipeline.uploadedItem]
    subst hr'
    obtain ⟨j, hj, hcore⟩ := g.items ⟨row, Rows.find_mem hfind, rfl⟩
    obtain ⟨hid, _, _, hdst', _⟩ := core_eq_fields hcore
    have hfind' := Rows.find_of_mem hi'.tables.item_ids hj
    rw [item_key, hid, ← item_key row, Rows.find_key hfind] at hfind'
    refine ⟨j, bytes, hfind', sourceBytes_grow g hi'.tables hcore hsource, hdst'.trans hdst, ?_⟩
    rw [hs]
    simp only [runItem, hstores]
    exact Objects.put_self _
  · cases he

/-- Reported objects hold their items' bytes, and workspace objects were reported. -/
structure Delivered (cfg : Config) (s : State) : Prop where
  holds : ∀ r ∈ receipts s, Holds cfg s r
  recorded : ∀ w ∈ s.db.workspace_objects, Recorded cfg s w

theorem results_grow (g : Grows s s') (h : r ∈ resultReceipts s) : r ∈ resultReceipts s' := by
  obtain ⟨p, hp, hd⟩ := mem_resultReceipts.mp h
  exact mem_resultReceipts.mpr ⟨p, g.results.subset hp, hd⟩

/-- Every step leaves workspace objects that some result reports. -/
theorem step_recorded (hi : Invariant cfg s) (hs : step cfg s a = some s')
    (h : ∀ w ∈ s.db.workspace_objects, Recorded cfg s w) :
    ∀ w ∈ s'.db.workspace_objects, Recorded cfg s' w := by
  have g := step_grows hi.tables hs
  have same : SameObjects s.db s'.db → ∀ w ∈ s'.db.workspace_objects, Recorded cfg s' w := by
    intro ho w hw
    obtain ⟨p, key, hr, hp, hrest⟩ := h w (ho.objects ▸ hw)
    refine ⟨p, key, results_grow g hr, ?_, hrest⟩
    unfold Db.physicalOf at hp ⊢
    rw [ho.physical]
    exact hp
  cases step_effect hs with
  | quiet _ _ ho | created _ _ _ _ _ _ _ ho | classified _ _ _ _ _ _ _ ho | confirmed _ _ _ _ _ ho
  | retried _ _ _ _ _ _ ho | queued _ _ _ _ _ _ ho => exact same ho
  | applied p hp hdb =>
    have hrec := apply_records cfg.settings.s3_bucket_name hi.tables.item_ids p.message
    intro w hw
    rw [hdb] at hw
    rcases hrec.objects hi.tables.physical_fresh w hw with hold | ⟨d, hd, key, ph, hup, hkey, _, hid,
      hph, hbucket, hobject⟩
    · obtain ⟨ph, key, hr, hph, hrest⟩ := h w hold
      refine ⟨ph, key, results_grow g hr, ?_, hrest⟩
      rw [hdb]
      exact hrec.physical hph
    · refine ⟨ph, key, ?_, by rw [hdb]; exact hph, hbucket, hobject⟩
      have hmem : (w.task_item_id, key) ∈ resultReceipts s :=
        mem_resultReceipts.mpr ⟨p, List.mem_of_getElem? hp, d, hd, by simp [entryReceipt, hup, hkey, hid]⟩
      exact results_grow g hmem

/-- Where only own bytes are stored, a step leaves every reported object as it should be. -/
theorem step_holds (hi : Invariant cfg s) (hg : Genuine cfg s) (hok : StoresOwn cfg s a)
    (hs : step cfg s a = some s') (h : ∀ r ∈ receipts s, Holds cfg s r) :
    ∀ r ∈ receipts s', Holds cfg s' r := by
  have g := step_grows hi.tables hs
  have hi' := step_flow hi hs
  have old : s'.sink = s.sink → (∀ r ∈ receipts s', r ∈ receipts s) →
      ∀ r ∈ receipts s', Holds cfg s' r :=
    fun hsink hsub r hr => (h r (hsub r hr)).grow g hi' (by rw [hsink])
  have same : s'.sink = s.sink → s'.runs = s.runs → s'.results = s.results →
      ∀ r ∈ receipts s', Holds cfg s' r := by
    intro hsink hruns hres
    refine old hsink (fun r hr => ?_)
    unfold receipts resultReceipts at hr ⊢
    rwa [hruns, hres] at hr
  have erased : ∀ wid, s'.runs = Rows.erase s.runs wid → s'.results = s.results →
      ∀ r ∈ receipts s', r ∈ receipts s := by
    intro wid hruns hres r hr
    rcases mem_receipts.mp hr with ⟨run, hrun, hslot⟩ | hr
    · rw [hruns] at hrun
      exact mem_receipts.mpr (.inl ⟨run, (Rows.erase_sublist _ _).subset hrun, hslot⟩)
    · unfold resultReceipts at hr
      rw [hres] at hr
      exact mem_receipts.mpr (.inr hr)
  cases step_moves hs with
  | requested r u next hfind hmove =>
    generalize r.stage = stage at hmove
    cases hmove <;> exact same rfl rfl rfl
  | worked hmove =>
    cases hmove with
    | started m hm =>
      refine old rfl (fun r hr => ?_)
      rcases mem_receipts.mp hr with ⟨run, hrun, slot, hslot, he⟩ | hr
      · rcases List.mem_append.mp hrun with hrun | hrun
        · exact mem_receipts.mpr (.inl ⟨run, hrun, slot, hslot, he⟩)
        · rw [List.mem_singleton.mp hrun] at hslot
          obtain ⟨_, _, rfl⟩ := List.mem_map.mp hslot
          cases he
      · exact mem_receipts.mpr (.inr hr)
    | item run item hfind hslot hitem =>
      have hrun := Rows.find_mem hfind
      have hstore := fun hst => hok hst run hfind item hitem
      intro r hr
      rcases item_receipt hi hfind hr with hold | hnew
      · exact (h r hold).grow g hi' (item_sink hi hg hrun hitem hstore hold (h r hold))
      · exact new_receipt hi' g hi hg hrun hitem hstore hnew rfl
    | produced run result hfind hnew hresult =>
      refine old rfl (fun r hr => ?_)
      rcases mem_receipts.mp hr with ⟨q, hq, slot, hslot, he⟩ | hr
      · rcases Rows.mem_update_cases hi.work.wids hfind hq with rfl | ⟨hq, _⟩
        · exact mem_receipts.mpr (.inl ⟨run, Rows.find_mem hfind, slot, hslot, he⟩)
        · exact mem_receipts.mpr (.inl ⟨q, hq, slot, hslot, he⟩)
      · obtain ⟨p, hp, d, hd, he⟩ := mem_resultReceipts.mp hr
        rcases List.mem_append.mp hp with hp | hp
        · exact mem_receipts.mpr (.inr (mem_resultReceipts.mpr ⟨p, hp, d, hd, he⟩))
        · rw [List.mem_singleton.mp hp] at hd
          obtain ⟨slot, hslot, hs⟩ := produced_receipt hresult hd he
          exact mem_receipts.mpr (.inl ⟨run, Rows.find_mem hfind, slot, hslot, hs⟩)
    | acked run hfind hdone => exact old rfl (erased _ rfl rfl)
    | crashed run hfind => exact old rfl (erased _ rfl rfl)
  | cleaned hmove => cases hmove <;> exact same rfl rfl rfl
  | _ => exact same rfl rfl rfl

/-- Where only own bytes are stored, every workspace object leads to the bytes of its own
item. -/
theorem recipients_isolated (h : Run (step cfg) (StoresOwn cfg) initial s) : Isolated cfg s := by
  have hdelivered : Delivered cfg s :=
    h.invariant_given (fun s => Delivered cfg s) (fun s => Invariant cfg s ∧ Genuine cfg s)
      (fun _ ht => ⟨reachable_flow ht, reachable_genuine ht⟩)
      ⟨by simp [receipts, resultReceipts, initial], by simp [initial]⟩
      (fun _ _ _ ⟨hi, hg⟩ hinv hok hs =>
        ⟨step_holds hi hg hok hs hinv.holds, step_recorded hi hs hinv.recorded⟩)
  intro w hw
  obtain ⟨p, key, hr, hp, hbucket, hkey⟩ := hdelivered.recorded w hw
  obtain ⟨i, bytes, hfind, hsource, _, hsink⟩ := hdelivered.holds _ (mem_receipts.mpr (.inr hr))
  exact ⟨p, i, bytes, hp, hfind, hsource, by rw [hbucket, hkey]; exact hsink⟩

instance (cfg : Config) (s : State) : (a : Action) → Decidable (StoresOwn cfg s a)
  | .worker (.item wid index fault) => inferInstanceAs (Decidable (storing fault = true →
      ∀ run ∈ Rows.find? s.runs wid, ∀ item ∈ (Worker.Pipeline.uploadItems run.task)[index]?,
        Storable cfg s item))
  | .worker (.start _ _) | .worker (.produce _) | .worker (.ack _) | .worker (.crash _) => .isTrue trivial
  | .create _ _ _ _ | .classify _ _ _ | .read _ _ _ | .write _ | .uploadRead _ _ | .upload _ _
  | .apply _ | .cleanup _ | .workspace _ _ _ _ | .expire _ | .tick => .isTrue trivial

/-- The object behind `w` holds the bytes of its item. -/
def leadsHome (cfg : Config) (s : State) (w : WorkspaceObject) : Bool :=
  (s.db.physicalOf w).any (fun p => (Rows.find? s.db.items w.task_item_id).any (fun i =>
    (sourceBytes cfg s i).any (fun bytes => s.sink (p.bucket, p.object_key) == some bytes)))

theorem isolated_iff : Isolated cfg s ↔ ∀ w ∈ s.db.workspace_objects, leadsHome cfg s w = true := by
  simp [Isolated, leadsHome, Option.any_eq_true]

instance (cfg : Config) (s : State) : Decidable (Isolated cfg s) := decidable_of_iff' _ isolated_iff

/-- A task of two files for two targets, delivered and applied. -/
def twoTargets (first second : Text) : List Action :=
  Sample.confirmed 0 0 [(first, [1]), (second, [2])] ++ Sample.workspaces ++ Sample.upload 0 1 ++
    Sample.run 2 0 [none, none] ++ [.apply 0]

theorem recipients_isolated_run : ∃ s : State,
    s.db.workspace_objects.length = 2 ∧ Isolated Sample.cfg s := by
  obtain ⟨s, h, hw⟩ := run_of_replay (StoresOwn Sample.cfg)
    (p := fun s => s.db.workspace_objects.length = 2) Sample.cfg initial
    (twoTargets "acme/a.txt" "beta/b.txt") (by decide +kernel)
  exact ⟨s, hw, recipients_isolated h⟩

/-- The files have the same name, so both are rendered to the same key. -/
theorem same_name_reaches_other_target :
    ¬ ∀ (cfg : Config) (s : State), Run (step cfg) Free initial s → Isolated cfg s := by
  intro h
  obtain ⟨s, hrun, hleak⟩ := run_of_replay Free (p := fun s => ¬Isolated Sample.cfg s) Sample.cfg
    initial (twoTargets "acme/a.txt" "beta/a.txt") (by decide +kernel)
  exact hleak (h Sample.cfg s hrun)

end FileDelivery.Proofs.RecipientIsolation
