import FileDelivery.Proofs.RunCover

namespace FileDelivery.Proofs.RunSteps
open FileDelivery.Library FileDelivery.Control FileDelivery.Control.TaskRunner FileDelivery.Bridge
open FileDelivery.Proofs.ApplyResult FileDelivery.Proofs.Effects FileDelivery.Proofs.Recovery
open FileDelivery.Proofs.RunMoves FileDelivery.Proofs.RunCover

variable {db db' : Db} {t : Task} {i : TaskItem} {c : ItemRun} {run r : TaskRun}
  {runs : List TaskRun} {rid k : Nat} {st : TaskStatus}

/-- A run that persists its failure has started items, or finds one that a retry can reset; a run
that never took the task over may also write over another one's status. -/
structure FailsSafely (db : Db) (run : TaskRun) : Prop where
  own : run.phase = .uploading → run.items ≠ [] ∨ Redoable db.items run.task_id
  other : run.phase ≠ .uploading → Redoable db.items run.task_id ∨
    statusOf db run.task_id = some .uploading ∨ statusOf db run.task_id = some .failed ∨
    statusOf db run.task_id = some .partial_failed

instance (db : Db) (run : TaskRun) : Decidable (FailsSafely db run) :=
  decidable_of_iff (_ ∧ _) ⟨fun h => ⟨h.1, h.2⟩, fun h => ⟨h.own, h.other⟩⟩

/-- A run starts where the task is still confirmed, and leaves nothing stuck: it persists its
failures, and is not killed. -/
def LeavesNothing (s : Background.State) (run : TaskRun) : RunAction → Prop
  | .start => statusOf s.base.db run.task_id = some .confirmed
  | .fail => FailsSafely s.base.db run
  | .lose => run.phase ≠ .uploading
  | .crash => ¬Engaged run
  | .item item_id .escape => ∀ row ∈ Rows.find? s.base.db.items item_id,
    row.upload_status = .failed ∨ row.upload_status = .uploaded
  | _ => True

instance (s : Background.State) (run : TaskRun) : (a : RunAction) → Decidable (LeavesNothing s run a)
  | .start => inferInstanceAs (Decidable (_ = _))
  | .fail => inferInstanceAs (Decidable (FailsSafely s.base.db run))
  | .lose => inferInstanceAs (Decidable (_ ≠ _))
  | .crash => inferInstanceAs (Decidable (¬_))
  | .item _ .escape => inferInstanceAs (Decidable (∀ row ∈ Rows.find? _ _, _))
  | .read | .list | .complete | .plan | .finalize | .publish | .raise _ | .leave => .isTrue trivial
  | .item _ .mark | .item _ (.store _) | .item _ .done | .item _ .publish | .item _ (.raise _)
  | .item _ .fail | .item _ .report => .isTrue trivial

/-- A row of another task is as it was. -/
theorem written_other {a b : List Task} (hw : StatusWrite k st g a b) (ht : t ∈ b) (hne : t.id ≠ k) :
    t ∈ a := by
  obtain ⟨y, hy, _, _, _, ⟨hid, _⟩ | ⟨_, rfl⟩⟩ := hw.mem ht
  · exact absurd hid hne
  · exact hy

theorem written_outside (hw : StatusWrite k st g db.tasks db'.tasks) (hi : db'.items = db.items) :
    Outside k db db' :=
  ⟨fun _ ht hne => written_other hw ht hne, fun i _ => by rw [hi]⟩

theorem written_status (hw : StatusWrite k st g db.tasks db'.tasks) (ht : t ∈ db'.tasks)
    (hid : t.id = k) : t.status = st := by
  obtain ⟨_, _, _, _, _, ⟨_, hst⟩ | ⟨hne, _⟩⟩ := hw.mem ht
  · exact hst
  · exact absurd hid hne

theorem over_shows {stage : ItemStage} {st : UploadStatus} (ho : stage.over = true)
    (hs : Shows stage st) : st = .failed ∨ st = .uploaded := by
  cases stage with
  | ended ok =>
    cases ok
    · exact .inl hs
    · exact .inr hs
  | escaped => exact hs
  | _ => cases ho

/-- What the stages of a run's items show, and uploaded items meet, all items of the task meet. -/
theorem active_rows (hn : (db.items.map TaskItem.id).Nodup) (h : Active db run)
    (hsome : run.items ≠ []) (p : UploadStatus → Prop)
    (hshow : ∀ c ∈ run.items, ∀ st, Shows c.stage st → p st) (hup : p .uploaded) :
    ∀ i ∈ db.items, i.task_id = run.task_id → i.deliverable = true → p i.upload_status := by
  intro i hi hti hdel
  by_cases hmem : i.id ∈ run.items.map (·.item.id)
  · obtain ⟨c, hc, hkey⟩ := List.mem_map.mp hmem
    obtain ⟨row, hrow, hrid, _, _, hst⟩ := h.shown c hc
    have : row = i := Rows.eq_of_key hn hrow hi (hrid.trans hkey)
    exact this ▸ hshow c hc _ hst
  · rcases h.others i hi hti hdel hmem with hst | ⟨hnil, _⟩
    · exact hst ▸ hup
    · exact absurd hnil hsome

/-- When the last item of a run with a final status is over, its task is at rest. -/
theorem active_rested (hn : (db.items.map TaskItem.id).Nodup) (h : Active db run)
    (hne : ¬Engaged run) (hsome : run.items ≠ []) (ht : t ∈ db.tasks) (hid : t.id = run.task_id) :
    AtRest db.items t := by
  have hphase : run.phase ≠ .uploading := fun hp => hne (.inl hp)
  have hover : ∀ c ∈ run.items, c.stage.over = true := by
    intro c hc
    by_contra ho
    exact hne (.inr ⟨c, hc, by simpa using ho⟩)
  have hall : ∀ i ∈ db.items, i.task_id = t.id → i.deliverable = true →
      i.upload_status = .failed ∨ i.upload_status = .uploaded := by
    rw [hid]
    exact active_rows hn h hsome (fun st => st = .failed ∨ st = .uploaded)
      (fun c hc _ hst => over_shows (hover c hc) hst) (.inr rfl)
  refine ⟨fun i hi hti hdel => .inr (hall i hi hti hdel), .inr (.inr ⟨?_, ?_⟩)⟩
  · simpa [hphase] using h.status t ht hid
  · by_cases hf : ∃ i ∈ db.items, i.task_id = t.id ∧ i.deliverable = true ∧ i.upload_status = .failed
    · exact .inl hf
    · exact .inr (fun i hi hti hdel =>
        (hall i hi hti hdel).resolve_left (fun he => hf ⟨i, hi, hti, hdel, he⟩))

/-- A run that moves on with its items, where its task has a status that fits. -/
theorem active_moved (h : Active db run) (hi : db'.items = db.items)
    (hitems : r.items = run.items) (ht : r.task_id = run.task_id)
    (hst : ∀ t ∈ db'.tasks, t.id = r.task_id →
      t.status = .failed ∨ t.status = if r.phase = .uploading then .uploading else .partial_failed)
    (hl : ∀ n items, r.stage ≠ .idle n ∧ r.stage ≠ .planned items) : Active db' r := by
  refine ⟨hst, hitems ▸ h.ids, ?_, ?_, ?_⟩
  · rw [hitems, hi, ht]
    exact h.shown
  · rw [hitems, hi, ht]
    exact h.others
  · split
    · rename_i n hstage
      exact absurd hstage (hl n []).1
    · rename_i items hstage
      exact absurd hstage (hl 0 items).2
    · trivial

theorem mem_uploadable : i ∈ uploadable db k ↔
    i ∈ db.items ∧ i.task_id = k ∧ i.deliverable = true ∧ i.upload_status = .pending := by
  simp [uploadable, _uploadable, ItemRepo.list_by_task, ItemRepo.ownerAllows, and_assoc]

theorem uploadable_ids (hn : (db.items.map TaskItem.id).Nodup) :
    ((uploadable db k).map TaskItem.id).Nodup := by
  have hperm := List.perm_insertionSort ItemRepo.rowOrder
    (db.items.filter (fun i => i.task_id == k && ItemRepo.ownerAllows db none k))
  have hsub : (db.items.filter (fun i =>
      i.task_id == k && ItemRepo.ownerAllows db none k)).Sublist db.items := List.filter_sublist
  have hlist : ((ItemRepo.list_by_task db k none).map TaskItem.id).Nodup :=
    (hperm.map TaskItem.id).nodup_iff.mpr (hn.sublist (hsub.map TaskItem.id))
  exact hlist.sublist (List.filter_sublist.map TaskItem.id)

/-- A run that takes a confirmed task over knows that what is not uploaded is pending. -/
theorem started_active (h : Covered db runs) (hitems : run.items = [])
    (hnone : ∀ q ∈ runs, Engaged q → q.task_id ≠ run.task_id)
    (ht : t ∈ db.tasks) (hid : t.id = run.task_id) (hst : t.status = .confirmed)
    (hw : StatusWrite run.task_id .uploading g db.tasks db'.tasks) (hi : db'.items = db.items) :
    Active db' { run with stage := .started, phase := .uploading } := by
  refine ⟨fun u hu huid => .inr (written_status hw hu huid), ?_, ?_, ?_, trivial⟩
  · simp [hitems]
  · simp [hitems]
  · intro i hmem hti hdel _
    have hrest := h.rest t ht (fun q hq he => hid ▸ hnone q hq he)
    have hnf := hrest.none_failed (.inr (.inr hst)) i (hi ▸ hmem) (hti.trans hid.symm) hdel
    rcases hrest.each i (hi ▸ hmem) (hti.trans hid.symm) hdel with hp | hf | hup
    · exact .inr ⟨hitems, hp⟩
    · exact absurd hf hnf
    · exact .inl hup

/-- Listing the items leaves nothing to do, or a plan of every pending item. -/
theorem listed_active (hn : (db.items.map TaskItem.id).Nodup) (h : Active db run)
    (hitems : run.items = []) :
    Active db { run with stage := TaskRunner.listed db run.task_id } := by
  refine ⟨h.status, h.ids, h.shown, h.others, ?_⟩
  simp only [TaskRunner.listed]
  split
  · rename_i n hstage
    split at hstage
    · rename_i hnil
      intro i hi hti hdel
      rcases h.others i hi hti hdel (by simp [hitems]) with hup | ⟨_, hp⟩
      · exact hup
      · have : i ∈ uploadable db run.task_id := mem_uploadable.mpr ⟨hi, hti, hdel, hp⟩
        simp [hnil] at this
    · cases hstage
  · rename_i items hstage
    split at hstage
    · cases hstage
    · rename_i hsome
      cases hstage
      exact ⟨hsome, uploadable_ids hn, fun _ => mem_uploadable⟩
  · trivial

/-- Starting the coroutines of a plan. -/
theorem planned_active (h : Active db run) (hitems : run.items = [])
    (hp : Planned db run.task_id items) :
    Active db { run with stage := .working, items := items.map (⟨·, .waiting⟩) } := by
  have hids : (items.map (fun i => (⟨i, .waiting⟩ : ItemRun))).map (·.item.id) =
      items.map TaskItem.id := by
    simp
  refine ⟨h.status, hids ▸ hp.ids, ?_, ?_, trivial⟩
  · intro ir hir
    obtain ⟨i, hi, rfl⟩ := List.mem_map.mp hir
    obtain ⟨hrow, hti, hdel, hpend⟩ := (hp.rows i).mp hi
    exact ⟨i, hrow, rfl, hti, hdel, hpend⟩
  · intro i hi hti hdel hnew
    rw [hids] at hnew
    rcases h.others i hi hti hdel (by simp [hitems]) with hup | ⟨_, hpend⟩
    · exact .inl hup
    · exact absurd (List.mem_map_of_mem ((hp.rows i).mpr ⟨hi, hti, hdel, hpend⟩)) hnew

/-- The tables after a step of one item of a run. -/
structure ItemTables (db : Db) (run : TaskRun) (item_id : Nat) (stage : ItemStage) (db' : Db) :
    Prop where
  tasks : db'.tasks = db.tasks
  same : ∀ row, row.id ≠ item_id → (row ∈ db'.items ↔ row ∈ db.items)
  own : ∀ row ∈ db'.items, row.id = item_id → row.task_id = run.task_id
  shown : ∃ row ∈ db'.items, row.id = item_id ∧ row.task_id = run.task_id ∧
    row.deliverable = true ∧ Shows stage row.upload_status

theorem item_tables (hn : (db.items.map TaskItem.id).Nodup) (h : Active db run)
    (hfind : Rows.find? run.items item_id = some c)
    (hm : _upload_item db c.item c.stage action = some (db', stage))
    (hok : action = .escape → ∀ row ∈ Rows.find? db.items item_id,
      row.upload_status = .failed ∨ row.upload_status = .uploaded) :
    ItemTables db run item_id stage db' := by
  obtain rfl : c.item.id = item_id := Rows.find_key hfind
  obtain ⟨row, hrow, hid, htask, hdel, hshow⟩ := h.shown c (Rows.find_mem hfind)
  have hget : Rows.find? db.items c.item.id = some row := hid ▸ Rows.find_of_mem hn hrow
  have honly : ∀ q ∈ db.items, q.id = c.item.id → q = row :=
    fun q hq hqid => Rows.eq_of_key hn hq hrow (hqid.trans hid.symm)
  rcases (item_moves hm).2 with ⟨st, e, at', rfl, hst⟩ | ⟨rfl, hkeep⟩
  · have hitems := set_items db c.item st e at'
    have hnew : ItemRepo.setUpload st e at' row ∈ (setStatus db c.item st e at').items := by
      rw [hitems]
      exact Rows.mem_update_of_mem hrow hid
    refine ⟨(update_upload_frame db c.item.id st none none e at').tasks, ?_, ?_, ?_⟩
    · intro q hne
      rw [hitems]
      refine ⟨fun hq => ?_, fun hq => Rows.mem_update_of_ne hq hne⟩
      rcases Rows.mem_update_cases hn hget hq with rfl | ⟨hq, _⟩
      · exact absurd hid hne
      · exact hq
    · intro q hq hqid
      rw [hitems] at hq
      rcases Rows.mem_update_cases hn hget hq with rfl | ⟨_, hne⟩
      · exact htask
      · exact absurd hqid hne
    · exact ⟨_, hnew, hid, htask, hdel, hst⟩
  · refine ⟨rfl, fun _ _ => .rfl, fun q hq hqid => honly q hq hqid ▸ htask,
      row, hrow, hid, htask, hdel, hkeep _ hshow (fun he => hok he row hget)⟩

theorem item_outside (hn : (db.items.map TaskItem.id).Nodup) (h : Active db run)
    (hfind : Rows.find? run.items item_id = some c) (hm : ItemTables db run item_id stage db') :
    Outside run.task_id db db' := by
  obtain rfl : c.item.id = item_id := Rows.find_key hfind
  obtain ⟨row, hrow, hid, htask, _⟩ := h.shown c (Rows.find_mem hfind)
  refine ⟨fun t ht _ => hm.tasks ▸ ht, fun q hne => ?_⟩
  by_cases hq : q.id = c.item.id
  · refine ⟨fun hmem => absurd (hm.own q hmem hq) hne, fun hmem => ?_⟩
    have : q = row := Rows.eq_of_key hn hmem hrow (hq.trans hid.symm)
    exact absurd (this ▸ htask) hne
  · exact hm.same q hq

theorem item_active (h : Active db run) (hl : ∀ n items, run.stage ≠ .idle n ∧ run.stage ≠ .planned items)
    (hfind : Rows.find? run.items item_id = some c) (hm : ItemTables db run item_id stage db') :
    Active db'
      { run with items := Rows.update run.items item_id (fun c => { c with stage := stage }) } := by
  have hids : (Rows.update run.items item_id (fun c => { c with stage := stage })).map (·.item.id) =
      run.items.map (·.item.id) :=
    Rows.update_map (f := fun c : ItemRun => { c with stage := stage }) (fun c : ItemRun => c.item.id)
      (fun _ => rfl)
  have hkey : c.item.id = item_id := Rows.find_key hfind
  refine ⟨fun t ht => h.status t (hm.tasks ▸ ht), hids ▸ h.ids, ?_, ?_, ?_⟩
  · intro q hq
    rcases Rows.mem_update_cases h.ids hfind hq with rfl | ⟨hq, hne⟩
    · obtain ⟨row, hrow, hid, hrest⟩ := hm.shown
      exact ⟨row, hrow, hid.trans hkey.symm, hrest⟩
    · obtain ⟨row, hrow, hid, hrest⟩ := h.shown q hq
      exact ⟨row, (hm.same row (hid ▸ hne)).mpr hrow, hid, hrest⟩
  · intro q hq hti hdel hnew
    rw [hids] at hnew
    have hne : q.id ≠ item_id :=
      fun he => hnew (List.mem_map.mpr ⟨c, Rows.find_mem hfind, hkey.trans he.symm⟩)
    rcases h.others q ((hm.same q hne).mp hq) hti hdel hnew with hup | ⟨hnil, _⟩
    · exact .inl hup
    · have := Rows.find_mem hfind
      simp [hnil] at this
  · split
    · rename_i n hstage
      exact absurd hstage (hl n []).1
    · rename_i items hstage
      exact absurd hstage (hl 0 items).2
    · trivial

theorem engaged_congr (hp : r.phase = run.phase) (hi : r.items = run.items) :
    Engaged r ↔ Engaged run := by
  rw [Engaged, Engaged, hp, hi]

/-- A run moves on without a write, and with the items it has. -/
theorem quiet_covered (h : Covered db runs) (hn : (runs.map TaskRun.rid).Nodup)
    (hfind : Rows.find? runs rid = some run) (ht : r.task_id = run.task_id)
    (hp : r.phase = run.phase) (hi : r.items = run.items) (hc : Consistent r)
    (hl : ∀ n items, r.stage ≠ .idle n ∧ r.stage ≠ .planned items) :
    Covered db (Rows.update runs rid (fun _ => r)) := by
  have hmem := Rows.find_mem hfind
  by_cases he : Engaged run
  · have hactive := h.active run hmem he
    refine h.owned hn hfind (h.alone run hmem he) ht hc
      (.refl _ _) (fun _ => active_moved hactive rfl hi ht ?_ hl)
      (fun hne => absurd ((engaged_congr hp hi).mpr he) hne)
    rw [ht, hp]
    exact hactive.status
  · exact h.bystander hn hfind he (fun hr => he ((engaged_congr hp hi).mp hr)) hc

theorem uploading_covered (h : Covered db runs) (hn : (runs.map TaskRun.rid).Nodup)
    (hfind : Rows.find? runs rid = some run) (he : Engaged run) (hp : r.phase = .uploading)
    (ht : r.task_id = run.task_id) (hc : Consistent r) (hr : Active db r) :
    Covered db (Rows.update runs rid (fun _ => r)) :=
  have hmem := Rows.find_mem hfind
  h.owned hn hfind (h.alone run hmem he) ht hc (.refl _ _)
    (fun _ => hr) (fun hne => absurd (.inl hp) hne)

/-- A confirmed task has no engaged run. -/
theorem confirmed_alone (h : Covered db runs) (ht : t ∈ db.tasks) (hst : t.status = .confirmed) :
    ∀ q ∈ runs, Engaged q → q.task_id ≠ t.id := by
  intro q hq he hid
  rcases (h.active q hq he).status t ht hid.symm with hf | hf
  · simp [hst] at hf
  · rw [hst] at hf
    split at hf <;> cases hf

theorem find_status (hst : statusOf db k = some st) : ∃ t ∈ db.tasks, t.id = k ∧ t.status = st := by
  obtain ⟨t, ht, hs⟩ := Option.map_eq_some_iff.mp hst
  exact ⟨t, Rows.find_mem ht, Rows.find_key ht, hs⟩

theorem start_covered (h : Covered db runs) (hn : (runs.map TaskRun.rid).Nodup)
    (hfind : Rows.find? runs rid = some run) (hstage : run.stage = .checked)
    (hok : statusOf db run.task_id = some .confirmed) :
    Covered (start db run.task_id)
      (Rows.update runs rid (fun _ => { run with stage := .started, phase := .uploading })) := by
  have hc := h.consistent run (Rows.find_mem hfind)
  have hphase := hc.stage
  rw [hstage] at hphase
  have hitems := hc.fresh hphase
  obtain ⟨t, ht, hid, hst⟩ := find_status hok
  have hnone := hid ▸ confirmed_alone h ht hst
  obtain ⟨⟨g, hw⟩, hi, _⟩ := written_tables db run.task_id .uploading none none .upload_started
  refine h.owned hn hfind (fun q hq he hqid => absurd hqid (hnone q hq he)) rfl ?_
    (written_outside hw hi) (fun _ => started_active h hitems hnone ht hid hst hw hi)
    (fun hne => absurd (.inl rfl) hne)
  exact ⟨by simp, rfl, hitems⟩

/-- The final status of a run that has nothing to upload. -/
theorem complete_covered (h : Covered db runs) (hn : (runs.map TaskRun.rid).Nodup)
    (hfind : Rows.find? runs rid = some run) (hstage : run.stage = .idle n) :
    Covered (complete db run.task_id n)
      (Rows.update runs rid (fun _ => { run with stage := .finished, phase := .final })) := by
  have hmem := Rows.find_mem hfind
  have hc := (h.consistent run hmem).stage
  rw [hstage] at hc
  have he : Engaged run := .inl hc.1
  have hup := (h.active run hmem he).listed
  rw [hstage] at hup
  obtain ⟨⟨g, hw⟩, hi, _⟩ := written_tables db run.task_id .uploaded none (some db.now)
    (.task_completed 0 0 none (some n))
  refine h.owned hn hfind (h.alone run hmem he) rfl
    ⟨by simp, rfl⟩ (written_outside hw hi) ?_ (fun _ t ht hid => ?_)
  · rintro (hp | ⟨c, hcmem, _⟩)
    · cases hp
    · simp [hc.2] at hcmem
  · rw [show (complete db run.task_id n).items = db.items from hi]
    exact ⟨fun i hmemi hti hdel => .inr (.inr (hup i hmemi (hti.trans hid) hdel)),
      .inr (.inl ⟨written_status hw ht hid, fun i hmemi hti hdel => hup i hmemi (hti.trans hid) hdel⟩)⟩

/-- The final status after the whole `gather`; items may still run after it. -/
theorem finalize_covered (hni : (db.items.map TaskItem.id).Nodup) (h : Covered db runs)
    (hn : (runs.map TaskRun.rid).Nodup) (hfind : Rows.find? runs rid = some run)
    (hstage : run.stage = .working) (hres : all_results run.items = some results) :
    Covered (finalize db run.task_id results n)
      (Rows.update runs rid (fun _ => { run with stage := .finished, phase := .final })) := by
  have hmem := Rows.find_mem hfind
  have hc := (h.consistent run hmem).stage
  rw [hstage] at hc
  have hactive := h.active run hmem (.inl hc.1)
  obtain ⟨⟨g, hw⟩, hi, _⟩ := written_tables db run.task_id (final_status (results.count false))
    none (some db.now) (.task_completed (results.count true) (results.count false) (some n) none)
  have hown := h.alone run hmem (.inl hc.1)
  have hitems : (finalize db run.task_id results n).items = db.items := hi
  by_cases hzero : results.count false = 0
  · have hended : ∀ c ∈ run.items, c.stage = .ended true := fun _ => all_uploaded hres hzero
    refine h.owned hn hfind hown rfl ⟨by simp, rfl⟩ (written_outside hw hi) ?_ (fun _ t ht hid => ?_)
    · rintro (hp | ⟨c, hcmem, ho⟩)
      · cases hp
      · simp [hended c hcmem, ItemStage.over] at ho
    · have hup : ∀ i ∈ db.items, i.task_id = t.id → i.deliverable = true →
          i.upload_status = .uploaded := by
        rw [hid]
        refine active_rows hni hactive hc.2 (· = .uploaded) (fun c hcmem st hst => ?_) rfl
        rw [hended c hcmem] at hst
        exact hst
      have hst : t.status = .uploaded := by
        rw [written_status hw ht hid, final_status, if_pos hzero]
      rw [hitems]
      exact ⟨fun i hmemi hti hdel => .inr (.inr (hup i hmemi hti hdel)), .inr (.inl ⟨hst, hup⟩)⟩
  · have hst : ∀ t ∈ (finalize db run.task_id results n).tasks, t.id = run.task_id →
        t.status = .partial_failed := by
      intro t ht hid
      rw [written_status hw ht hid, final_status, if_neg hzero]
    have hnew : Active (finalize db run.task_id results n)
        { run with stage := .finished, phase := .final } :=
      active_moved hactive hi rfl rfl (fun t ht hid => .inr (hst t ht hid)) (by simp)
    refine h.owned hn hfind hown rfl ⟨by simp, rfl⟩ (written_outside hw hi) (fun _ => hnew)
      (fun hne t ht hid => active_rested ?_ hnew hne hc.2 ht hid)
    rw [hitems]
    exact hni

/-- A run that is not engaged writes `failed` into a task that it does not own. -/
theorem fail_bystander (h : Covered db runs) (hw : StatusWrite k .failed g db.tasks db'.tasks)
    (hi : db'.items = db.items)
    (hok : Redoable db.items k ∨ statusOf db k = some .uploading ∨
      statusOf db k = some .failed ∨ statusOf db k = some .partial_failed)
    (hnt : (db.tasks.map Task.id).Nodup) : Covered db' runs := by
  have ho := written_outside hw hi
  refine ⟨h.consistent, h.alone, fun q hq he => ?_, fun t ht hnone => ?_⟩
  · have hactive := h.active q hq he
    by_cases hid : q.task_id = k
    · exact hactive.frame (fun t ht htid => .inl (written_status hw ht (htid.trans hid)))
        (fun i _ => by rw [hi])
    · exact hactive.outside ho hid
  · obtain ⟨y, hy, hyid, _, _, hcase⟩ := hw.mem ht
    have hrest := h.rest y hy (fun q hq he => hyid ▸ hnone q hq he)
    rcases hcase with ⟨hid, hst⟩ | ⟨_, rfl⟩
    · rw [hi]
      refine ⟨fun i hmem hti hdel => hrest.each i hmem (hti.trans hyid.symm) hdel,
        .inr (.inr ⟨.inl hst, ?_⟩)⟩
      have hyst : statusOf db k = some y.status := by
        have hfind : Rows.find? db.tasks y.id = some y := Rows.find_of_mem hnt hy
        simp [statusOf, ← hid, ← hyid, hfind]
      rcases hok with hok | hok
      · exact hid ▸ hok
      · rw [hyst] at hok
        simp only [Option.some.injEq] at hok
        rcases hrest.status with ⟨hbad, _⟩ | ⟨hbad, _⟩ | ⟨_, hredo⟩
        · rcases hbad with hbad | hbad | hbad <;> simp [hbad] at hok
        · simp [hbad] at hok
        · exact hyid ▸ hredo
    · rw [hi]
      exact hrest

/-- The `except` branch persists its failure. -/
theorem fail_covered {s : Background.State} (hnt : (s.base.db.tasks.map Task.id).Nodup)
    (hni : (s.base.db.items.map TaskItem.id).Nodup) (h : Covered s.base.db s.runs)
    (hn : (s.runs.map TaskRun.rid).Nodup) (hfind : Rows.find? s.runs rid = some run)
    (hok : FailsSafely s.base.db run) :
    Covered (fail s.base.db run.task_id e)
      (Rows.update s.runs rid (fun _ => { run with stage := .ended, phase := .final })) := by
  have hmem := Rows.find_mem hfind
  obtain ⟨⟨g, hw⟩, hi, _⟩ := written_tables s.base.db run.task_id .failed none (some s.base.db.now)
    (.task_failed (clip 500 e))
  have hitems : (fail s.base.db run.task_id e).items = s.base.db.items := hi
  by_cases he : Engaged run
  · have hactive := h.active run hmem he
    have hnew : Active (fail s.base.db run.task_id e) { run with stage := .ended, phase := .final } :=
      active_moved hactive hi rfl rfl (fun t ht hid => .inl (written_status hw ht hid)) (by simp)
    refine h.owned hn hfind (h.alone run hmem he) rfl
      ⟨by simp, by simp⟩ (written_outside hw hi) (fun _ => hnew) (fun hne t ht hid => ?_)
    by_cases hsome : run.items = []
    · have hp : run.phase = .uploading := by
        rcases he with hp | ⟨c, hc, _⟩
        · exact hp
        · simp [hsome] at hc
      rw [hitems]
      refine ⟨fun i hmemi hti hdel => ?_, .inr (.inr ⟨.inl (written_status hw ht hid), ?_⟩)⟩
      · rcases hactive.others i hmemi (hti.trans hid) hdel (by simp [hsome]) with hup | ⟨_, hpend⟩
        · exact .inr (.inr hup)
        · exact .inl hpend
      · rcases hok.own hp with hbad | hredo
        · exact absurd hsome hbad
        · exact hid ▸ hredo
    · exact active_rested (hitems ▸ hni) hnew hne hsome ht hid
  · have hp : run.phase ≠ .uploading := fun hp => he (.inl hp)
    have hne : ¬Engaged { run with stage := .ended, phase := .final } := by
      rintro (hbad | hitem)
      · cases hbad
      · exact he (.inr hitem)
    have hmoved : Covered s.base.db
        (Rows.update s.runs rid (fun _ => { run with stage := .ended, phase := .final })) :=
      h.bystander hn hfind he hne ⟨by simp, by simp⟩
    exact fail_bystander hmoved hw hi (hok.other hp) hnt

/-- A run with items has planned them. -/
theorem items_stage (hc : Consistent run) (hsome : run.items ≠ []) :
    run.phase ≠ .fresh ∧ match run.stage with
      | .starting | .checked | .started | .idle _ | .planned _ => False
      | _ => True := by
  have hfresh : run.phase ≠ .fresh := fun hp => hsome (hc.fresh hp)
  refine ⟨hfresh, ?_⟩
  have hst := hc.stage
  cases hstage : run.stage <;> rw [hstage] at hst
  case starting | checked => exact hfresh hst
  case started | idle | planned => exact hsome hst.2
  all_goals trivial

theorem item_consistent (hc : Consistent run) (hsome : run.items ≠ []) (f : ItemRun → ItemRun) :
    Consistent { run with items := Rows.update run.items k f } := by
  obtain ⟨hfresh, hplanned⟩ := items_stage hc hsome
  have hst := hc.stage
  refine ⟨fun hp => absurd hp hfresh, ?_⟩
  cases hstage : run.stage <;> rw [hstage] at hst hplanned
  case working => exact ⟨hst.1, fun hnil => hsome (by simpa [Rows.update] using hnil)⟩
  case finished => exact hst
  case ended => exact hst
  case failing => trivial
  all_goals exact hplanned.elim

theorem item_covered {s : Background.State} (hni : (s.base.db.items.map TaskItem.id).Nodup)
    (h : Covered s.base.db s.runs) (hn : (s.runs.map TaskRun.rid).Nodup)
    (hfind : Rows.find? s.runs rid = some run) (hc : Rows.find? run.items item_id = some c)
    (hm : _upload_item s.base.db c.item c.stage action = some (db', stage))
    (hok : LeavesNothing s run (.item item_id action)) :
    Covered db' (Rows.update s.runs rid (fun _ => { run with
      items := Rows.update run.items item_id (fun c => { c with stage := stage }) })) := by
  have hmem := Rows.find_mem hfind
  have hcmem := Rows.find_mem hc
  have hsome : run.items ≠ [] := List.ne_nil_of_mem hcmem
  have he : Engaged run := .inr ⟨c, hcmem, (item_moves hm).1⟩
  have hactive := h.active run hmem he
  have htables : ItemTables s.base.db run item_id stage db' := by
    refine item_tables hni hactive hc hm (fun hesc => ?_)
    subst hesc
    exact hok
  have hl : ∀ n items, run.stage ≠ .idle n ∧ run.stage ≠ .planned items := by
    have hst := (items_stage (h.consistent run hmem) hsome).2
    refine fun n items => ⟨fun hbad => ?_, fun hbad => ?_⟩
    all_goals rw [hbad] at hst; exact hst
  have hnew := item_active hactive hl hc htables
  have ho := item_outside hni hactive hc htables
  refine h.owned hn hfind (h.alone run hmem he) rfl
    (item_consistent (h.consistent run hmem) hsome _) ho (fun _ => hnew)
    (fun hne t ht hid => active_rested ?_ hnew hne ?_ ht hid)
  · rcases (item_moves hm).2 with ⟨st, e, at', rfl, _⟩ | ⟨rfl, _⟩
    · rw [set_map _ _ _ _ _ TaskItem.id (fun _ => rfl)]
      exact hni
    · exact hni
  · exact fun hnil => hsome (by simpa [Rows.update] using hnil)

theorem listed_consistent (hp : run.phase = .uploading) (hi : run.items = []) :
    Consistent { run with stage := TaskRunner.listed db k } := by
  refine ⟨fun _ => hi, ?_⟩
  by_cases hnil : uploadable db k = []
  · simp only [TaskRunner.listed, if_pos hnil]
    exact ⟨hp, hi⟩
  · simp only [TaskRunner.listed, if_neg hnil]
    exact ⟨hp, hi⟩

/-- No step of a run that leaves nothing stuck uncovers a task. -/
theorem move_covered {s : Background.State} (hnt : (s.base.db.tasks.map Task.id).Nodup)
    (hni : (s.base.db.items.map TaskItem.id).Nodup) (h : Covered s.base.db s.runs)
    (hn : (s.runs.map TaskRun.rid).Nodup) (hfind : Rows.find? s.runs rid = some run)
    (hok : LeavesNothing s run action) (hm : RunMove s.base.db run action db' next) :
    Covered db' (Background.setRun s.runs rid next) := by
  have hmem := Rows.find_mem hfind
  have hc := h.consistent run hmem
  have hst := hc.stage
  cases hm with
  | checked hstage =>
    rw [hstage] at hst
    exact quiet_covered h hn hfind rfl rfl rfl ⟨hc.fresh, hst⟩ (by simp)
  | refused e hstage => exact quiet_covered h hn hfind rfl rfl rfl ⟨hc.fresh, trivial⟩ (by simp)
  | started hstage => exact start_covered h hn hfind hstage hok
  | listed hstage =>
    rw [hstage] at hst
    have hactive := h.active run hmem (.inl hst.1)
    exact uploading_covered h hn hfind (.inl hst.1) hst.1 rfl (listed_consistent hst.1 hst.2)
      (listed_active hni hactive hst.2)
  | completed n hstage => exact complete_covered h hn hfind hstage
  | planned items hstage =>
    rw [hstage] at hst
    have hactive := h.active run hmem (.inl hst.1)
    have hp := hactive.listed
    rw [hstage] at hp
    refine uploading_covered h hn hfind (.inl hst.1) hst.1 rfl ⟨?_, hst.1, ?_⟩
      (planned_active hactive hst.2 hp)
    · simp [hst.1]
    · simpa using hp.some
  | item c db' stage hfindc hitem => exact item_covered hni h hn hfind hfindc hitem hok
  | finalized results hstage hres => exact finalize_covered hni h hn hfind hstage hres
  | published hstage =>
    rw [hstage] at hst
    exact quiet_covered h hn hfind rfl rfl rfl ⟨hc.fresh, by simp [hst]⟩ (by simp)
  | raised e hstage => exact quiet_covered h hn hfind rfl rfl rfl ⟨hc.fresh, trivial⟩ (by simp)
  | failed e hstage => exact fail_covered hnt hni h hn hfind hok
  | lost e hstage => exact quiet_covered h hn hfind rfl rfl rfl ⟨hc.fresh, hok⟩ (by simp)
  | left hstage hover =>
    rw [hstage] at hst
    refine h.dropped hn hfind ?_
    rintro (hp | ⟨c, hcmem, ho⟩)
    · exact hst hp
    · simp [hover c hcmem] at ho
  | crashed => exact h.dropped hn hfind hok

end FileDelivery.Proofs.RunSteps
