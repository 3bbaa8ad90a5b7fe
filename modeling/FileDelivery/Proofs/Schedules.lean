import FileDelivery.Library.Grouping
import FileDelivery.Worker.Concurrency

namespace FileDelivery.Proofs.Schedules
open FileDelivery.Library FileDelivery.Library.Runs FileDelivery.Worker FileDelivery.Worker.Pipeline

variable {task : DeliveryTask} {opts : Options} {item : DeliveryItem} {k k' : ItemState} {a : Answer}
  {r : DeliveryResultItem} {s t : Schedule}

/-- The calls that a `processItem` has still to make. -/
def callsLeft : ItemState → Nat
  | .resolving => 3
  | .limiting _ => 2
  | .uploading _ => 1
  | .returned _ => 0

theorem item_step_less (item : DeliveryItem) (k : ItemState) (a : Answer) (k' : ItemState)
    (h : itemStep opts item k a = some k') : callsLeft k' < callsLeft k := by
  unfold itemStep at h
  split at h <;> cases h
  case h_2 => split <;> simp [callsLeft]
  all_goals simp [callsLeft]

/-- Calls that return take every `processItem` to its end. -/
theorem item_goes_on (opts : Options) (o : Outcomes) (item : DeliveryItem) (k : ItemState) :
    ((itemRoutine opts).result k).isSome ∨
      ∃ a k', o.answers item k a ∧ (itemRoutine opts).step item k a = some k' := by
  cases k with
  | resolving =>
    refine .inr ⟨.resolve (o.resolve item), ?_⟩
    cases h : o.resolve item with
    | error e => exact ⟨_, h.symm, rfl⟩
    | ok src => exact ⟨_, h.symm, rfl⟩
  | limiting src =>
    refine .inr ⟨.beforeUpload (o.beforeUpload item), ?_⟩
    cases h : o.beforeUpload item with
    | error e => exact ⟨_, h.symm, rfl⟩
    | ok u => exact ⟨_, h.symm, rfl⟩
  | uploading src =>
    refine .inr ⟨.upload (o.upload item src), ?_⟩
    cases h : o.upload item src with
    | error e => exact ⟨_, h.symm, rfl⟩
    | ok receipt => exact ⟨_, h.symm, rfl⟩
  | returned result => exact .inl rfl

/-- The item's result, whatever its calls return. -/
def Possible (item : DeliveryItem) (r : DeliveryResultItem) : Prop :=
  ∃ src ok upload, r = processItem item src ok upload

theorem possible_step (item : DeliveryItem) (k : ItemState) (a : Answer) (k' : ItemState)
    (hk : ∀ r, k.result = some r → Possible item r) (h : itemStep opts item k a = some k') :
    ∀ r, k'.result = some r → Possible item r := by
  intro r hr
  unfold itemStep at h
  split at h <;> cases h
  case h_1 e => cases hr; exact ⟨.error e, .ok (), fun _ => .error e, rfl⟩
  case h_2 src => split at hr <;> cases hr
  case h_3 src e => cases hr; exact ⟨.ok src, .error e, fun _ => .error e, rfl⟩
  case h_4 => cases hr
  case h_5 src e => cases hr; exact ⟨.ok src, .ok (), fun _ => .error e, rfl⟩
  case h_6 src receipt => cases hr; exact ⟨.ok src, .ok (), fun _ => .ok receipt, rfl⟩

theorem possible_status (h : Possible item r) : r.status = "uploaded" ∨ r.status = "failed" := by
  obtain ⟨src, ok, upload, rfl⟩ := h
  unfold processItem
  split
  · exact .inr rfl
  · split
    · exact .inr rfl
    · split
      · exact .inr rfl
      · exact .inl rfl

/-- What a `processItem` has found out so far, with outcomes that depend on the item only. -/
def Follows (o : Outcomes) (opts : Options) (item : DeliveryItem) : ItemState → Prop
  | .resolving => True
  | .limiting src => o.resolve item = .ok src ∧ opts.beforeUpload = true
  | .uploading src => o.resolve item = .ok src ∧
      (opts.beforeUpload = true → o.beforeUpload item = .ok ())
  | .returned r => r = o.item opts item

theorem follows_step (o : Outcomes) (item : DeliveryItem) (k : ItemState) (a : Answer)
    (k' : ItemState) (hk : Follows o opts item k) (ha : o.answers item k a)
    (h : itemStep opts item k a = some k') : Follows o opts item k' := by
  unfold itemStep at h
  split at h <;> cases h
  case h_1 e =>
    have hres : o.resolve item = .error e := Eq.symm ha
    simp [Follows, Outcomes.item, processItem, hres]
  case h_2 src =>
    have hres : o.resolve item = .ok src := Eq.symm ha
    cases hb : opts.beforeUpload <;> simp [Follows, hres, hb]
  case h_3 src e =>
    have hbefore : o.beforeUpload item = .error e := Eq.symm ha
    simp [Follows, Outcomes.item, processItem, hk.1, hk.2, hbefore]
  case h_4 src =>
    exact ⟨hk.1, fun _ => Eq.symm ha⟩
  case h_5 src e =>
    have hup : o.upload item src = .error e := Eq.symm ha
    cases hb : opts.beforeUpload
    · simp [Follows, Outcomes.item, processItem, hk.1, hb, hup]
    · simp [Follows, Outcomes.item, processItem, hk.1, hb, hk.2 hb, hup]
  case h_6 src receipt =>
    have hup : o.upload item src = .ok receipt := Eq.symm ha
    cases hb : opts.beforeUpload
    · simp [Follows, Outcomes.item, processItem, hk.1, hb, hup]
    · simp [Follows, Outcomes.item, processItem, hk.1, hb, hk.2 hb, hup]

theorem capacity_pos (opts : Options) : 0 < maxConcurrency opts := by
  unfold maxConcurrency
  split <;> omega

theorem capacity_eq (opts : Options) : (maxConcurrency opts : Int) = max 1 opts.maxItemConcurrency := by
  unfold maxConcurrency
  split <;> omega

/-- A `processItem` that runs has a token. -/
theorem processing_le (s : Schedule) :
    s.routines.countP processing ≤ s.routines.countP Pool.Stage.holds := by
  apply List.countP_mono_left
  intro stage _ h
  cases stage <;> first | rfl | cases h

/-- What `ProcessTaskWithResolverOptions` owes when it returns. -/
structure Complete (task : DeliveryTask) (s : Schedule) (result : Result) (err : Option String) :
    Prop where
  /-- Each goroutine has run, and what its `processItem` returned is in the result. -/
  returned : s.routines = result.items.map .done
  items : List.Forall₂ Possible (uploadItems task) result.items
  uploaded : result.uploaded = result.items.countP (·.status == "uploaded")
  failed : result.failed = result.items.countP (·.status == "failed")
  sum : result.uploaded + result.failed = result.items.length
  error : err.isSome ↔ 0 < result.failed

theorem forall_right {α β : Type} {p : α → β → Prop} {q : β → Prop} {l : List α} {l' : List β}
    (h : List.Forall₂ p l l') (hq : ∀ a b, p a b → q b) : ∀ b ∈ l', q b := by
  induction h with
  | nil => simp
  | cons hp _ ih => exact List.forall_mem_cons.mpr ⟨hq _ _ hp, ih⟩

theorem map_of_forall {α β : Type} {f : α → β} {l : List α} {l' : List β}
    (h : List.Forall₂ (fun a b => b = f a) l l') : l' = l.map f := by
  induction h with
  | nil => rfl
  | cons hp _ ih => rw [List.map_cons, hp, ih]

theorem processed_some {x : Result × Option String} (h : processed task s = some x) :
    s.loop = .returned ∧ x = (collect s.slots, taskError task (collect s.slots)) := by
  unfold processed at h
  split at h
  · rename_i hl
    cases h
    exact ⟨hl, rfl⟩
  · cases h

theorem processed_none (h : processed task s = none) : s.loop ≠ .returned := by
  intro hl
  simp [processed, hl] at h

theorem run_complete (h : Run (scheduleStep task opts) Free (scheduled task) s)
    (hl : s.loop = .returned) :
    Complete task s (collect s.slots) (taskError task (collect s.slots)) := by
  have hfree : Run (scheduleStep task opts) (Pool.Answered (fun _ _ _ => True) (uploadItems task))
      (scheduled task) s := by
    refine h.mono (fun s a _ => ?_)
    cases a <;> simp [Pool.Answered]
  have hitems : List.Forall₂ Possible (uploadItems task) s.slots :=
    Pool.run_results (p := fun item k => ∀ r, k.result = some r → Possible item r)
      (fun item r hr => by cases hr) (fun item k a k' hk _ hn => possible_step item k a k' hk hn)
      (fun item k r hk hr => hk r hr) hfree hl
  have hstatus := forall_right hitems (fun _ _ => possible_status)
  refine ⟨(Pool.run_sound h).all_done hl, hitems, rfl, rfl, ?_, ?_⟩
  · simp only [collect]
    rw [Grouping.countP_either, List.countP_eq_length]
    · intro r hr
      simpa using hstatus r hr
    · intro r _ hr
      simp [beq_iff_eq.mp hr]
  · unfold taskError
    split
    · rename_i hpos
      simpa using hpos
    · rename_i hzero
      simpa using hzero

/-- With outcomes that depend on the item only the result does not depend on the schedule. -/
theorem run_sequential {o : Outcomes}
    (h : Run (scheduleStep task opts) (Pool.Answered o.answers (uploadItems task)) (scheduled task) s)
    (hl : s.loop = .returned) : s.slots = (uploadItems task).map (o.item opts) := by
  have hitems : List.Forall₂ (fun item r => r = o.item opts item) (uploadItems task) s.slots :=
    Pool.run_results (R := itemRoutine opts) (p := Follows o opts) (fun _ => trivial)
      (follows_step o) (fun item k r hk hr => by cases k <;> cases hr; exact hk) h hl
  exact map_of_forall hitems

/-- For every concurrency and every order of the steps of the loop and of the goroutines, the pipeline
comes to an end with the results of its items in their order; with outcomes that depend on the item
only it is the end that it comes to with one item at a time. -/
theorem schedule_independent (task : DeliveryTask) (opts : Options) :
    Acc (fun t s => ∃ a, scheduleStep task opts s a = some t) (scheduled task) ∧
    (∀ s, Run (scheduleStep task opts) Free (scheduled task) s →
      (s.routines.countP processing : Int) ≤ max 1 opts.maxItemConcurrency ∧
      (processed task s = none → ∃ a t, scheduleStep task opts s a = some t) ∧
      ∀ result err, processed task s = some (result, err) → Complete task s result err) ∧
    ∀ (o : Outcomes) (s : Schedule), Run (scheduleStep task opts)
        (Pool.Answered o.answers (uploadItems task)) (scheduled task) s →
      (processed task s = none → ∃ a t, Pool.Answered o.answers (uploadItems task) s a ∧
        scheduleStep task opts s a = some t) ∧
      ∀ t, Run (scheduleStep task { opts with maxItemConcurrency := 1 })
          (Pool.Answered o.answers (uploadItems task)) (scheduled task) t →
        ∀ r q, processed task s = some r → processed task t = some q → r = q ∧
          r.1.items = (uploadItems task).map (o.item opts) := by
  refine ⟨?_, ?_, ?_⟩
  · exact Pool.pool_ends callsLeft item_step_less _
  · intro s hrun
    have hs := Pool.run_sound hrun
    refine ⟨?_, ?_, ?_⟩
    · have := Nat.le_trans (processing_le s) hs.holds_le
      rw [← capacity_eq]
      exact_mod_cast this
    · intro hnone
      let o : Outcomes := ⟨fun _ => .ok [], fun _ => .ok (), fun _ _ => .error ""⟩
      obtain ⟨a, t, _, ht⟩ := Pool.goes_on (item_goes_on opts o) (capacity_pos opts) hs
        (processed_none hnone)
      exact ⟨a, t, ht⟩
    · intro result err hsome
      obtain ⟨hl, he⟩ := processed_some hsome
      cases he
      exact run_complete hrun hl
  · intro o s hrun
    refine ⟨?_, ?_⟩
    · intro hnone
      exact Pool.goes_on (item_goes_on opts o) (capacity_pos opts) (Pool.run_sound hrun)
        (processed_none hnone)
    · intro t hseq r q hr hq
      obtain ⟨hl, rfl⟩ := processed_some hr
      obtain ⟨hl', rfl⟩ := processed_some hq
      have hslots := run_sequential hrun hl
      have hone : t.slots = (uploadItems task).map (o.item { opts with maxItemConcurrency := 1 }) :=
        run_sequential hseq hl'
      have hsame : t.slots = s.slots := hone.trans hslots.symm
      rw [hsame]
      exact ⟨rfl, hslots⟩

end FileDelivery.Proofs.Schedules
