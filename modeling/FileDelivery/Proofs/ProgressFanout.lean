import FileDelivery.Control.ProgressBus

namespace FileDelivery.Proofs.ProgressFanout
open FileDelivery.Library.Fanout FileDelivery.Control FileDelivery.Control.ProgressBus

variable {ε : Type} {bus : MemoryBus ε} {events : List (Event Text (Option ε))}

/-- The bus after some events. -/
structure Exact (bus : MemoryBus ε) (events : List (Event Text (Option ε))) : Prop where
  lists : Lists bus.backend._subscribers bus.contexts
  contexts : ∀ q, bus.contexts q = listens q events
  queues : ∀ q, bus.queues q = heard q events
  fresh : ∀ q, bus.next ≤ q → bus.contexts q = none ∧ bus.queues q = []

theorem exact_initial : Exact (MemoryBus.initial : MemoryBus ε) [] where
  lists := lists_empty
  contexts _ := rfl
  queues _ := rfl
  fresh _ _ := ⟨rfl, rfl⟩

theorem Exact.subscribe (h : Exact bus events) (task_id : Text) :
    Exact (bus.step (.subscribe task_id)) (events ++ [.subscribed bus.next task_id]) where
  lists := h.lists.add (h.fresh bus.next (Nat.le_refl _)).1 task_id
  contexts q := by
    rw [listens_snoc, ← h.contexts]
    simp only [MemoryBus.step, follow]
    by_cases hq : bus.next = q
    · subst hq
      rw [Function.update_self, if_pos rfl]
    · rw [Function.update_of_ne (Ne.symm hq), if_neg hq]
  queues q := by
    rw [heard_snoc, ← h.queues]
    simp [MemoryBus.step, carried]
  fresh q hq := by
    have hlt : bus.next < q := hq
    simp only [MemoryBus.step]
    rw [Function.update_of_ne (Nat.ne_of_gt hlt)]
    exact h.fresh q (Nat.le_of_lt hlt)

theorem Exact.unsubscribe (h : Exact bus events) (queue : Nat) :
    Exact (bus.step (.unsubscribe queue)) (events ++ [.unsubscribed queue]) := by
  have hqueues : ∀ q, bus.queues q = heard q (events ++ [.unsubscribed queue]) := by
    intro q
    rw [heard_snoc, ← h.queues]
    simp [carried]
  have hlistens : ∀ q, listens q (events ++ [.unsubscribed queue]) =
      if queue = q then none else bus.contexts q := by
    intro q
    rw [listens_snoc, ← h.contexts, follow]
  cases hc : bus.contexts queue with
  | none =>
    have hsame : bus.step (.unsubscribe queue) = bus := by simp only [MemoryBus.step, hc]
    rw [hsame]
    refine ⟨h.lists, fun q => ?_, hqueues, h.fresh⟩
    rw [hlistens]
    split
    · rename_i hq
      rw [← hq, hc]
    · rfl
  | some task_id =>
    have hclosed : ∀ q, Function.update bus.contexts queue none q =
        if queue = q then none else bus.contexts q := by
      intro q
      by_cases hq : queue = q
      · subst hq
        rw [Function.update_self, if_pos rfl]
      · rw [Function.update_of_ne (Ne.symm hq), if_neg hq]
    simp only [MemoryBus.step, hc]
    refine ⟨h.lists.drop hc, fun q => ?_, hqueues, fun q hq => ?_⟩
    · rw [hlistens]
      exact hclosed q
    · refine ⟨(hclosed q).trans ?_, (h.fresh q hq).2⟩
      split
      · rfl
      · exact (h.fresh q hq).1

/-- Both kinds of messages. -/
theorem Exact.post (h : Exact bus events) (task_id : Text) (message : Option ε) :
    Exact { bus with
      queues := post bus.queues (bus.backend._subscribers.subscribers task_id) message }
      (events ++ [.sent task_id message]) where
  lists := h.lists
  contexts q := by
    rw [listens_snoc, ← h.contexts]
    rfl
  queues q := by
    rw [heard_snoc, ← h.queues, ← h.contexts]
    exact h.lists.post bus.queues task_id message q
  fresh q hq := by
    obtain ⟨hnone, hempty⟩ := h.fresh q hq
    refine ⟨hnone, (h.lists.post bus.queues task_id message q).trans ?_⟩
    rw [hnone, hempty]
    rfl

theorem Exact.step (h : Exact bus events) (op : Operation ε) :
    Exact (bus.step op) (events ++ [op.event bus.next]) ∧ (bus.step op).next = op.after bus.next := by
  cases op with
  | subscribe task_id => exact ⟨h.subscribe task_id, rfl⟩
  | unsubscribe queue =>
    refine ⟨h.unsubscribe queue, ?_⟩
    simp only [MemoryBus.step, Operation.after]
    split
    all_goals rfl
  | publish task_id event => exact ⟨h.post task_id (some event), rfl⟩
  | close_task task_id => exact ⟨h.post task_id none, rfl⟩

theorem Exact.run (h : Exact bus events) (operations : List (Operation ε)) :
    Exact (operations.foldl MemoryBus.step bus) (events ++ happened bus.next operations) := by
  induction operations generalizing bus events with
  | nil => simpa [happened] using h
  | cons op operations ih =>
    obtain ⟨hstep, hnext⟩ := h.step op
    have := ih hstep
    rw [hnext, List.append_assoc] at this
    exact this

/-- After any operations each queue holds what was sent for its task while it was subscribed,
and every entry of the registry has subscribers, which are all subscribed. -/
theorem fan_out_exact (operations : List (Operation ε)) :
    let bus := MemoryBus.run operations
    (∀ q, bus.queues q = heard q (happened 0 operations)) ∧
      ∀ task_id subs, bus.backend._subscribers task_id = some subs →
        subs ≠ [] ∧ ∀ q ∈ subs, listens q (happened 0 operations) = some task_id := by
  have h := exact_initial.run operations
  refine ⟨h.queues, fun task_id subs hsubs => ⟨h.lists.tidy task_id subs hsubs, fun q hq => ?_⟩⟩
  have hmem : q ∈ (MemoryBus.run operations).backend._subscribers.subscribers task_id := by
    rw [Registry.subscribers, hsubs]
    exact hq
  exact (h.contexts q).symm.trans ((h.lists.mem task_id q).mp hmem)

end FileDelivery.Proofs.ProgressFanout
