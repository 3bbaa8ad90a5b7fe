import FileDelivery.Library.Runs
import FileDelivery.Proofs.ProgressFanout

namespace FileDelivery.Proofs.RedisProgress
open FileDelivery.Library FileDelivery.Library.Fanout FileDelivery.Library.Runs
open FileDelivery.Control FileDelivery.Control.ProgressBus

/-- The Redis backend, and the memory backend with the same operations. -/
structure Pair where
  redis : RedisBus
  memory : MemoryBus Dict

def initial : Pair := ⟨RedisBus.initial, MemoryBus.initial⟩

/-- What a caller asks for; it knows nothing of Redis. -/
def operation : RedisAction → Option (Operation Dict)
  | .subscribe task_id _ => some (.subscribe task_id)
  | .unsubscribe queue => some (.unsubscribe queue)
  | .publish task_id event _ => some (.publish task_id event)
  | .close_task task_id _ => some (.close_task task_id)
  | .pump _ => none

def step (s : Pair) (a : RedisAction) : Option Pair :=
  some ⟨s.redis.step a, (operation a).elim s.memory s.memory.step⟩

/-- What is on its way to a queue. -/
def inFlight (bus : RedisBus) (q : Nat) : List (Option Dict) :=
  ((bus.pubsubs q).elim [] (·.pending)).filterMap pumped

/-- Subscribers have what the memory backend would have given them, up to what is on its way;
after its end a subscription may lack what was on its way then. -/
structure Refines (s : Pair) : Prop where
  opened : ∀ q, (s.redis.contexts q).isSome → s.redis.queues q ++ inFlight s.redis q = s.memory.queues q
  closed : ∀ q, s.redis.contexts q = none → s.redis.queues q <+: s.memory.queues q

/-- No subscriber of the task listens through Redis. -/
def Unheard (bus : RedisBus) (task_id : Text) : Prop :=
  ∀ q < bus.next, bus.contexts q = some task_id → (bus.pubsubs q).isSome = false

instance (bus : RedisBus) (task_id : Text) : Decidable (Unheard bus task_id) :=
  inferInstanceAs (Decidable (∀ q < bus.next, _))

/-- A message that does not reach the server has nobody to reach there. -/
def Passed (s : Pair) : RedisAction → Prop
  | .publish task_id _ reached | .close_task task_id reached =>
    reached = false → Unheard s.redis task_id
  | _ => True

instance (s : Pair) : (a : RedisAction) → Decidable (Passed s a)
  | .publish task_id _ reached | .close_task task_id reached =>
    inferInstanceAs (Decidable (reached = false → Unheard s.redis task_id))
  | .subscribe _ _ | .unsubscribe _ | .pump _ => .isTrue trivial

/-- The task of a subscriber that listens through the fallback. -/
def fallbackTask (bus : RedisBus) (q : Nat) : Option Text :=
  if (bus.pubsubs q).isSome then none else bus.contexts q

/-- How the two keep step. -/
structure Mirrors (s : Pair) : Prop where
  exact : ∃ events, ProgressFanout.Exact s.memory events
  contexts : s.redis.contexts = s.memory.contexts
  next : s.redis.next = s.memory.next
  fallback : Lists s.redis._fallback._subscribers (fallbackTask s.redis)
  channels : ∀ q pubsub, s.redis.pubsubs q = some pubsub →
    ∃ task_id, s.redis.contexts q = some task_id ∧ pubsub.channel = _channel task_id

theorem channel_injective (h : _channel t = _channel t') : t = t' := List.append_cancel_left h

theorem pumped_close : pumped _CLOSE_MESSAGE = some none := if_pos rfl

/-- The text of a dict starts with a brace, unlike the sentinel. -/
theorem pumped_event (event : Dict) : pumped (JsonText.dumps (.obj event)) = some (some event) := by
  have hne : JsonText.dumps (.obj event) ≠ _CLOSE_MESSAGE := by
    intro h
    have := congrArg List.head? h
    rw [JsonText.dumps, List.head?_cons] at this
    exact absurd this (by decide)
  rw [pumped, if_neg hne, JsonText.loads_dumps]

section Send
variable {s : Pair} (task_id data : Text) (message : Option Dict) (reached : Bool)

/-- `publish` and `close_task`. -/
def send (bus : RedisBus) : RedisBus :=
  { bus with
    pubsubs := if reached then redisPublish bus.pubsubs (_channel task_id) data else bus.pubsubs
    queues := post bus.queues (bus._fallback._subscribers.subscribers task_id) message }

def sendMemory (bus : MemoryBus Dict) : MemoryBus Dict :=
  { bus with queues := post bus.queues (bus.backend._subscribers.subscribers task_id) message }

theorem send_pubsubs (bus : RedisBus) (q : Nat) :
    ((send task_id data message reached bus).pubsubs q).isSome = (bus.pubsubs q).isSome := by
  cases reached <;> simp [send, redisPublish]

theorem send_mirrors (h : Mirrors s) :
    Mirrors ⟨send task_id data message reached s.redis, sendMemory task_id message s.memory⟩ := by
  obtain ⟨events, hexact⟩ := h.exact
  refine ⟨⟨_, hexact.post task_id message⟩, h.contexts, h.next, ?_, fun q pubsub hp => ?_⟩
  · have hsame : fallbackTask (send task_id data message reached s.redis) = fallbackTask s.redis := by
      funext q
      rw [fallbackTask, send_pubsubs]
      rfl
    exact hsame ▸ h.fallback
  · have hold : ∃ old, s.redis.pubsubs q = some old ∧ old.channel = pubsub.channel := by
      cases reached with
      | false => exact ⟨pubsub, hp, rfl⟩
      | true =>
        obtain ⟨old, hold, rfl⟩ := Option.map_eq_some_iff.mp hp
        refine ⟨old, hold, ?_⟩
        split
        all_goals rfl
    obtain ⟨old, hold, hchannel⟩ := hold
    rw [← hchannel]
    exact h.channels q old hold

/-- A subscriber of the task is missed if it listens through Redis and the message does not
get there; all others are reached. -/
theorem send_received (h : Mirrors s) (hdata : pumped data = some message) (q : Nat) :
    (send task_id data message reached s.redis).queues q ++
        inFlight (send task_id data message reached s.redis) q =
      s.redis.queues q ++ inFlight s.redis q ++
        if s.redis.contexts q = some task_id ∧ ((s.redis.pubsubs q).isSome → reached) then [message]
        else [] := by
  have hposted := h.fallback.post s.redis.queues task_id message q
  simp only [carried, fallbackTask] at hposted
  have hqueues : (send task_id data message reached s.redis).queues q =
      post s.redis.queues (s.redis._fallback._subscribers.subscribers task_id) message q := rfl
  rw [hqueues, hposted]
  rcases Option.eq_none_or_eq_some (s.redis.pubsubs q) with hp | ⟨pubsub, hp⟩
  · have hnone : (send task_id data message reached s.redis).pubsubs q = none := by
      have := send_pubsubs task_id data message reached s.redis q
      rw [hp] at this
      simpa using this
    simp [inFlight, hp, hnone]
  · obtain ⟨t, ht, hchannel⟩ := h.channels q pubsub hp
    have htask : pubsub.channel = _channel task_id ↔ t = task_id := by
      rw [hchannel]
      exact ⟨channel_injective, congrArg _⟩
    cases reached with
    | false => simp [inFlight, send, hp]
    | true =>
      by_cases htt : t = task_id
      · simp [inFlight, send, redisPublish, hp, htask.mpr htt, ht, htt, hdata]
      · simp [inFlight, send, redisPublish, hp, mt htask.mp htt, ht, htt]

theorem send_refines (h : Mirrors s) (hr : Refines s) (hdata : pumped data = some message) :
    Refines ⟨send task_id data message reached s.redis, sendMemory task_id message s.memory⟩ ↔
      (reached = false → Unheard s.redis task_id) := by
  obtain ⟨events, hexact⟩ := h.exact
  have hmemory : ∀ q, (sendMemory task_id message s.memory).queues q =
      s.memory.queues q ++ if s.redis.contexts q = some task_id then [message] else [] := by
    intro q
    rw [h.contexts]
    exact hexact.lists.post s.memory.queues task_id message q
  have hreceived := send_received task_id data message reached h hdata
  constructor
  · intro hafter hlost q _ htask
    have hboth := (hreceived q).symm.trans ((hafter.opened q (by simp [send, htask])).trans (hmemory q))
    rw [hr.opened q (by simp [htask]), if_pos htask] at hboth
    by_contra hp
    have hp : (s.redis.pubsubs q).isSome = true := (Bool.not_eq_false _).mp hp
    rw [if_neg (by simp [hp, hlost])] at hboth
    simp at hboth
  · intro hpassed
    refine ⟨fun q hq => ?_, fun q hq => ?_⟩
    · have hopen : (s.redis.contexts q).isSome := hq
      refine (hreceived q).trans (Eq.trans ?_ (hmemory q).symm)
      rw [hr.opened q hopen]
      by_cases htask : s.redis.contexts q = some task_id
      · rw [if_pos htask, if_pos]
        refine ⟨htask, fun hp => ?_⟩
        by_contra hlost
        have hlt : q < s.redis.next := by
          by_contra hge
          rw [h.next] at hge
          rw [h.contexts, (hexact.fresh q (by omega)).1] at htask
          cases htask
        rw [hpassed (by simpa using hlost) q hlt htask] at hp
        cases hp
      · rw [if_neg htask, if_neg (fun hboth => htask hboth.1)]
    · have hclosed : s.redis.contexts q = none := hq
      have hpost := h.fallback.post s.redis.queues task_id message q
      have hnone : fallbackTask s.redis q = none := by
        unfold fallbackTask
        split
        · rfl
        · exact hclosed
      rw [hnone] at hpost
      rw [hmemory, hclosed]
      have hsame : (send task_id data message reached s.redis).queues q = s.redis.queues q := by
        refine hpost.trans ?_
        simp [carried]
      simpa [hsame] using hr.closed q hclosed

end Send

/-- Only an open block listens through Redis. -/
theorem Mirrors.unlistened (h : Mirrors s) (hq : s.redis.contexts q = none) :
    s.redis.pubsubs q = none := by
  rw [Option.eq_none_iff_forall_ne_some]
  intro pubsub hp
  obtain ⟨t, ht, _⟩ := h.channels q pubsub hp
  rw [hq] at ht
  cases ht

theorem Mirrors.unused (h : Mirrors s) (hq : s.redis.next ≤ q) :
    s.redis.contexts q = none ∧ s.redis.pubsubs q = none ∧ s.memory.queues q = [] := by
  obtain ⟨events, hexact⟩ := h.exact
  obtain ⟨hnone, hempty⟩ := hexact.fresh q (h.next ▸ hq)
  rw [← h.contexts] at hnone
  exact ⟨hnone, h.unlistened hnone, hempty⟩

theorem subscribe_mirrors (h : Mirrors s) (task_id : Text) (confirmed : Bool) :
    Mirrors ⟨s.redis.subscribe task_id confirmed, s.memory.step (.subscribe task_id)⟩ := by
  obtain ⟨events, hexact⟩ := h.exact
  obtain ⟨hnone, hpubsub, _⟩ := h.unused (Nat.le_refl s.redis.next)
  have hcontexts : (s.redis.subscribe task_id confirmed).contexts =
      (s.memory.step (.subscribe task_id)).contexts := by
    simp only [RedisBus.subscribe, MemoryBus.step, h.contexts, h.next]
  refine ⟨⟨_, hexact.subscribe task_id⟩, hcontexts, congrArg (· + 1) h.next, ?_, ?_⟩
  · cases confirmed with
    | true =>
      have hsame : fallbackTask (s.redis.subscribe task_id true) = fallbackTask s.redis := by
        funext q
        by_cases hq : q = s.redis.next
        · subst hq
          simp [fallbackTask, RedisBus.subscribe, hnone]
        · simp [fallbackTask, RedisBus.subscribe, Function.update_of_ne hq]
      exact hsame ▸ h.fallback
    | false =>
      have hadded : fallbackTask (s.redis.subscribe task_id false) =
          Function.update (fallbackTask s.redis) s.redis.next (some task_id) := by
        funext q
        by_cases hq : q = s.redis.next
        · subst hq
          simp [fallbackTask, RedisBus.subscribe, hpubsub]
        · simp [fallbackTask, RedisBus.subscribe, Function.update_of_ne hq]
      rw [hadded]
      exact h.fallback.add (by simp [fallbackTask, hnone]) task_id
  · intro q pubsub hp
    by_cases hq : q = s.redis.next
    · subst hq
      refine ⟨task_id, by simp [RedisBus.subscribe], ?_⟩
      cases confirmed with
      | true =>
        simp only [RedisBus.subscribe, if_true, Function.update_self, Option.some.injEq] at hp
        rw [← hp]
      | false => simp [RedisBus.subscribe, hpubsub] at hp
    · have hold : s.redis.pubsubs q = some pubsub := by
        cases confirmed <;> simpa [RedisBus.subscribe, Function.update_of_ne hq] using hp
      obtain ⟨t, ht, hchannel⟩ := h.channels q pubsub hold
      exact ⟨t, by simpa [RedisBus.subscribe, Function.update_of_ne hq] using ht, hchannel⟩

theorem subscribe_refines (h : Mirrors s) (hr : Refines s) (task_id : Text) (confirmed : Bool) :
    Refines ⟨s.redis.subscribe task_id confirmed, s.memory.step (.subscribe task_id)⟩ := by
  obtain ⟨hnone, hpubsub, hempty⟩ := h.unused (Nat.le_refl s.redis.next)
  have hnew : s.redis.queues s.redis.next = [] := by
    have := hr.closed s.redis.next hnone
    rw [hempty] at this
    exact List.prefix_nil.mp this
  refine ⟨fun q hq => ?_, fun q hq => ?_⟩
  · by_cases hqn : q = s.redis.next
    · subst hqn
      have hflight : inFlight (s.redis.subscribe task_id confirmed) s.redis.next = [] := by
        cases confirmed <;> simp [inFlight, RedisBus.subscribe, hpubsub]
      rw [hflight, List.append_nil]
      exact hnew.trans hempty.symm
    · have hold : (s.redis.contexts q).isSome := by
        simpa [RedisBus.subscribe, Function.update_of_ne hqn] using hq
      have hflight : inFlight (s.redis.subscribe task_id confirmed) q = inFlight s.redis q := by
        cases confirmed <;> simp [inFlight, RedisBus.subscribe, Function.update_of_ne hqn]
      rw [hflight]
      exact hr.opened q hold
  · by_cases hqn : q = s.redis.next
    · subst hqn
      simp [RedisBus.subscribe] at hq
    · exact hr.closed q (by simpa [RedisBus.subscribe, Function.update_of_ne hqn] using hq)

theorem unsubscribe_mirrors (h : Mirrors s) (queue : Nat) :
    Mirrors ⟨s.redis.unsubscribe queue, s.memory.step (.unsubscribe queue)⟩ := by
  obtain ⟨events, hexact⟩ := h.exact
  cases hc : s.redis.contexts queue with
  | none =>
    have hredis : s.redis.unsubscribe queue = s.redis := by simp only [RedisBus.unsubscribe, hc]
    have hmemory : s.memory.step (.unsubscribe queue) = s.memory := by
      rw [h.contexts] at hc
      simp only [MemoryBus.step, hc]
    rw [hredis, hmemory]
    exact h
  | some task_id =>
    have hmem : s.memory.contexts queue = some task_id := h.contexts ▸ hc
    refine ⟨⟨_, hexact.unsubscribe queue⟩, ?_, ?_, ?_, fun q pubsub hp => ?_⟩
    · simp only [RedisBus.unsubscribe, MemoryBus.step, hc, hmem, h.contexts]
    · simp only [RedisBus.unsubscribe, MemoryBus.step, hc, hmem, h.next]
    · have hleft : fallbackTask (s.redis.unsubscribe queue) =
          Function.update (fallbackTask s.redis) queue none := by
        funext q
        by_cases hq : q = queue
        · subst hq
          simp [fallbackTask, RedisBus.unsubscribe, hc]
        · simp [fallbackTask, RedisBus.unsubscribe, hc, Function.update_of_ne hq]
      rw [hleft]
      by_cases hp : (s.redis.pubsubs queue).isSome = true
      · have hsame : Function.update (fallbackTask s.redis) queue none = fallbackTask s.redis := by
          rw [Function.update_eq_self_iff, fallbackTask, if_pos hp]
        rw [hsame]
        simpa [RedisBus.unsubscribe, hc, hp] using h.fallback
      · have hlisted : fallbackTask s.redis queue = some task_id := by rw [fallbackTask, if_neg hp, hc]
        simpa [RedisBus.unsubscribe, MemoryProgressBackend.leave, hc, hp] using
          h.fallback.drop hlisted
    · simp only [RedisBus.unsubscribe, hc] at hp ⊢
      by_cases hq : q = queue
      · subst hq
        rw [Function.update_self] at hp
        cases hp
      · rw [Function.update_of_ne hq] at hp ⊢
        exact h.channels q pubsub hp

theorem unsubscribe_refines (hr : Refines s) (queue : Nat) :
    Refines ⟨s.redis.unsubscribe queue, s.memory.step (.unsubscribe queue)⟩ := by
  have hqueues : (s.redis.unsubscribe queue).queues = s.redis.queues ∧
      (s.memory.step (.unsubscribe queue)).queues = s.memory.queues := by
    simp only [RedisBus.unsubscribe, MemoryBus.step]
    constructor
    all_goals
      split
      all_goals rfl
  have hother : ∀ q, q ≠ queue →
      (s.redis.unsubscribe queue).contexts q = s.redis.contexts q ∧
        (s.redis.unsubscribe queue).pubsubs q = s.redis.pubsubs q := by
    intro q hq
    simp only [RedisBus.unsubscribe]
    split
    · exact ⟨rfl, rfl⟩
    · exact ⟨Function.update_of_ne hq _ _, Function.update_of_ne hq _ _⟩
  have hclosed : (s.redis.unsubscribe queue).contexts queue = none := by
    simp only [RedisBus.unsubscribe]
    split
    · assumption
    · exact Function.update_self _ _ _
  refine ⟨fun q hq => ?_, fun q hq => ?_⟩
  · by_cases hqq : q = queue
    · subst hqq
      simp only [hclosed] at hq
      cases hq
    · obtain ⟨hcontext, hpubsub⟩ := hother q hqq
      simp only [hcontext] at hq
      simp only [hqueues, inFlight, hpubsub]
      exact hr.opened q hq
  · simp only [hqueues]
    by_cases hqq : q = queue
    · subst hqq
      rcases Option.eq_none_or_eq_some (s.redis.contexts q) with hnone | ⟨task_id, hsome⟩
      · exact hr.closed q hnone
      · exact ⟨inFlight s.redis q, hr.opened q (by simp [hsome])⟩
    · exact hr.closed q ((hother q hqq).1.symm.trans hq)

/-- A turn of a pump moves a message on, and nothing else. -/
theorem pump_moves (bus : RedisBus) (queue : Nat) :
    (bus.pump queue).contexts = bus.contexts ∧ (bus.pump queue).next = bus.next ∧
      (bus.pump queue)._fallback = bus._fallback ∧
      (∀ q, ((bus.pump queue).pubsubs q).map (·.channel) = (bus.pubsubs q).map (·.channel)) ∧
      (∀ q, (bus.pump queue).queues q ++ inFlight (bus.pump queue) q =
        bus.queues q ++ inFlight bus q) ∧
      ∀ q, bus.pubsubs q = none → (bus.pump queue).queues q = bus.queues q := by
  unfold RedisBus.pump
  split
  · rename_i channel data pending hp
    refine ⟨rfl, rfl, rfl, fun q => ?_, fun q => ?_, fun q hq => ?_⟩
    · by_cases h : q = queue
      · subst h
        simp [hp]
      · simp [Function.update_of_ne h]
    · by_cases h : q = queue
      · subst h
        simp only [inFlight, Function.update_self, hp, Option.elim_some, List.append_assoc]
        cases hd : pumped data <;> simp [hd]
      · simp [inFlight, Function.update_of_ne h]
    · by_cases h : q = queue
      · subst h
        rw [hq] at hp
        cases hp
      · simp [Function.update_of_ne h]
  · exact ⟨rfl, rfl, rfl, fun _ => rfl, fun _ => rfl, fun _ _ => rfl⟩

theorem pump_mirrors (h : Mirrors s) (queue : Nat) : Mirrors ⟨s.redis.pump queue, s.memory⟩ := by
  obtain ⟨hcontexts, hnext, hfallback, hchannels, _, _⟩ := pump_moves s.redis queue
  refine ⟨h.exact, hcontexts.trans h.contexts, hnext.trans h.next, ?_, fun q pubsub hp => ?_⟩
  · have hsame : fallbackTask (s.redis.pump queue) = fallbackTask s.redis := by
      funext q
      have := congrArg Option.isSome (hchannels q)
      simp only [Option.isSome_map] at this
      simp only [fallbackTask, this, hcontexts]
    show Lists (s.redis.pump queue)._fallback._subscribers (fallbackTask (s.redis.pump queue))
    rw [hsame, hfallback]
    exact h.fallback
  · have hmap := hchannels q
    simp only at hp
    rw [hp, Option.map_some] at hmap
    obtain ⟨old, hold, hchannel⟩ := Option.map_eq_some_iff.mp hmap.symm
    obtain ⟨t, ht, hc⟩ := h.channels q old hold
    exact ⟨t, by rw [hcontexts, ht], hchannel.symm.trans hc⟩

theorem pump_refines (h : Mirrors s) (hr : Refines s) (queue : Nat) :
    Refines ⟨s.redis.pump queue, s.memory⟩ := by
  obtain ⟨hcontexts, _, _, _, hboth, hidle⟩ := pump_moves s.redis queue
  refine ⟨fun q hq => (hboth q).trans (hr.opened q ?_), fun q hq => ?_⟩
  · rw [← hcontexts]
    exact hq
  · have hclosed : s.redis.contexts q = none := hcontexts ▸ hq
    have hnone := h.unlistened hclosed
    show (s.redis.pump queue).queues q <+: s.memory.queues q
    rw [hidle q hnone]
    exact hr.closed q hclosed

theorem step_mirrors (h : Mirrors s) (hs : step s a = some t) : Mirrors t := by
  cases hs
  cases a with
  | subscribe task_id confirmed => exact subscribe_mirrors h task_id confirmed
  | unsubscribe queue => exact unsubscribe_mirrors h queue
  | publish task_id event reached => exact send_mirrors task_id _ (some event) reached h
  | close_task task_id reached => exact send_mirrors task_id _ none reached h
  | pump queue => exact pump_mirrors h queue

/-- Only a message that gets lost tells the backends apart. -/
theorem step_refines (h : Mirrors s) (hr : Refines s) (hs : step s a = some t) :
    Refines t ↔ Passed s a := by
  cases hs
  cases a with
  | subscribe task_id confirmed => exact iff_of_true (subscribe_refines h hr task_id confirmed) trivial
  | unsubscribe queue => exact iff_of_true (unsubscribe_refines hr queue) trivial
  | publish task_id event reached =>
    exact send_refines task_id _ (some event) reached h hr (pumped_event event)
  | close_task task_id reached => exact send_refines task_id _ none reached h hr pumped_close
  | pump queue => exact iff_of_true (pump_refines h hr queue) trivial

theorem mirrors_initial : Mirrors initial where
  exact := ⟨[], ProgressFanout.exact_initial⟩
  contexts := rfl
  next := rfl
  fallback := lists_empty
  channels _ _ h := nomatch h

theorem refines_initial : Refines initial where
  opened _ h := nomatch h
  closed _ _ := List.prefix_refl _

theorem reachable_mirrors (h : Run step ok initial s) : Mirrors s :=
  h.invariant Mirrors mirrors_initial (fun _ _ _ hm _ hs => step_mirrors hm hs)

theorem reachable_refines (h : Run step Passed initial s) : Refines s :=
  h.invariant_given Refines Mirrors (fun _ => reachable_mirrors) refines_initial
    (fun _ _ _ hm hr hok hs => (step_refines hm hr hs).mpr hok)

/-- A pump gets to the end of what is on its way. -/
theorem pump_drains (s : Pair) (queue : Nat) :
    ∃ t, Run step (fun _ a => a = .pump queue) s t ∧ t.memory = s.memory ∧
      t.redis.contexts = s.redis.contexts ∧ inFlight t.redis queue = [] := by
  generalize hn : ((s.redis.pubsubs queue).elim [] (·.pending)).length = n
  induction n generalizing s with
  | zero =>
    refine ⟨s, .refl s, rfl, rfl, ?_⟩
    rw [inFlight, List.length_eq_zero_iff.mp hn, List.filterMap_nil]
  | succ n ih =>
    rcases Option.eq_none_or_eq_some (s.redis.pubsubs queue) with hp | ⟨⟨channel, pending⟩, hp⟩
    · rw [hp] at hn
      cases hn
    · cases pending with
      | nil =>
        rw [hp] at hn
        cases hn
      | cons data pending =>
        have hless : ((((s.redis.pump queue).pubsubs queue)).elim [] (·.pending)).length = n := by
          rw [hp] at hn
          simp only [RedisBus.pump, hp, Function.update_self]
          exact Nat.succ.inj hn
        obtain ⟨t, hrun, hmemory, hcontexts, hempty⟩ := ih ⟨s.redis.pump queue, s.memory⟩ hless
        have hfirst : Run step (fun _ a => a = .pump queue) s ⟨s.redis.pump queue, s.memory⟩ :=
          .tail (.refl s) rfl rfl
        refine ⟨t, hfirst.trans hrun, hmemory, ?_, hempty⟩
        exact hcontexts.trans (pump_moves s.redis queue).1

/-- As long as no message gets lost, every subscriber has got what the memory backend would have
given it, its pump can bring the rest, and only a message that gets lost changes that. -/
theorem refines_memory (h : Run step Passed initial s) :
    Refines s ∧
    (∀ q, (s.redis.contexts q).isSome → ∃ t, Run step (fun _ a => a = .pump q) s t ∧
      t.memory = s.memory ∧ t.redis.queues q = s.memory.queues q) ∧
    ∀ a t, step s a = some t → (Refines t ↔ Passed s a) := by
  have hmirrors := reachable_mirrors h
  have hrefines := reachable_refines h
  refine ⟨hrefines, fun q hq => ?_, fun a t hs => step_refines hmirrors hrefines hs⟩
  obtain ⟨t, hrun, hmemory, hcontexts, hempty⟩ := pump_drains s q
  have hpumps : Run step Passed s t := hrun.mono (fun u a ha => by
    subst ha
    trivial)
  have hboth := (reachable_refines (h.trans hpumps)).opened q (hcontexts ▸ hq)
  rw [hempty, List.append_nil, hmemory] at hboth
  exact ⟨t, hrun, hmemory, hboth⟩

/-- One subscriber has come in through Redis and one through the fallback. -/
def subscribed : List RedisAction := [.subscribe "0" true, .subscribe "0" false]

def done : Dict := [("type", .str "task_done"), ("failed", .num 0)]

/-- Both get an event; the sentinel is on its way to the first. A message of another task is
lost where nobody listens to it. -/
theorem refined_run : ∃ s, (s.redis.queues 0).length = 1 ∧ (s.redis.queues 1).length = 2 ∧ Refines s := by
  obtain ⟨s, h, hfirst, hsecond⟩ := replay_reaches step Passed
    (p := fun s => (s.redis.queues 0).length = 1 ∧ (s.redis.queues 1).length = 2) initial
    (subscribed ++ [.publish "0" done true, .close_task "0" true, .close_task "1" false, .pump 0])
    (by decide +kernel)
  exact ⟨s, hfirst, hsecond, (refines_memory h).1⟩

/-- Publishing falls back to memory, where the first subscriber does not listen: it gets neither
the event nor the sentinel. -/
theorem redis_subscriber_missed : ¬ ∀ s, Run step Free initial s → Refines s := by
  intro h
  obtain ⟨s, hrun, hopen, hmemory, hempty, hflight⟩ := replay_reaches step Free
    (p := fun s => (s.redis.contexts 0).isSome ∧ (s.memory.queues 0).length = 2 ∧
      s.redis.queues 0 = [] ∧ inFlight s.redis 0 = []) initial
    (subscribed ++ [.publish "0" done false, .close_task "0" false]) (by decide +kernel)
  have := (h s hrun).opened 0 hopen
  rw [hempty, hflight] at this
  rw [← this] at hmemory
  cases hmemory

end FileDelivery.Proofs.RedisProgress
