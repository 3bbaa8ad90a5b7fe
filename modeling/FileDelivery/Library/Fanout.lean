import Mathlib.Data.List.Nodup
import Mathlib.Logic.Function.Basic

namespace FileDelivery.Library.Fanout

/-- What happens on a bus; subscribers are numbered, and each subscribes once. -/
inductive Event (τ μ : Type*) where
  | subscribed (who : Nat) (topic : τ)
  | unsubscribed (who : Nat)
  | sent (topic : τ) (message : μ)
  deriving DecidableEq, Repr

variable {τ μ : Type*}

/-- The topic that a subscriber listens to after an event. -/
def follow (who : Nat) (listening : Option τ) : Event τ μ → Option τ
  | .subscribed w topic => if w = who then some topic else listening
  | .unsubscribed w => if w = who then none else listening
  | .sent _ _ => listening

/-- What a subscriber listens to in the end. -/
def listens (who : Nat) (events : List (Event τ μ)) : Option τ := events.foldl (follow who) none

/-- One more event. -/
theorem listens_snoc (events : List (Event τ μ)) (e : Event τ μ) :
    listens who (events ++ [e]) = follow who (listens who events) e := by
  rw [listens, List.foldl_append]
  rfl

/-- Topics with their subscribers, in the order in which these came. -/
abbrev Registry (τ : Type*) := τ → Option (List Nat)

def Registry.subscribers (registry : Registry τ) (topic : τ) : List Nat := (registry topic).getD []

/-- A message is put into the queue of each subscriber, one after the other. -/
def post (queues : Nat → List μ) (subs : List Nat) (message : μ) : Nat → List μ :=
  subs.foldl (fun queues who => Function.update queues who (queues who ++ [message])) queues

/-- The registry lists just the subscribers with a topic, each once, and keeps no empty entry. -/
structure Lists (registry : Registry τ) (topicOf : Nat → Option τ) : Prop where
  mem : ∀ topic who, who ∈ registry.subscribers topic ↔ topicOf who = some topic
  nodup : ∀ topic, (registry.subscribers topic).Nodup
  tidy : ∀ topic subs, registry topic = some subs → subs ≠ []

theorem lists_empty : Lists (fun _ : τ => none) (fun _ => none) where
  mem topic who := by simp [Registry.subscribers]
  nodup _ := List.nodup_nil
  tidy _ _ h := nomatch h

variable [DecidableEq τ]

/-- The message of an event, for a subscriber that listens to its topic. -/
def carried (listening : Option τ) : Event τ μ → List μ
  | .sent topic message => if listening = some topic then [message] else []
  | _ => []

/-- The messages sent for a subscriber's topic while it was subscribed, in their order. -/
def heardFrom (who : Nat) (listening : Option τ) : List (Event τ μ) → List μ
  | [] => []
  | e :: events => carried listening e ++ heardFrom who (follow who listening e) events

def heard (who : Nat) (events : List (Event τ μ)) : List μ := heardFrom who none events

theorem heardFrom_append (listening : Option τ) (events more : List (Event τ μ)) :
    heardFrom who listening (events ++ more) =
      heardFrom who listening events ++ heardFrom who (events.foldl (follow who) listening) more := by
  induction events generalizing listening with
  | nil => rfl
  | cons e events ih => rw [List.cons_append, heardFrom, heardFrom, ih, List.append_assoc, List.foldl_cons]

theorem heard_snoc (events : List (Event τ μ)) (e : Event τ μ) :
    heard who (events ++ [e]) = heard who events ++ carried (listens who events) e := by
  rw [heard, heardFrom_append, heardFrom, heardFrom, List.append_nil]
  rfl

/-- Messages that are sent for one topic, one after the other. -/
theorem heard_sent (events : List (Event τ μ)) (topic : τ) (messages : List μ) :
    heard who (events ++ messages.map (.sent topic)) =
      heard who events ++ if listens who events = some topic then messages else [] := by
  induction messages generalizing events with
  | nil => simp
  | cons m messages ih =>
    rw [List.map_cons, List.append_cons, ih, listens_snoc, heard_snoc, follow, carried]
    by_cases h : listens who events = some topic
    · simp [h]
    · simp [h]

omit [DecidableEq τ] in
theorem listens_sent (events : List (Event τ μ)) (topic : τ) (messages : List μ) :
    listens who (events ++ messages.map (.sent topic)) = listens who events := by
  induction messages generalizing events with
  | nil => simp
  | cons m messages ih => rw [List.map_cons, List.append_cons, ih, listens_snoc, follow]

/-- The entry of a topic is made for its first subscriber. -/
def Registry.add (registry : Registry τ) (topic : τ) (who : Nat) : Registry τ :=
  Function.update registry topic (some (registry.subscribers topic ++ [who]))

/-- The entry of a topic goes with its last subscriber. -/
def Registry.drop (registry : Registry τ) (topic : τ) (who : Nat) : Registry τ :=
  match registry topic with
  | none => registry
  | some subs =>
    Function.update registry topic (if subs.erase who = [] then none else some (subs.erase who))

theorem subscribers_add (registry : Registry τ) (topic : τ) (who : Nat) (other : τ) :
    (registry.add topic who).subscribers other =
      if other = topic then registry.subscribers topic ++ [who] else registry.subscribers other := by
  unfold Registry.add
  by_cases h : other = topic
  · subst h
    rw [Registry.subscribers, Function.update_self, if_pos rfl, Option.getD_some]
  · rw [if_neg h]
    simp only [Registry.subscribers, Function.update_of_ne h]

theorem subscribers_drop (registry : Registry τ) (topic : τ) (who : Nat) (other : τ) :
    (registry.drop topic who).subscribers other =
      if other = topic then (registry.subscribers topic).erase who else registry.subscribers other := by
  unfold Registry.drop
  split
  · rename_i hnone
    by_cases h : other = topic
    · subst h
      simp [Registry.subscribers, hnone]
    · rw [if_neg h]
  · rename_i subs hsubs
    by_cases h : other = topic
    · subst h
      rw [if_pos rfl, Registry.subscribers, Function.update_self, Registry.subscribers, hsubs,
        Option.getD_some]
      split
      · rename_i hempty
        rw [hempty, Option.getD_none]
      · rw [Option.getD_some]
    · rw [if_neg h]
      simp only [Registry.subscribers, Function.update_of_ne h]

variable {registry : Registry τ} {topicOf : Nat → Option τ}

theorem Lists.add (h : Lists registry topicOf) (hnew : topicOf who = none) (topic : τ) :
    Lists (registry.add topic who) (Function.update topicOf who (some topic)) := by
  have hout : ∀ t, who ∉ registry.subscribers t := by
    intro t hin
    rw [(h.mem t who).mp hin] at hnew
    cases hnew
  refine ⟨fun t q => ?_, fun t => ?_, fun t subs hs => ?_⟩
  · rw [subscribers_add]
    by_cases hq : q = who
    · subst hq
      rw [Function.update_self, Option.some.injEq]
      split
      · rename_i ht
        simp [ht]
      · rename_i ht
        simp [hout t, Ne.symm ht]
    · rw [Function.update_of_ne hq, ← h.mem]
      split
      · rename_i ht
        simp [ht, hq]
      · rfl
  · rw [subscribers_add]
    split
    · exact (h.nodup topic).append (List.nodup_singleton who) (by simpa using hout topic)
    · exact h.nodup t
  · unfold Registry.add at hs
    by_cases ht : t = topic
    · subst ht
      rw [Function.update_self, Option.some.injEq] at hs
      subst hs
      simp
    · rw [Function.update_of_ne ht] at hs
      exact h.tidy t subs hs

theorem Lists.drop (h : Lists registry topicOf) (htopic : topicOf who = some topic) :
    Lists (registry.drop topic who) (Function.update topicOf who none) := by
  refine ⟨fun t q => ?_, fun t => ?_, fun t subs hs => ?_⟩
  · rw [subscribers_drop]
    by_cases hq : q = who
    · subst hq
      rw [Function.update_self]
      split
      · simp [(h.nodup topic).not_mem_erase]
      · rename_i ht
        rw [h.mem, htopic, Option.some.injEq]
        simp [Ne.symm ht]
    · rw [Function.update_of_ne hq, ← h.mem]
      split
      · rename_i ht
        rw [List.mem_erase_of_ne hq, ht]
      · rfl
  · rw [subscribers_drop]
    split
    · exact (h.nodup topic).erase who
    · exact h.nodup t
  · unfold Registry.drop at hs
    cases hr : registry topic with
    | none =>
      rw [hr] at hs
      exact h.tidy t subs hs
    | some left =>
      simp only [hr] at hs
      by_cases ht : t = topic
      · subst ht
        rw [Function.update_self] at hs
        split at hs
        · cases hs
        · rename_i hne
          cases hs
          exact hne
      · rw [Function.update_of_ne ht] at hs
        exact h.tidy t subs hs

theorem post_eq (queues : Nat → List μ) (hnodup : subs.Nodup) (message : μ) (who : Nat) :
    post queues subs message who = queues who ++ if who ∈ subs then [message] else [] := by
  unfold post
  induction subs generalizing queues with
  | nil => simp
  | cons q subs ih =>
    obtain ⟨hq, hsubs⟩ := List.nodup_cons.mp hnodup
    rw [List.foldl_cons, ih _ hsubs]
    by_cases hw : who = q
    · subst hw
      simp [hq]
    · simp [hw]

/-- Each queue gets what an event carries to its subscriber. -/
theorem Lists.post (h : Lists registry topicOf) (queues : Nat → List μ) (topic : τ) (message : μ)
    (who : Nat) : post queues (registry.subscribers topic) message who =
      queues who ++ carried (topicOf who) (.sent topic message) := by
  rw [post_eq queues (h.nodup topic)]
  simp only [carried, h.mem]

end FileDelivery.Library.Fanout
