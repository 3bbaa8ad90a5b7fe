import FileDelivery.Control.ProgressStream
import FileDelivery.Proofs.Flow
import FileDelivery.Proofs.ProgressFanout

namespace FileDelivery.Proofs.ProgressStreams
open FileDelivery.Library FileDelivery.Library.EventStream FileDelivery.Library.Fanout
open FileDelivery.Control FileDelivery.Control.ProgressBus FileDelivery.Control.ProgressStream
open FileDelivery.Proofs.ProgressFanout

/-- The text of an event. -/
def text (event : ProgressBus.Dict) : List Char := JsonText.dumps (.obj event)

theorem text_unbroken (event : ProgressBus.Dict) : Unbroken (text event) := by
  intro x hx
  have hprintable := JsonText.dumps_printable (.obj event) x hx
  constructor <;> rintro rfl <;> revert hprintable <;> decide

/-- A client that has got these events. -/
def shows (events : List ProgressBus.Dict) : Client :=
  idle [] (events.map (fun e => ⟨"message".toList, text e, []⟩))

theorem shows_event (events : List ProgressBus.Dict) (event : ProgressBus.Dict) :
    (shows events).read (EventStream.event (text event)) = shows (events ++ [event]) := by
  rw [shows, read_event _ _ (text_unbroken event), shows, List.map_append, List.map_singleton]

theorem shows_comment (events : List ProgressBus.Dict) :
    (shows events).read (comment "keep-alive".toList) = shows events :=
  read_comment _ _ (by simp [Unbroken])

/-- How a stream stands, after what has happened on the bus. -/
structure Follows (db : Db) (history : List (Event Text (Option ProgressBus.Dict))) (q : Nat) (stream : Stream) :
    Prop where
  got : stream.got ≤ (heard q history).length
  shown : ∃ events : List ProgressBus.Dict,
    (heard q history).take stream.got = events.map some ++ (if stream.closed then [none] else []) ∧
      Client.initial.read stream.body = shows events
  closed : stream.closed = true → stream.ended = true
  listens : stream.ended = false → listens q history = some (idText stream.task_id)
  topic : ∀ topic, Fanout.listens q history = some topic → topic = idText stream.task_id
  source : ∀ m ∈ heard q history, Event.sent (idText stream.task_id) m ∈ history
  owner : ∃ task ∈ db.tasks, task.id = stream.task_id ∧ task.owner_tenant_id = stream.actor.tenant_id

variable {db : Db} {history : List (Event Text (Option ProgressBus.Dict))} {q : Nat} {stream : Stream}
  {e : Event Text (Option ProgressBus.Dict)}

/-- Something happens, but nobody subscribes with this queue. -/
theorem Follows.happens (h : Follows db history q stream) (hnew : ∀ topic, e ≠ .subscribed q topic)
    (hopen : stream.ended = false → e ≠ .unsubscribed q) : Follows db (history ++ [e]) q stream := by
  refine ⟨?_, ?_, h.closed, fun hended => ?_, fun topic htopic => ?_, fun m hm => ?_, h.owner⟩
  · rw [heard_snoc, List.length_append]
    exact h.got.trans (Nat.le_add_right _ _)
  · rw [heard_snoc, List.take_append_of_le_length h.got]
    exact h.shown
  · rw [listens_snoc, h.listens hended]
    cases e with
    | subscribed who topic =>
      refine if_neg ?_
      rintro rfl
      exact hnew topic rfl
    | unsubscribed who =>
      refine if_neg ?_
      rintro rfl
      exact hopen hended rfl
    | sent topic m => rfl
  · rw [listens_snoc] at htopic
    cases e with
    | subscribed who other =>
      have hwho : who ≠ q := by
        rintro rfl
        exact hnew other rfl
      rw [follow, if_neg hwho] at htopic
      exact h.topic topic htopic
    | unsubscribed who =>
      rw [follow] at htopic
      split at htopic
      · cases htopic
      · exact h.topic topic htopic
    | sent other m => exact h.topic topic htopic
  · rw [heard_snoc] at hm
    rcases List.mem_append.mp hm with hm | hm
    · exact List.mem_append_left _ (h.source m hm)
    · cases e with
      | subscribed who other => cases hm
      | unsubscribed who => cases hm
      | sent topic message =>
        rw [carried] at hm
        split at hm
        · rename_i htopic
          rw [List.mem_singleton.mp hm, h.topic topic htopic]
          exact List.mem_append_right _ (List.mem_singleton_self _)
        · cases hm

/-- The bus is as its history has it, and each stream follows its queue. -/
structure Sound (db : Db) (s : State) : Prop where
  exact : Exact s.bus s.history
  streams : ∀ q stream, s.streams q = some stream → q < s.bus.next ∧ Follows db s.history q stream

theorem Sound.put (h : Sound db s) (hq : q < s.bus.next) (hf : Follows db s.history q stream) :
    Sound db (s.put q stream) := by
  refine ⟨h.exact, fun p other hp => ?_⟩
  by_cases hpq : p = q
  · subst hpq
    simp only [State.put, Function.update_self] at hp
    cases hp
    exact ⟨hq, hf⟩
  · simp only [State.put, Function.update_of_ne hpq] at hp
    exact h.streams p other hp

/-- Something happens on the bus that is about no queue of a stream in particular. -/
theorem Sound.operate (h : Sound db s) (op : Operation ProgressBus.Dict)
    (hopen : ∀ q, op = .unsubscribe q → ∀ stream, s.streams q = some stream → stream.ended = true) :
    Sound db (s.operate op) := by
  obtain ⟨hexact, hnext⟩ := h.exact.step op
  refine ⟨hexact, fun q stream hq => ?_⟩
  obtain ⟨hlt, hf⟩ := h.streams q stream hq
  have hlater : s.bus.next ≤ (s.bus.step op).next := by
    rw [hnext]
    cases op <;> simp [Operation.after]
  refine ⟨hlt.trans_le hlater, hf.happens (fun topic he => ?_) (fun hended he => ?_)⟩
  · cases op with
    | subscribe task_id =>
      obtain ⟨rfl, _⟩ := Event.subscribed.inj he
      exact absurd hlt (Nat.lt_irrefl _)
    | _ => cases he
  · cases op with
    | unsubscribe queue =>
      obtain rfl := Event.unsubscribed.inj he
      rw [hopen queue rfl stream hq] at hended
      cases hended
    | _ => cases he

theorem Sound.leave (h : Sound db s) (hq : s.streams q = some old)
    (hf : Follows db s.history q { stream with ended := true }) : Sound db (s.leave q stream) := by
  -- The stream has ended before it unsubscribes.
  have hput := h.put (h.streams q old hq).1 hf
  have hended := hput.operate (.unsubscribe q) (fun p hp other hother => by
    cases hp
    simp only [State.put, Function.update_self, Option.some.injEq] at hother
    rw [← hother])
  exact hended

theorem Follows.open (h : Follows db history q stream) (hended : stream.ended = false) :
    stream.closed = false := by
  rw [← Bool.not_eq_true]
  intro hclosed
  rw [h.closed hclosed] at hended
  cases hended

theorem Follows.end (h : Follows db history q stream) : Follows db history q { stream with ended := true } :=
  ⟨h.got, h.shown, fun _ => rfl, (by intro hended; cases hended), h.topic, h.source, h.owner⟩

theorem getElem_take {l : List α} (h : l[n]? = some a) : l.take (n + 1) = l.take n ++ [a] := by
  rw [List.take_add_one, h, Option.toList_some]

theorem turn_sound (h : Sound db s) (hq : s.streams q = some stream) (hended : stream.ended = false)
    (turn : Turn) : Sound db (event_stream s q stream turn) := by
  obtain ⟨hlt, hf⟩ := h.streams q stream hq
  have hopen := hf.open hended
  obtain ⟨events, htaken, hbody⟩ := hf.shown
  simp only [hopen, Bool.false_eq_true, if_false, List.append_nil] at htaken
  cases turn with
  | disconnected | cancelled => exact h.leave hq hf.end
  | timeout =>
    refine h.put hlt ⟨hf.got, ⟨events, ?_, ?_⟩, hf.closed, hf.listens, hf.topic, hf.source, hf.owner⟩
    · simpa [hopen] using htaken
    · rw [read_append, hbody, shows_comment]
  | get =>
    simp only [event_stream, h.exact.queues]
    split
    · exact h
    · rename_i hentry
      refine h.leave hq ⟨(List.getElem?_eq_some_iff.mp hentry).1, ⟨events, ?_, hbody⟩, fun _ => rfl,
        (by intro hended; cases hended), hf.topic, hf.source, hf.owner⟩
      simp only [getElem_take hentry, htaken, if_true]
    · rename_i event hentry
      refine h.put hlt ⟨(List.getElem?_eq_some_iff.mp hentry).1, ⟨events ++ [event], ?_, ?_⟩, hf.closed,
        hf.listens, hf.topic, hf.source, hf.owner⟩
      · simp only [getElem_take hentry, htaken, hopen, Bool.false_eq_true, if_false, List.append_nil,
          List.map_append, List.map_singleton]
      · rw [read_append, hbody]
        exact shows_event events event

theorem connect_sound (h : Sound db s) (hread : task_progress db actor task_id = .ok task) :
    Sound db ((s.operate (.subscribe (idText task_id))).put s.bus.next
      ⟨actor, task_id, 0, [], false, false⟩) := by
  have hexact := h.exact.subscribe (idText task_id)
  obtain ⟨hunheard, hempty⟩ := h.exact.fresh s.bus.next (Nat.le_refl _)
  rw [h.exact.contexts] at hunheard
  rw [h.exact.queues] at hempty
  have hheard : heard s.bus.next (s.history ++ [.subscribed s.bus.next (idText task_id)]) = [] := by
    rw [heard_snoc, hempty]
    rfl
  have hlistens : Fanout.listens s.bus.next (s.history ++ [.subscribed s.bus.next (idText task_id)]) =
      some (idText task_id) := by
    rw [listens_snoc]
    exact if_pos rfl
  have hsound := h.operate (.subscribe (idText task_id)) (by intro _ he; cases he)
  refine hsound.put (Nat.lt_succ_self _) ⟨Nat.zero_le _, ⟨[], rfl, rfl⟩, (by intro hc; cases hc),
    fun _ => hlistens, fun topic htopic => ?_, fun m hm => ?_, ?_⟩
  · exact Option.some.inj (htopic.symm.trans hlistens)
  · rw [State.operate, Operation.event, hheard] at hm
    cases hm
  · unfold task_progress Tasks.findTask at hread
    split at hread
    · rename_i row hget
      obtain ⟨hfind, howner⟩ := Option.filter_eq_some_iff.mp hget
      have howns : actor.tenant_id = row.owner_tenant_id := by simpa [tenantAllows] using howner
      exact ⟨row, Rows.find_mem hfind, Rows.find_key hfind, howns.symm⟩
    · cases hread

theorem step_sound (h : Sound db s) (action : ProgressStream.Action) : Sound db (step db s action) := by
  cases action with
  | connect actor task_id =>
    simp only [step]
    split
    · exact h
    · rename_i task hread
      exact connect_sound h hread
  | publish task_id event => exact h.operate _ (by intro _ he; cases he)
  | close_task task_id => exact h.operate _ (by intro _ he; cases he)
  | turn queue turn =>
    simp only [step]
    split
    · exact h
    · rename_i stream hq
      split
      · exact h
      · rename_i hended
        exact turn_sound h hq (by simpa using hended) turn

theorem run_sound (h : Sound db s) (actions : List ProgressStream.Action) :
    Sound db (run db s actions) := by
  induction actions generalizing s with
  | nil => exact h
  | cons action actions ih => exact ih (step_sound h action)

theorem initial_sound (db : Db) : Sound db ProgressStream.initial :=
  ⟨exact_initial, by intro _ _ hq; cases hq⟩

/-- The events before the sentinel. -/
def untilClose (entries : List (Option ε)) : List ε := (entries.takeWhile Option.isSome).filterMap id

theorem untilClose_some (events : List ε) (rest : List (Option ε)) :
    untilClose (events.map some ++ rest) = events ++ untilClose rest := by
  induction events with
  | nil => rfl
  | cons e events ih =>
    simp only [untilClose, List.map_cons, List.cons_append, List.takeWhile_cons, Option.isSome_some,
      if_true, List.filterMap_cons, id_eq] at ih ⊢
    rw [ih]

theorem untilClose_none (rest : List (Option ε)) : untilClose (none :: rest) = [] := rfl

theorem untilClose_cons (e : ε) (entries : List (Option ε)) :
    untilClose (some e :: entries) = e :: untilClose entries := untilClose_some [e] entries

/-- More entries add no event after a sentinel, and lose none. -/
theorem untilClose_append (entries rest : List (Option ε)) :
    untilClose entries <+: untilClose (entries ++ rest) ∧
      (none ∈ entries → untilClose (entries ++ rest) = untilClose entries) := by
  induction entries with
  | nil => exact ⟨List.nil_prefix, by intro h; cases h⟩
  | cons entry entries ih =>
    cases entry with
    | none => exact ⟨List.nil_prefix, fun _ => rfl⟩
    | some e =>
      rw [List.cons_append, untilClose_cons, untilClose_cons]
      refine ⟨(List.prefix_cons_inj e).mpr ih.1, fun h => ?_⟩
      rw [ih.2 (by simpa using h)]

theorem untilClose_map (f : α → β) (entries : List (Option α)) :
    untilClose (entries.map (Option.map f)) = (untilClose entries).map f := by
  induction entries with
  | nil => rfl
  | cons entry entries ih =>
    cases entry with
    | none => rfl
    | some e => rw [List.map_cons, Option.map_some, untilClose_cons, untilClose_cons, ih, List.map_cons]

/-- The page's reading of an event stream: types, and data parsed as JSON. -/
def shown (body : List Char) : List (List Char × Option Json.Value) :=
  (messages body).map (fun m => (m.type, JsonText.loads m.data))

def told (event : ProgressBus.Dict) : List Char × Option Json.Value :=
  ("message".toList, some (.obj event))

theorem shown_eq {body : List Char} (h : Client.initial.read body = shows events) :
    shown body = events.map told := by
  simp only [shown, messages, h, shows, idle, List.map_map]
  refine List.map_congr_left (fun e _ => ?_)
  simp only [Function.comp_apply, text, JsonText.loads_dumps, told]

theorem Follows.received (h : Follows db history q stream) :
    ∃ events, events <+: untilClose (heard q history) ∧ Client.initial.read stream.body = shows events ∧
      (stream.closed = true → events = untilClose (heard q history)) := by
  obtain ⟨events, htaken, hbody⟩ := h.shown
  have hall := List.take_append_drop stream.got (heard q history)
  rw [htaken, List.append_assoc] at hall
  refine ⟨events, ?_, hbody, fun hclosed => ?_⟩
  · rw [← hall, untilClose_some]
    exact List.prefix_append _ _
  · rw [← hall, untilClose_some, hclosed, if_pos rfl, List.singleton_append, untilClose_none,
      List.append_nil]

theorem step_turn (hq : s.streams q = some stream) (hended : stream.ended = false) (turn : Turn) :
    step db s (.turn q turn) = event_stream s q stream turn := by
  simp only [step, hq, hended, Bool.false_eq_true, if_false]

/-- A stream that has ended has no more turns. -/
theorem run_ended (db : Db) (hq : s.streams q = some stream) (hended : stream.ended = true) (n : Nat) :
    run db s (List.replicate n (.turn q .get)) = s := by
  induction n with
  | zero => rfl
  | succ n ih =>
    have hstep : step db s (.turn q .get) = s := by simp only [step, hq, hended, if_true]
    rw [List.replicate_succ, run, List.foldl_cons, hstep]
    exact ih

/-- Its turns bring a stream all that is in its queue, up to the sentinel. -/
theorem run_drains (h : Sound db s) (hq : s.streams q = some stream) (hended : stream.ended = false)
    (n : Nat) (hn : (heard q s.history).length ≤ stream.got + n) :
    ∃ drained, (run db s (List.replicate n (.turn q .get))).streams q = some drained ∧
      Client.initial.read drained.body = shows (untilClose (heard q s.history)) := by
  obtain ⟨hlt, hf⟩ := h.streams q stream hq
  have hopen := hf.open hended
  induction n generalizing s stream with
  | zero =>
    obtain ⟨events, htaken, hbody⟩ := hf.shown
    rw [Nat.add_zero] at hn
    rw [List.take_of_length_le hn, hopen, if_neg Bool.false_ne_true, List.append_nil] at htaken
    have hall := untilClose_some events []
    rw [List.append_nil, ← htaken] at hall
    refine ⟨stream, hq, ?_⟩
    rw [hall, hbody]
    exact congrArg shows (List.append_nil events).symm
  | succ n ih =>
    have hnext := turn_sound h hq hended .get
    rw [List.replicate_succ, run, List.foldl_cons, step_turn hq hended]
    simp only [event_stream, h.exact.queues] at hnext ⊢
    split
    · rename_i hentry
      have hend := List.getElem?_eq_none_iff.mp hentry
      exact ih h hq hended (hend.trans (Nat.le_add_right _ _)) hlt hf hopen
    · rename_i hentry
      obtain ⟨events, htaken, hbody⟩ := hf.shown
      rw [hopen, if_neg Bool.false_ne_true, List.append_nil] at htaken
      have hall := List.take_append_drop (stream.got + 1) (heard q s.history)
      rw [getElem_take hentry, htaken, List.append_assoc] at hall
      have hended : ((s.leave q { stream with got := stream.got + 1, closed := true }).streams q) =
          some { stream with got := stream.got + 1, closed := true, ended := true } :=
        Function.update_self _ _ _
      refine ⟨{ stream with got := stream.got + 1, closed := true, ended := true }, ?_, ?_⟩
      · have hstays := run_ended db hended rfl n
        rw [run] at hstays
        rw [hstays]
        exact hended
      · rw [← hall, untilClose_some, List.singleton_append, untilClose_none, List.append_nil]
        exact hbody
    · rename_i event hentry
      simp only [hentry] at hnext
      have hput : (s.put q { stream with
          got := stream.got + 1
          body := stream.body ++ EventStream.event (JsonText.dumps (.obj event)) }).streams q = _ :=
        Function.update_self _ _ _
      obtain ⟨hlt', hf'⟩ := hnext.streams q _ hput
      have hleft : (heard q s.history).length ≤ stream.got + 1 + n := by omega
      exact ih hnext hput hended hleft hlt' hf' hopen

/-- A response of `task_progress`, whatever else happens: to whatever point the client has read it,
it has got the first events that were published for the task since, as they were published; it has
all of them up to the sentinel when the stream ends with it, and its next turns bring it the rest. -/
theorem progress_faithful (db : Db) (actions : List ProgressStream.Action)
    (hq : (run db ProgressStream.initial actions).streams q = some stream) :
    let s := run db ProgressStream.initial actions
    let events := untilClose (heard q s.history)
    (∀ body, body <+: stream.body → ∃ received, received <+: events ∧ shown body = received.map told) ∧
    (stream.closed = true → shown stream.body = events.map told) ∧
    (stream.ended = false → ∀ n, (heard q s.history).length ≤ stream.got + n →
      ∃ drained, (run db s (List.replicate n (.turn q .get))).streams q = some drained ∧
        shown drained.body = events.map told) ∧
    (∀ m ∈ heard q s.history, Event.sent (idText stream.task_id) m ∈ s.history) ∧
    ∃ task ∈ db.tasks, task.id = stream.task_id ∧ task.owner_tenant_id = stream.actor.tenant_id := by
  have h := run_sound (initial_sound db) actions
  obtain ⟨_, hf⟩ := h.streams q stream hq
  obtain ⟨events, hprefix, hbody, hclosed⟩ := hf.received
  refine ⟨fun body hpart => ?_, fun hc => ?_, fun hended n hn => ?_, hf.source, hf.owner⟩
  · have hshown : shown body <+: events.map told := by
      rw [← shown_eq hbody]
      exact (messages_mono hpart).map _
    rw [List.prefix_iff_eq_take] at hshown
    refine ⟨events.take (shown body).length, (List.take_prefix _ _).trans hprefix, ?_⟩
    rw [List.map_take]
    exact hshown
  · rw [shown_eq hbody, hclosed hc]
  · obtain ⟨drained, hrun, hread⟩ := run_drains h hq hended n hn
    exact ⟨drained, hrun, shown_eq hread⟩

/-- The only table is that of the tasks. -/
def sampleDb : Db :=
  { Bridge.initial.db with
    tasks := [⟨7, .queued, "a", "hq", "u1", "a", [], none, "u1", 0, none, none⟩] }

def sampleEvent : ProgressBus.Dict := [("type", .str "item_done"), ("filename", .str "a\nb")]

def sampleActions : List ProgressStream.Action :=
  [.connect ⟨"hq", "u1", .hq_uploader⟩ 7, .turn 0 .timeout, .publish (idText 7) sampleEvent,
    .close_task (idText 7), .turn 0 .get, .turn 0 .get]

/-- A stream that waits once before the event and the sentinel come. -/
theorem progress_faithful_closed : ∃ stream,
    (run sampleDb ProgressStream.initial sampleActions).streams 0 = some stream ∧
      stream.closed = true ∧ shown stream.body = [told sampleEvent] := by
  obtain ⟨stream, hq, hclosed⟩ := (Option.any_eq_true _ _).mp
    (show ((run sampleDb ProgressStream.initial sampleActions).streams 0).any (·.closed) = true by
      decide +kernel)
  have hevents : untilClose (heard 0 (run sampleDb ProgressStream.initial sampleActions).history) =
      [sampleEvent] := by rfl
  refine ⟨stream, hq, hclosed, ?_⟩
  have hshown := (progress_faithful sampleDb sampleActions hq).2.1 hclosed
  rwa [hevents] at hshown

end FileDelivery.Proofs.ProgressStreams
