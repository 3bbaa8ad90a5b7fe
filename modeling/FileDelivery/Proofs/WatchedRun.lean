import FileDelivery.Proofs.ProgressStreams
import FileDelivery.Proofs.RunStory

namespace FileDelivery.Proofs.WatchedRun
open FileDelivery.Library FileDelivery.Library.Runs FileDelivery.Library.Fanout FileDelivery.Control
open FileDelivery.Control.ProgressBus FileDelivery.Control.ProgressStream FileDelivery.Bridge
open FileDelivery.Bridge.RunProgress FileDelivery.Proofs.ProgressStreams FileDelivery.Proofs.RunStory
open FileDelivery.Proofs.RunCounts FileDelivery.Control.TaskRunner

/-- What an entry of the story puts into a queue. -/
def entry : Option ProgressEvent → Option ProgressBus.Dict := Option.map ProgressEvent.dict

variable {db : Db} {t rid q : Nat} {w w' : Watched} {s : ProgressStream.State} {stream : Stream}
  {history : List (Event Text (Option ProgressBus.Dict))} {told : List (Option ProgressEvent)} {k : Nat}

/-- A queue has got what the run has told since its client connected, all of it while the client
listens. -/
structure Hears (history : List (Event Text (Option ProgressBus.Dict))) (told : List (Option ProgressEvent))
    (t q k : Nat) : Prop where
  bound : k ≤ told.length
  part : heard q history <+: (told.drop k).map entry
  whole : (listens q history).isSome → heard q history = (told.drop k).map entry
  topic : ∀ topic, listens q history = some topic → topic = idText t

theorem Hears.tell (h : Hears history told t q k) (es : List (Option ProgressEvent)) :
    Hears (history ++ (es.map entry).map (.sent (idText t))) (told ++ es) t q k := by
  obtain ⟨hbound, hpart, hwhole, htopic⟩ := h
  have hdrop : (told ++ es).drop k = told.drop k ++ es := List.drop_append_of_le_length hbound
  refine ⟨?_, ?_, fun hlistens => ?_, fun topic ht => ?_⟩
  · rw [List.length_append]
    exact hbound.trans (Nat.le_add_right _ _)
  · rw [heard_sent, hdrop, List.map_append]
    split
    · rename_i hlistens
      have hall := hwhole (by rw [hlistens]; rfl)
      exact ⟨[], (List.append_nil _).trans (congrArg (· ++ es.map entry) hall)⟩
    · rw [List.append_nil]
      exact hpart.trans (List.prefix_append _ _)
  · rw [listens_sent] at hlistens
    obtain ⟨topic, hl⟩ := Option.isSome_iff_exists.mp hlistens
    rw [heard_sent, hdrop, List.map_append, hwhole hlistens, hl, htopic topic hl, if_pos rfl]
  · rw [listens_sent] at ht
    exact htopic topic ht

/-- Something happens that is neither sent for the task nor a subscription of the queue. -/
theorem Hears.happens (h : Hears history told t q k) {e : Event Text (Option ProgressBus.Dict)}
    (hnew : ∀ topic, e ≠ .subscribed q topic) (hother : ∀ m, e ≠ .sent (idText t) m) :
    Hears (history ++ [e]) told t q k := by
  obtain ⟨hbound, hpart, hwhole, htopic⟩ := h
  have hheard : heard q (history ++ [e]) = heard q history := by
    rw [heard_snoc]
    cases e with
    | sent topic m =>
      rw [carried, if_neg (fun hl => hother m (by rw [htopic topic hl])), List.append_nil]
    | _ => exact List.append_nil _
  have hlistens : listens q (history ++ [e]) = listens q history ∨ listens q (history ++ [e]) = none := by
    rw [listens_snoc]
    cases e with
    | subscribed who topic =>
      exact .inl (if_neg (fun hw => hnew topic (by rw [hw])))
    | unsubscribed who =>
      simp only [follow]
      split
      · exact .inr rfl
      · exact .inl rfl
    | sent topic m => exact .inl rfl
  refine ⟨hbound, hheard ▸ hpart, fun hl => ?_, fun topic ht => ?_⟩
  · rcases hlistens with heq | hnone
    · rw [hheard]
      exact hwhole (heq ▸ hl)
    · rw [hnone] at hl
      cases hl
  · rcases hlistens with heq | hnone
    · exact htopic topic (heq ▸ ht)
    · rw [hnone] at ht
      cases ht

/-- The invariant of a run and of those that watch it. -/
structure Watching (db : Db) (t : Nat) (w : Watched) : Prop where
  telling : Telling db t w.run
  stores : Stores db t w.run.python
  sound : Sound db w.clients
  hears : ∀ q stream, w.clients.streams q = some stream → stream.task_id = t →
    Hears w.clients.history w.run.told t q (w.joined q)

theorem step_told {s s' : RunProgress.State} {a : RunProgress.Action} (h : RunProgress.step s a = some s') :
    ∃ es, s'.told = s.told ++ es := by
  cases step_progress h with
  | opened => exact ⟨_, rfl⟩
  | progressed => exact ⟨_, rfl⟩
  | ran => exact ⟨_, rfl⟩

/-- A story told to its end. Unless an exception has left an item, it has just one outcome for each
item that was to be uploaded. -/
structure Complete (db : Db) (t : Nat) (s : RunProgress.State) (events : List ProgressEvent) : Prop where
  story : Story t (events.map some ++ [none]) .closed
  each : ∀ st uploaded failed n, .task_done (some st) uploaded failed n ∈ events → ¬Escaped s →
    ∀ i ∈ uploadable db t, (events.filter (fun e => decides i.id (some e))).length = 1

theorem untilClose_ended {late : List ProgressEvent} {events : List ProgressEvent} {last : ProgressEvent}
    (h : RunStory.Ended t told events last late) : untilClose told = events ++ [last] := by
  rw [h.told, untilClose_some, untilClose_none, List.append_nil]

theorem none_late {entries : List (Option ProgressEvent)} {late : List ProgressEvent}
    (h : (entries ++ none :: late.map some).getLast? = some none) : late = [] := by
  rcases List.eq_nil_or_concat late with hnil | ⟨before, x, rfl⟩
  · exact hnil
  · have hx : entries ++ none :: (before.concat x).map some =
        (entries ++ none :: before.map some) ++ [some x] := by simp
    rw [hx, List.getLast?_concat] at h
    cases h

theorem Watching.complete (h : Watching db t w) (hclosed : none ∈ w.run.told) :
    Complete db t w.run (untilClose w.run.told) := by
  obtain ⟨chapter, hstory, _⟩ := h.telling.story
  have hend : chapter = .closed := by
    by_contra hopen
    obtain ⟨events, htold, _⟩ := hstory.before_end hopen
    rw [htold] at hclosed
    simp at hclosed
  obtain ⟨events, last, late, hended⟩ := hstory.after_end hend
  rw [untilClose_ended hended]
  refine ⟨hended.story, fun st uploaded failed n hdone hno i hi => ?_⟩
  have htold : some (.task_done (some st) uploaded failed n) ∈ w.run.told := by
    rw [hended.told]
    exact List.mem_append_left _ (List.mem_map_of_mem hdone)
  -- Nothing is told after the sentinel, as all items have ended before.
  have hlast := (h.telling.last st uploaded failed n htold).resolve_left hno
  obtain ⟨_, _, _, hitems, hends⟩ := h.telling.concluded _ htold
  obtain ⟨hstages, _⟩ := hends.resolve_left hno
  have hlate : late = [] := by
    rw [hended.told] at hlast
    exact none_late hlast
  obtain ⟨c, hc, rfl⟩ := List.mem_map.mp (hitems ▸ hi)
  obtain ⟨ok, hstage⟩ := hstages c hc
  have hverdict := congrArg List.length (h.telling.reports c hc).verdict
  rw [hended.told, hlate] at hverdict
  have hone : (outcomeTold (w.run.exc c.item.id) c).length = 1 := by
    cases ok <;> simp [outcomeTold, hstage]
  rw [hone, List.map_nil, List.filter_append, List.filter_map, List.length_append, List.length_map] at hverdict
  simpa [decides, Function.comp_def] using hverdict

/-- What the client of a queue has seen is what the run has told it, from when it connected. -/
theorem Watching.seen (h : Watching db t w) (hq : w.clients.streams q = some stream) (ht : stream.task_id = t) :
    ∃ events, events <+: untilClose (w.run.told.drop (w.joined q)) ∧
      shown stream.body = events.map (fun e => ProgressStreams.told e.dict) ∧
      (stream.closed = true → none ∈ w.run.told ∧ events = untilClose (w.run.told.drop (w.joined q))) := by
  obtain ⟨_, hf⟩ := h.sound.streams q stream hq
  obtain ⟨rest, hrest⟩ := (h.hears q stream hq ht).part
  obtain ⟨dicts, htaken, hbody⟩ := hf.shown
  obtain ⟨received, hprefix, hread, hclosed⟩ := hf.received
  have hall : (untilClose (w.run.told.drop (w.joined q))).map ProgressEvent.dict =
      untilClose (heard q w.clients.history ++ rest) := by
    rw [hrest, ← untilClose_map]
    rfl
  obtain ⟨hmore, hsame⟩ := untilClose_append (heard q w.clients.history) rest
  have hpart := hprefix.trans hmore
  rw [← hall, List.prefix_iff_eq_take, ← List.map_take] at hpart
  refine ⟨_, List.take_prefix received.length _, ?_, fun hc => ?_⟩
  · rw [shown_eq hread, hpart, List.length_map, List.map_map]
    have hlen := congrArg List.length hpart
    rw [List.length_map] at hlen
    rw [← hlen]
    rfl
  · rw [hc, if_pos rfl] at htaken
    have hnone : none ∈ heard q w.clients.history :=
      List.mem_of_mem_take (htaken ▸ List.mem_append_right _ (List.mem_singleton_self none))
    have htold : none ∈ (w.run.told.drop (w.joined q)).map entry :=
      hrest ▸ List.mem_append_left rest hnone
    obtain ⟨e, he, hdict⟩ := List.mem_map.mp htold
    rw [Option.map_eq_none_iff.mp hdict] at he
    refine ⟨List.mem_of_mem_drop he, List.take_of_length_le ?_⟩
    have hlen := congrArg List.length (hall.trans (hsame hnone))
    rw [List.length_map, ← hclosed hc] at hlen
    exact hlen.le

/-- One item is delivered and one refused; then the client reads all that is in its queue. -/
def sampleActions : List WatchedAction :=
  .client (.connect Sample.actor 0) ::
    ([.run .read, .run .start, .publish, .run .list, .publish, .run .plan, .run (.item 2 .mark),
      .run (.item 3 .mark), .on_progress 2 1, .run (.item 2 (.store [1])), .run (.item 3 (.raise "refused")),
      .run (.item 2 .done), .run (.item 3 .fail), .run (.item 2 .publish), .run (.item 3 .report),
      .run .finalize, .run .publish].map .run ++
    List.replicate 7 (.client (.turn 0 .get)))

end FileDelivery.Proofs.WatchedRun
