import FileDelivery.Bridge.ArchiveCache
import FileDelivery.Proofs.Sources
import Mathlib.Data.List.Basic

namespace FileDelivery.Proofs.CacheTransparent
open FileDelivery.Library FileDelivery.Library.Runs FileDelivery.Control FileDelivery.Bridge
open FileDelivery.Bridge.ArchiveCache FileDelivery.Worker.Source
open FileDelivery.Proofs.Effects FileDelivery.Proofs.Tables
open FileDelivery.Proofs.Flow FileDelivery.Proofs.Sources

theorem cacheKey_bucket {source : Worker.SourceRef} (h : '/' ∉ source.bucket) :
    (cacheKey source).takeWhile (· ≠ '/') = source.bucket := by
  have hnone : ∀ c ∈ source.bucket, decide (c ≠ '/') = true := by
    intro c hc
    refine decide_eq_true (fun he => ?_)
    rw [he] at hc
    exact h hc
  unfold cacheKey
  rw [List.append_assoc, List.takeWhile_append_of_pos hnone]
  simp

/-- Keys of buckets without a slash tell buckets and keys apart. -/
theorem cacheKey_injective {a b : Worker.SourceRef} (ha : '/' ∉ a.bucket) (hb : '/' ∉ b.bucket)
    (h : cacheKey a = cacheKey b) : a.bucket = b.bucket ∧ a.key = b.key := by
  have hbucket : a.bucket = b.bucket := by
    rw [← cacheKey_bucket ha, h, cacheKey_bucket hb]
  unfold cacheKey at h
  rw [hbucket] at h
  exact ⟨hbucket, List.append_cancel_left h⟩

/-- What a call may do to the table. -/
def Meant (s : Resolving) : Memo.Action Lookup String Archive → Prop
  | .call c => ∃ m, s.base.messages[c.mid]? = some m ∧ (toWorker m).source = some c.source
  | .fetch i answer => ∃ call fault, s.table.calls[i]? = some call ∧
      answer = getObject s.base.staging call.1.source fault
  | _ => True

variable {cfg : Config} {s s' : Resolving} {base base' : State}

theorem table_step_some {a : Memo.Action Lookup String Archive} (h : s.table_step a = some s') :
    Memo.step Lookup.key s.table a = some s'.table ∧ s'.base = s.base ∧ s'.ended = s.ended := by
  obtain ⟨table, htable, rfl⟩ := Option.map_eq_some_iff.mp h
  exact ⟨htable, rfl, rfl⟩

/-- A step is one of the system, or one of the resolver's table, or one that returns. -/
theorem step_cases (h : ArchiveCache.step cfg s a = some s') :
    (∃ b, Bridge.step cfg s.base b = some s'.base ∧ s'.table = s.table ∧ s'.ended = s.ended) ∨
    (∃ b, Memo.step Lookup.key s.table b = some s'.table ∧ Meant s b ∧ s'.base = s.base ∧
      s'.ended = s.ended) ∨
    ∃ i call fault result, s.table.calls[i]? = some call ∧ returned call.1 fault call.2 = some result ∧
      Memo.step Lookup.key s.table (.leave i) = some s'.table ∧ s'.base = s.base ∧
      s'.ended = s.ended ++ [(call.1, result)] := by
  cases a with
  | base b =>
    obtain ⟨base, hbase, rfl⟩ := Option.map_eq_some_iff.mp h
    exact .inl ⟨b, hbase, rfl, rfl⟩
  | resolve mid item =>
    obtain ⟨m, hm, h⟩ := Option.bind_eq_some_iff.mp h
    obtain ⟨source, hsource, h⟩ := Option.bind_eq_some_iff.mp h
    obtain ⟨htable, hbase, hended⟩ := table_step_some h
    exact .inr (.inl ⟨_, htable, ⟨m, hm, hsource⟩, hbase, hended⟩)
  | look i =>
    obtain ⟨htable, hbase, hended⟩ := table_step_some h
    exact .inr (.inl ⟨_, htable, trivial, hbase, hended⟩)
  | fetch i fault =>
    obtain ⟨call, hcall, h⟩ := Option.bind_eq_some_iff.mp h
    obtain ⟨htable, hbase, hended⟩ := table_step_some h
    exact .inr (.inl ⟨_, htable, ⟨call, fault, hcall, rfl⟩, hbase, hended⟩)
  | keep i =>
    obtain ⟨htable, hbase, hended⟩ := table_step_some h
    exact .inr (.inl ⟨_, htable, trivial, hbase, hended⟩)
  | finish i fault =>
    obtain ⟨call, hcall, h⟩ := Option.bind_eq_some_iff.mp h
    obtain ⟨result, hresult, h⟩ := Option.bind_eq_some_iff.mp h
    obtain ⟨left, hleft, rfl⟩ := Option.map_eq_some_iff.mp h
    obtain ⟨htable, hbase, hended⟩ := table_step_some hleft
    exact .inr (.inr ⟨i, call, fault, result, hcall, hresult, htable, hbase, by rw [hended]⟩)

/-- The rest of the system runs as it does without the resolver. -/
theorem base_run (h : Run (ArchiveCache.step cfg) Free start s) :
    Run (Bridge.step cfg) Free initial s.base := by
  refine h.invariant (fun s => Run (Bridge.step cfg) Free initial s.base) (.refl _) ?_
  intro s a s' hi _ hs
  rcases step_cases hs with ⟨b, hbase, _⟩ | ⟨_, _, _, hbase, _⟩ | ⟨_, _, _, _, _, _, _, hbase, _⟩
  · exact hi.tail trivial hbase
  · rw [hbase]
    exact hi
  · rw [hbase]
    exact hi

/-- The resolver's cache runs as any table does. -/
theorem table_run (h : Run (ArchiveCache.step cfg) Free start s) :
    Run (Memo.step Lookup.key) Free Memo.empty s.table := by
  refine h.invariant (fun s => Run (Memo.step Lookup.key) Free Memo.empty s.table) (.refl _) ?_
  intro s a s' hi _ hs
  rcases step_cases hs with ⟨_, _, htable, _⟩ | ⟨_, htable, _⟩ | ⟨_, _, _, _, _, _, htable, _⟩
  · rw [htable]
    exact hi
  · exact hi.tail trivial htable
  · exact hi.tail trivial htable

/-- The bytes are those of the first entry of the item's name in the archive of the message's task,
and the message has that archive's checksum. -/
def Served (cfg : Config) (s : State) (call : Lookup) (bytes : Bytes) : Prop :=
  ∃ m ref archive, s.messages[call.mid]? = some m ∧ m.source = some ref ∧
    ArchiveOf s m.task_id archive ∧ ref.sha256 = some (cfg.py.zipSha256 archive) ∧
    (archive.find? (·.filename == entryName call.item)).map (·.data) = some bytes

/-- Every call is for a message's source, and every fetched archive is the one of its task. -/
structure Sound (cfg : Config) (s : Resolving) : Prop where
  calls : ∀ call phase, (call, phase) ∈ s.table.calls →
    ∃ m, s.base.messages[call.mid]? = some m ∧ (toWorker m).source = some call.source
  fetches : ∀ call archive, (call, archive) ∈ s.table.fetches →
    ∃ t, call.source = lookup cfg t ∧ ArchiveOf s.base t archive
  ended : ∀ call bytes, (call, .ok bytes) ∈ s.ended → Served cfg s.base call bytes

theorem Served.grow (g : Grows base base') (h : Served cfg base call bytes) :
    Served cfg base' call bytes := by
  obtain ⟨m, ref, archive, hm, href, harchive, hsha, hentry⟩ := h
  exact ⟨m, ref, archive, kept_at g.messages hm, href, harchive.grow g, hsha, hentry⟩

theorem Sound.grow (g : Grows s.base s'.base) (h : Sound cfg s) (htable : s'.table = s.table)
    (hended : s'.ended = s.ended) : Sound cfg s' := by
  refine ⟨fun call phase hmem => ?_, fun call archive hmem => ?_, fun call bytes hmem => ?_⟩
  · rw [htable] at hmem
    obtain ⟨m, hm, hsource⟩ := h.calls call phase hmem
    exact ⟨m, kept_at g.messages hm, hsource⟩
  · rw [htable] at hmem
    obtain ⟨t, hsource, harchive⟩ := h.fetches call archive hmem
    exact ⟨t, hsource, harchive.grow g⟩
  · rw [hended] at hmem
    exact (h.ended call bytes hmem).grow g

/-- The source of a message is the one of its task, with the checksum of the archive there. -/
theorem message_source {mid : Nat} (hi : Invariant cfg base) (hm : base.messages[mid]? = some m)
    (hs : (toWorker m).source = some source) : source = lookup cfg m.task_id ∧
      ∃ ref, m.source = some ref ∧ ∀ archive, ArchiveOf base m.task_id archive →
        ref.sha256 = some (cfg.py.zipSha256 archive) := by
  obtain ⟨ref, href, rfl⟩ := Option.map_eq_some_iff.mp hs
  have hflow := hi.messages m (List.mem_of_getElem? hm)
  obtain ⟨owner, hknown⟩ := hflow.known
  obtain ⟨archive, harchive, rfl⟩ := hflow.source ref href
  refine ⟨rfl, _, href, fun other hother => ?_⟩
  obtain ⟨owner', dir, hknown', hdir⟩ := hother
  obtain ⟨_, rfl⟩ := known_unique hi.tables hknown hknown'
  cases harchive.symm.trans hdir
  rfl

theorem table_sound (hi : Invariant cfg s.base) (hg : Genuine cfg s.base) (h : Sound cfg s)
    (hmeant : Meant s a) (hs : Memo.step Lookup.key s.table a = some s'.table)
    (hbase : s'.base = s.base) (hended : s'.ended = s.ended) : Sound cfg s' := by
  refine ⟨fun call phase hmem => ?_, fun call archive hmem => ?_, fun call bytes hmem => ?_⟩
  · rw [hbase]
    rcases Memo.step_calls hs hmem with ⟨before, hold⟩ | rfl
    · exact h.calls call before hold
    · obtain ⟨m, hm, hsource⟩ := hmeant
      exact ⟨m, hm, hsource⟩
  · rw [hbase]
    rcases Memo.step_fetches hs hmem with hold | ⟨i, rfl, hcall⟩
    · exact h.fetches call archive hold
    · obtain ⟨other, fault, hother, hanswer⟩ := hmeant
      cases hcall.symm.trans hother
      obtain ⟨m, hm, hmsource⟩ := h.calls call _ (List.mem_of_getElem? hcall)
      have hsource := (message_source hi hm hmsource).1
      refine ⟨m.task_id, hsource, hg.staged m.task_id archive ?_⟩
      rw [hsource] at hanswer
      cases fault with
      | some e => cases hanswer
      | none =>
        simp only [getObject] at hanswer
        split at hanswer
        · rename_i stored hstored
          cases hanswer
          exact hstored
        · cases hanswer
  · rw [hended] at hmem
    rw [hbase]
    exact h.ended call bytes hmem

/-- An archive in hand is the one of the task that the call is for. -/
theorem served (hi : Invariant cfg s.base) (hk : Memo.Kept Lookup.key s.table) (h : Sound cfg s)
    (hcall : (call, phase) ∈ s.table.calls) (hr : returned call fault phase = some (.ok bytes)) :
    Served cfg s.base call bytes := by
  obtain ⟨m, hm, hsource⟩ := h.calls call phase hcall
  cases phase with
  | found archive =>
    cases fault with
    | some e => cases hr
    | none =>
      obtain ⟨other, hkey, hfetched⟩ := hk.inHand call _ archive hcall rfl
      obtain ⟨t, hother, harchive⟩ := h.fetches other archive hfetched
      obtain ⟨hown, ref, href, hsha⟩ := message_source hi hm hsource
      have hlookup : cacheKey (lookup cfg t) = cacheKey (lookup cfg m.task_id) := by
        rw [← hother, ← hown]
        exact hkey
      have htask : t = m.task_id := lookup_injective hlookup
      subst htask
      refine ⟨m, ref, archive, hm, href, harchive, hsha archive harchive, ?_⟩
      simp only [returned, Option.some.injEq, openEntry] at hr
      split at hr
      · rename_i entry hentry
        cases hr
        rw [hentry]
        rfl
      · cases hr
  | failed e => cases hr
  | waiting => cases hr
  | fetching => cases hr
  | fetched archive => cases hr
  | left => cases hr

theorem step_sound (hb : Run (Bridge.step cfg) Free initial s.base) (hk : Memo.Kept Lookup.key s.table)
    (h : Sound cfg s) (hs : ArchiveCache.step cfg s a = some s') : Sound cfg s' := by
  have hi := reachable_flow hb
  have hg := reachable_genuine hb
  rcases step_cases hs with ⟨b, hstep, htable, hended⟩ | ⟨b, htable, hmeant, hbase, hended⟩ |
    ⟨i, call, fault, result, hcall, hresult, htable, hbase, hended⟩
  · exact h.grow (step_grows hi.tables hstep) htable hended
  · exact table_sound hi hg h hmeant htable hbase hended
  · have hmem := List.mem_of_getElem? hcall
    have hleft : Sound cfg { s' with ended := s.ended } := 
      table_sound (a := .leave i) hi hg h trivial htable hbase rfl
    refine ⟨hleft.calls, hleft.fetches, fun other bytes hother => ?_⟩
    rw [hended] at hother
    rcases List.mem_append.mp hother with hold | hnew
    · exact hleft.ended other bytes hold
    · cases List.mem_singleton.mp hnew
      rw [hbase]
      exact served hi hk h hmem hresult

theorem run_sound (h : Run (ArchiveCache.step cfg) Free start s) : Sound cfg s := by
  refine h.invariant_given (Sound cfg) (fun s => Run (Bridge.step cfg) Free initial s.base ∧
    Memo.Kept Lookup.key s.table) (fun s hrun => ⟨base_run hrun, Memo.run_kept (table_run hrun)⟩) ?_
    (fun _ _ _ hbase hi _ hs => step_sound hbase.1 hbase.2 hi hs)
  exact ⟨fun _ _ hmem => (by cases hmem), fun _ _ hmem => (by cases hmem), fun _ _ hmem => (by cases hmem)⟩

/-- Whatever is resolved, in whatever order: what is returned is from the archive that the message
has the checksum of, the cache has only what was fetched for its keys, and keys are not shared. -/
theorem cache_transparent (h : Run (ArchiveCache.step cfg) Free start s) :
    (∀ call bytes, (call, .ok bytes) ∈ s.ended → Served cfg s.base call bytes) ∧
    (∀ k archive, s.table.cache k = some archive →
      ∃ call, cacheKey call.source = k ∧ (call, archive) ∈ s.table.fetches) ∧
    ∀ a b : Worker.SourceRef, '/' ∉ a.bucket → '/' ∉ b.bucket → cacheKey a = cacheKey b →
      a.bucket = b.bucket ∧ a.key = b.key := by
  refine ⟨(run_sound h).ended, ?_, fun a b ha hb hkey => cacheKey_injective ha hb hkey⟩
  exact (Memo.run_kept (table_run h)).cached

def firstRound : List Bridge.Action :=
  Sample.confirmed 0 0 [("acme/a.txt".toList, [1])] ++ Sample.upload 0 1

/-- The delivery fails, a cleanup job deletes the object, and a retry stages it again. -/
def secondRound : List Bridge.Action :=
  Sample.run 2 0 [some (.sink "timeout" false)] ++
    [.apply 0, .cleanup (.read 0 none), .cleanup (.delete 3 true), .cleanup (.commit 3)] ++
    Sample.retry 0 4 ++ Sample.upload 0 5

def fileItem : Worker.DeliveryItem :=
  ⟨"1".toList, "acme/a.txt".toList, [], "a.txt".toList, "ok", "pending"⟩

/-- The second message is resolved from the cache. -/
def reused : List ArchiveCache.Action :=
  firstRound.map .base ++ [.resolve 0 fileItem, .look 0, .fetch 0 none, .keep 0, .finish 0 none] ++
    secondRound.map .base ++ [.resolve 1 fileItem, .look 1, .finish 1 none]

theorem reused_served : ∃ s call bytes, Run (ArchiveCache.step Sample.cfg) Free start s ∧
    call.mid = 1 ∧ (call, .ok bytes) ∈ s.ended ∧ Served Sample.cfg s.base call bytes := by
  obtain ⟨s, hrun, hs⟩ := replay_reaches (ArchiveCache.step Sample.cfg) Free
    (p := fun s => ∃ e ∈ s.ended, e.1.mid = 1 ∧ e.2.toOption.isSome = true) start reused
    (by decide +kernel)
  obtain ⟨⟨call, result⟩, hmem, hmid, hok⟩ := hs
  cases result with
  | error e => cases hok
  | ok bytes => exact ⟨s, call, bytes, hrun, hmid, hmem, (cache_transparent hrun).1 call bytes hmem⟩

section Alone

/-- The resolver with its last call at a phase. -/
def atPhase (s : Resolving) (call : Lookup) (phase : Memo.Phase String Archive) (holder : Option Nat)
    (cache : Cache) (fetches : List (Lookup × Archive)) : Resolving :=
  { s with table := ⟨cache, holder, s.table.calls ++ [(call, phase)], fetches⟩ }

theorem atPhase_get (s : Resolving) (call : Lookup) (phase : Memo.Phase String Archive) :
    (s.table.calls ++ [(call, phase)])[s.table.calls.length]? = some (call, phase) :=
  List.getElem?_concat_length

theorem atPhase_set (s : Resolving) (call : Lookup) (phase next : Memo.Phase String Archive) :
    (s.table.calls ++ [(call, phase)]).set s.table.calls.length (call, next) =
      s.table.calls ++ [(call, next)] := by
  rw [List.set_append_right _ _ (Nat.le_refl _), Nat.sub_self]
  rfl

variable (cfg : Config) (s : Resolving) (call : Lookup) (holder : Option Nat) (cache : Cache)
  (fetches : List (Lookup × Archive))

theorem look_alone : ArchiveCache.step cfg (atPhase s call .waiting none cache fetches)
      (.look s.table.calls.length) =
    some (match cache (cacheKey call.source) with
      | some archive => atPhase s call (.found archive) none cache fetches
      | none => atPhase s call .fetching (some s.table.calls.length) cache fetches) := by
  simp only [ArchiveCache.step, Resolving.table_step, Memo.step, atPhase, atPhase_get, Lookup.key]
  cases cache (cacheKey call.source) <;> simp [Memo.Table.moved]

theorem fetch_alone : ArchiveCache.step cfg (atPhase s call .fetching holder cache fetches)
      (.fetch s.table.calls.length none) =
    some (match getObject s.base.staging call.source none with
      | .ok archive => atPhase s call (.fetched archive) holder cache (fetches ++ [(call, archive)])
      | .error e => atPhase s call (.failed e) none cache fetches) := by
  simp only [ArchiveCache.step, Resolving.table_step, Memo.step, atPhase, atPhase_get,
    Option.bind_some]
  cases getObject s.base.staging call.source none <;> simp [Memo.Table.moved]

theorem keep_alone (archive : Archive) :
    ArchiveCache.step cfg (atPhase s call (.fetched archive) holder cache fetches)
      (.keep s.table.calls.length) =
    some (atPhase s call (.found archive) none
      (Function.update cache (cacheKey call.source) (some archive)) fetches) := by
  simp [ArchiveCache.step, Resolving.table_step, Memo.step, atPhase, Lookup.key, Memo.Table.moved]

theorem finish_alone (phase : Memo.Phase String Archive)
    (hr : returned call none phase = some result) :
    ArchiveCache.step cfg (atPhase s call phase holder cache fetches) (.finish s.table.calls.length none) =
      some { atPhase s call .left holder cache fetches with ended := s.ended ++ [(call, result)] } := by
  have hleave : Memo.step Lookup.key (atPhase s call phase holder cache fetches).table
      (.leave s.table.calls.length) = some (atPhase s call .left holder cache fetches).table := by
    cases phase <;> simp only [returned, reduceCtorEq] at hr
    all_goals simp only [Memo.step, atPhase, atPhase_get, Memo.Table.moved, atPhase_set]
  simp only [ArchiveCache.step, Resolving.table_step, hleave, Option.map_some]
  simp only [atPhase, atPhase_get, Option.bind_some, hr]

theorem resolveArchive_eq (hs : task.source = some source) :
    resolveArchive cache staging task item =
      match cache (cacheKey source) with
      | some archive => (openEntry source item archive, cache)
      | none => match getObject staging source none with
        | .ok archive =>
          (openEntry source item archive, Function.update cache (cacheKey source) (some archive))
        | .error e => (.error e, cache) := by
  simp only [resolveArchive, getArchive, getObject, hs]
  cases cache (cacheKey source) with
  | some archive => rfl
  | none => cases staging (source.bucket, source.key) <;> rfl

/-- A call that no other one comes between does what the resolver does in one step. -/
theorem resolve_alone (hfree : s.table.holder = none) (hm : s.base.messages[call.mid]? = some m)
    (hs : (toWorker m).source = some call.source) :
    ∃ s', Run (ArchiveCache.step cfg) Free s s' ∧ s'.base = s.base ∧ s'.table.holder = none ∧
      s'.table.cache = (resolveArchive s.table.cache s.base.staging (toWorker m) call.item).2 ∧
      s'.ended = s.ended ++ [(call,
        (resolveArchive s.table.cache s.base.staging (toWorker m) call.item).1)] := by
  have hcall : ArchiveCache.step cfg s (.resolve call.mid call.item) =
      some (atPhase s call .waiting none s.table.cache s.table.fetches) := by
    simp [ArchiveCache.step, hm, hs, Resolving.table_step, Memo.step, atPhase, hfree]
  have hwaiting : Run (ArchiveCache.step cfg) Free s _ := (Run.refl s).tail trivial hcall
  have hlook := look_alone cfg s call s.table.cache s.table.fetches
  rw [resolveArchive_eq s.table.cache hs]
  cases hcache : s.table.cache (cacheKey call.source) with
  | some archive =>
    rw [hcache] at hlook
    have hfinish := finish_alone cfg s call none s.table.cache s.table.fetches (.found archive) rfl
    exact ⟨_, (hwaiting.tail trivial hlook).tail trivial hfinish, rfl, rfl, rfl, rfl⟩
  | none =>
    rw [hcache] at hlook
    have hlooked := hwaiting.tail trivial hlook
    have hfetch := fetch_alone cfg s call (some s.table.calls.length) s.table.cache s.table.fetches
    cases hget : getObject s.base.staging call.source none with
    | ok archive =>
      rw [hget] at hfetch
      have hkeep := keep_alone cfg s call (some s.table.calls.length) s.table.cache
        (s.table.fetches ++ [(call, archive)]) archive
      have hkept := (hlooked.tail trivial hfetch).tail trivial hkeep
      have hfinish := finish_alone cfg s call none
        (Function.update s.table.cache (cacheKey call.source) (some archive))
        (s.table.fetches ++ [(call, archive)]) (.found archive) rfl
      exact ⟨_, hkept.tail trivial hfinish, rfl, rfl, rfl, rfl⟩
    | error e =>
      rw [hget] at hfetch
      have hfinish := finish_alone cfg s call none s.table.cache s.table.fetches (.failed e) rfl
      exact ⟨_, (hlooked.tail trivial hfetch).tail trivial hfinish, rfl, rfl, rfl, rfl⟩

end Alone

end FileDelivery.Proofs.CacheTransparent
