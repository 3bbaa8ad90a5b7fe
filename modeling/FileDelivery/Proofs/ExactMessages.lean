import FileDelivery.Proofs.ConfirmGate
import Mathlib.Data.Char
import Mathlib.Data.List.Lex

namespace FileDelivery.Proofs.ExactMessages
open FileDelivery.Library FileDelivery.Library.Runs FileDelivery.Control FileDelivery.Bridge
open FileDelivery.Proofs.Moves FileDelivery.Proofs.Tables FileDelivery.Proofs.Flow

/-- The items of a task that are ok or warning, and pending: each once, in the order of their paths. -/
structure Exactly (db : Db) (t : Nat) (items : List TaskItem) : Prop where
  members : ∀ i, i ∈ items ↔ i ∈ db.items ∧ i.task_id = t ∧
    (i.severity = .ok ∨ i.severity = .warning) ∧ i.upload_status = .pending
  once : (items.map TaskItem.id).Nodup
  ordered : items.Pairwise ItemRepo.rowOrder

variable (cfg : Config) (ok : State → Action → Prop)

/-- Request `rid` of task `t` has listed these rows, at a state of the run that leads here. -/
def ListedBy (s : State) (rid t : Nat) (items : List TaskItem) : Prop :=
  ∃ u u' r, Run (step cfg) ok initial u ∧ Rows.find? u.uploads rid = some r ∧ r.task.id = t ∧
    step cfg u (.upload rid .list) = some u' ∧ Run (step cfg) ok u' s ∧
    items = Tasks.upload_items u.db r.actor t

/-- The listing that a request holds. -/
def content : UploadStage → Option (List TaskItem)
  | .listed items | .staged items _ | .ready items _ => some items
  | _ => none

/-- A message that a request has published from its listing, at a state of the run that leads here. -/
def Issued (s : State) (m : DeliveryTaskMessage) : Prop :=
  ∃ v v' rid action items, ListedBy cfg ok v rid m.task_id items ∧
    (action = .publish ∨ action = .publishRaises true) ∧
    step cfg v (.upload rid action) = some v' ∧ v'.messages = v.messages ++ [m] ∧
    Run (step cfg) ok v' s ∧ m.items = items.map (.ofItem m.source)

variable {cfg ok} {s s' : State}

theorem ListedBy.grow (h : ListedBy cfg ok s rid t items) (hr : Run (step cfg) ok s s') :
    ListedBy cfg ok s' rid t items := by
  obtain ⟨u, u', r, hu, hfind, ht, hstep, hlater, hitems⟩ := h
  exact ⟨u, u', r, hu, hfind, ht, hstep, hlater.trans hr, hitems⟩

theorem Issued.grow (h : Issued cfg ok s m) (hr : Run (step cfg) ok s s') : Issued cfg ok s' m := by
  obtain ⟨v, v', rid, action, items, hl, ha, hstep, hm, hlater, hitems⟩ := h
  exact ⟨v, v', rid, action, items, hl, ha, hstep, hm, hlater.trans hr, hitems⟩

theorem handler_content (h : Handler stage) : content stage = none := by
  cases stage <;> first | exact False.elim h | rfl

/-- A request holds the listing that it held, or the one that it has just made. -/
theorem move_content (h : UploadMove cfg s r old action u (some stage))
    (hc : content stage = some items) : content old = some items ∨
      (action = .list ∧ items = Tasks.upload_items s.db r.actor r.task.id) := by
  generalize hnext : some stage = next at h
  cases h
  case listed =>
    cases hnext
    cases hc
    exact .inr ⟨rfl, rfl⟩
  case direct =>
    cases hnext
    exact .inl hc
  case stored archive source harchive hsource =>
    rename_i raised
    cases raised <;> cases hnext
    · exact .inl hc
    · cases hc
  case recorded =>
    cases hnext
    exact .inl hc
  case sent | unsent =>
    rw [handler_content (afterException_handler hnext)] at hc
    cases hc
  case raised =>
    rw [handler_content (raisedTo_handler hnext)] at hc
    cases hc
  all_goals
    cases hnext
    try cases hc

/-- What a publishing request sends is what it has listed. -/
theorem move_issues (h : UploadMove cfg s r old action u next) (hm : m ∈ u.messages) :
    m ∈ s.messages ∨ ∃ items, content old = some items ∧
      (action = .publish ∨ action = .publishRaises true) ∧ u.messages = s.messages ++ [m] ∧
      m.task_id = r.task.id ∧ m.items = items.map (.ofItem m.source) := by
  cases h with
  | published =>
    rcases List.mem_append.mp hm with hm | hm
    · exact .inl hm
    · rw [List.mem_singleton.mp hm]
      exact .inr ⟨_, rfl, .inl rfl, rfl, rfl, rfl⟩
  | sent =>
    rcases List.mem_append.mp hm with hm | hm
    · exact .inl hm
    · rw [List.mem_singleton.mp hm]
      exact .inr ⟨_, rfl, .inr rfl, rfl, rfl, rfl⟩
  | _ => exact .inl hm

/-- Every listing that a request holds and every message on the topic goes back to its listing. -/
structure Traced (cfg : Config) (ok : State → Action → Prop) (s : State) : Prop where
  reached : Run (step cfg) ok initial s
  uploads : ∀ r ∈ s.uploads, ∀ items, content r.stage = some items →
    ListedBy cfg ok s r.rid r.task.id items
  messages : ∀ m ∈ s.messages, Issued cfg ok s m

theorem step_traced (h : Traced cfg ok s) (hok : ok s a) (hs : step cfg s a = some s') :
    Traced cfg ok s' := by
  have hone : Run (step cfg) ok s s' := .tail (.refl s) hok hs
  have hrids := (reachable_flow h.reached).requests.rids
  have huploads : ∀ r ∈ s.uploads, ∀ items, content r.stage = some items →
      ListedBy cfg ok s' r.rid r.task.id items :=
    fun r hr items hc => (h.uploads r hr items hc).grow hone
  have hmessages : ∀ m ∈ s.messages, Issued cfg ok s' m := fun m hm => (h.messages m hm).grow hone
  have hreached := h.reached.trans hone
  cases step_moves hs with
  | began task hcheck =>
    refine ⟨hreached, fun r hr items hc => ?_, hmessages⟩
    rcases List.mem_append.mp hr with hr | hr
    · exact huploads r hr items hc
    · rw [List.mem_singleton.mp hr] at hc
      cases hc
  | requested q u next hq hmove =>
    have hqmem := Rows.find_mem hq
    obtain rfl : q.rid = _ := Rows.find_key hq
    refine ⟨hreached, fun r hr items hc => ?_, fun m hm => ?_⟩
    · rcases (moved_uploads hrids hq next).2 r hr with ⟨stage, rfl, rfl⟩ | ⟨hr, _⟩
      · rcases move_content hmove hc with hold | ⟨rfl, rfl⟩
        · exact huploads q hqmem items hold
        · exact ⟨s, _, q, h.reached, hq, rfl, hs, .refl _, rfl⟩
      · exact huploads r hr items hc
    · rcases move_issues hmove hm with hm | ⟨items, hold, haction, happend, htask, hitems⟩
      · exact hmessages m hm
      · refine ⟨s, _, q.rid, _, items, ?_, haction, hs, happend, .refl _, hitems⟩
        rw [htask]
        exact h.uploads q hqmem items hold
  | worked hmove => cases hmove <;> exact ⟨hreached, huploads, hmessages⟩
  | cleaned hmove => cases hmove <;> exact ⟨hreached, huploads, hmessages⟩
  | _ => exact ⟨hreached, huploads, hmessages⟩

theorem reachable_traced (h : Run (step cfg) ok initial s) : Traced cfg ok s := by
  refine h.invariant (Traced cfg ok) ⟨.refl _, by simp [initial], by simp [initial]⟩ ?_
  exact fun _ _ _ ht hok hs => step_traced ht hok hs

/-- What a request lists are exactly the items to upload. -/
theorem listed_exactly (hi : Invariant cfg s) (hr : Rows.find? s.uploads rid = some r) :
    Exactly s.db r.task.id (Tasks.upload_items s.db r.actor r.task.id) := by
  obtain ⟨row, hrow, hid, howner, _⟩ := (hi.requests.each r (Rows.find_mem hr)).known
  have hallows : ItemRepo.ownerAllows s.db (some r.actor.tenant_id) r.task.id = true :=
    List.any_eq_true.mpr ⟨row, hrow, by simp [hid, howner]⟩
  refine ⟨fun i => ?_, (upload_items_listed hi.tables.item_ids r.actor r.task.id).ids, ?_⟩
  · simp [Tasks.upload_items, ItemRepo.list_by_task, hallows, TaskItem.deliverable, and_assoc]
  · exact (Rows.sorted_pairwise TaskItem.src_path TaskItem.id (fun _ _ => Iff.rfl)).filter _

/-- The message carries exactly the items to upload, as its request found them when it listed them. -/
def Listing (cfg : Config) (ok : State → Action → Prop) (s : State) (m : DeliveryTaskMessage) : Prop :=
  ∃ u u' v v' rid action items, Run (step cfg) ok initial u ∧
    step cfg u (.upload rid .list) = some u' ∧ Run (step cfg) ok u' v ∧
    (action = .publish ∨ action = .publishRaises true) ∧
    step cfg v (.upload rid action) = some v' ∧ v'.messages = v.messages ++ [m] ∧
    Run (step cfg) ok v' s ∧ Exactly u.db m.task_id items ∧ m.items = items.map (.ofItem m.source)

theorem issued_listing (h : Issued cfg ok s m) : Listing cfg ok s m := by
  obtain ⟨v, v', rid, action, items, hlisted, haction, hpublish, hmessages, hlater, hitems⟩ := h
  obtain ⟨u, u', r, hu, hfind, htask, hlist, hbetween, rfl⟩ := hlisted
  refine ⟨u, u', v, v', rid, action, _, hu, hlist, hbetween, haction, hpublish, hmessages, hlater, ?_,
    hitems⟩
  rw [← htask]
  exact listed_exactly (reachable_flow hu) hfind

section Gate
open FileDelivery.Proofs.Summaries FileDelivery.Proofs.ConfirmGate

/-- What the gate ensures in a state. -/
structure Ensures (cfg : Config) (profiles : Nat → ProfileConfig) (s : State) : Prop where
  flag : ∀ task ∈ s.db.tasks, ∀ summary ∈ task.summary_json,
    (summary.has_blocking_errors = true ↔
      ∃ i ∈ s.db.items, i.task_id = task.id ∧ i.severity = .error)
  /-- From `confirmed` on, whatever happens to the task. -/
  confirmed : ∀ task ∈ s.db.tasks, passed task.status = true →
    ∀ u, Run (step cfg) (Fixed profiles) s u →
      ∀ i ∈ u.db.items, i.task_id = task.id → i.severity ≠ .error
  messages : ∀ m ∈ s.messages, Listing cfg (Fixed profiles) s m

/-- Whatever the order of the requests, runs and results: the summary agrees with the rows, no
task with an error passes, and messages carry exactly what is to be uploaded. -/
theorem confirmation_gate (profiles : Nat → ProfileConfig)
    (h : Run (step cfg) (Fixed profiles) initial s) : Ensures cfg profiles s := by
  have hg := reachable_gate h
  have hi := reachable_flow h
  refine ⟨?_, ?_, fun m hm => issued_listing ((reachable_traced h).messages m hm)⟩
  · intro task ht summary hsum
    have hacc := hg.accurate task ht
    rw [Option.mem_def.mp hsum] at hacc
    exact hacc.flag
  · intro task ht hp u hu i hmem hid
    have hclean := run_clean hi hg hu (hg.passed task ht hp)
    exact (reachable_gate (h.trans hu)).no_errors hclean hmem hid

/-- A task whose only item was published after confirmation, with its result applied twice. -/
theorem confirmed_ensures : ∃ s, Run (step Sample.cfg) (Fixed (fun _ => Sample.profile)) initial s ∧
    (s.messages.length = 1 ∧ statusOf s.db 0 = some .uploaded) ∧
    Ensures Sample.cfg (fun _ => Sample.profile) s := by
  obtain ⟨s, hs, hp⟩ : ∃ s, Run (step Sample.cfg) (Fixed (fun _ => Sample.profile)) initial s ∧
      (s.messages.length = 1 ∧ statusOf s.db 0 = some .uploaded) :=
    replay_meets (step Sample.cfg) initial
      (Sample.confirmed 0 0 [("acme/report.txt".toList, [1])] ++ Sample.upload 0 1 ++
        Sample.run 2 0 [none] ++ [.apply 0, .apply 0])
      (by simp [Sample.confirmed, Sample.upload, Sample.run, Fixed])
      (by decide +kernel)
  exact ⟨s, hs, hp, confirmation_gate _ hs⟩

end Gate

end FileDelivery.Proofs.ExactMessages
