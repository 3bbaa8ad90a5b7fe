import FileDelivery.Bridge.Replay
import FileDelivery.Proofs.ItemNames

namespace FileDelivery.Proofs.SummaryCounts
open FileDelivery.Library FileDelivery.Control FileDelivery.Control.Classifier
open FileDelivery.Proofs.ItemNames

/-- The entries of an archive that are not directories. -/
def files (py : Python) (archive : Archive) : Archive :=
  archive.filter (fun info => !(['/'].isSuffixOf (_decode_zip_filename py info)))

/-- No document type was found for an item that has a target. -/
def Untyped (item : ClassifiedItem) : Prop :=
  item.target_name_matched.isSome ∧ item.document_type = [] ∧ item.severity ≠ .error

instance (item : ClassifiedItem) : Decidable (Untyped item) :=
  inferInstanceAs (Decidable (_ ∧ _))

/-- No target was found for an item. -/
def Unmatched (item : ClassifiedItem) : Prop :=
  item.severity = .error ∧ item.error_code = "unknown_target"

instance (item : ClassifiedItem) : Decidable (Unmatched item) :=
  inferInstanceAs (Decidable (_ ∧ _))

/-- What all exits of the loop body have in common. -/
structure Judged (item : ClassifiedItem) : Prop where
  listed : item.severity ≠ .ignored
  warning : item.severity = .warning ↔ Untyped item

theorem error_judged (hs : item.severity = .error) : Judged item where
  listed := by simp [hs]
  warning := by simp [hs, Untyped]

theorem destination_judged
    (h : destination py profile info src_path filename ext raw m method = some item) :
    Judged item := by
  unfold destination at h
  generalize _resolve_document_type py profile filename ext = resolved at h
  obtain ⟨doc_type, doc_match_method, match_score⟩ := resolved
  obtain ⟨rendered, _, rfl⟩ := Option.map_eq_some_iff.mp h
  cases rendered with
  | error code => exact error_judged rfl
  | ok dst_path =>
    by_cases hd : doc_type = []
    · exact ⟨by simp [hd], by simp [hd, Untyped, errorItem]⟩
    · exact ⟨by simp [hd], by simp [hd, Untyped, errorItem]⟩

theorem entry_judged (h : classify_entry py profile info src_path = some (.item item)) :
    Judged item := by
  cases entry_exit h with
  | traversal | unnamed | unknown => exact error_judged rfl
  | placed _ _ _ hplaced => exact destination_judged hplaced

/-- The counters describe the items that `entries` entries have become. -/
structure Agrees (entries : Nat) (items : List ClassifiedItem) (summary : ClassifySummary) :
    Prop where
  total : summary.total = entries
  parts : summary.total = summary.ok + summary.warning + summary.error + summary.ignored
  listed : items.length + summary.ignored = summary.total
  ok : summary.ok = items.countP (·.severity = .ok)
  warning : summary.warning = items.countP (·.severity = .warning)
  error : summary.error = items.countP (·.severity = .error)
  unmatched_targets : summary.unmatched_targets = items.countP (Unmatched ·)
  unmatched_document_types : summary.unmatched_document_types = items.countP (Untyped ·)
  targets_involved : ∀ key, key ∈ summary.targets_involved ↔
    key ≠ [] ∧ ∃ item ∈ items, item.severity = .ok ∧ item.target_name_matched = some key

theorem Agrees.start : Agrees 0 [] .zero := by
  constructor <;> simp [ClassifySummary.zero]

theorem Agrees.skip (h : Agrees n items summary) :
    Agrees (n + 1) items (count summary .ignored) := by
  obtain ⟨total, parts, listed, ok, warning, error, targets, types, involved⟩ := h
  refine ⟨?_, ?_, ?_, ok, warning, error, targets, types, involved⟩
  · simp only [count]
    omega
  · simp only [count]
    omega
  · simp only [count]
    omega

/-- Only a key that is not empty counts as involved. -/
theorem insert_involved {keys : List Text} {matched : Option Text} :
    key ∈ ((matched.filter (· ≠ [])).map keys.insert).getD keys ↔
      key ∈ keys ∨ (key ≠ [] ∧ matched = some key) := by
  cases matched with
  | none => simp
  | some m =>
    by_cases hm : m = []
    · subst hm
      simp only [ne_eq, decide_not, Option.filter_some, decide_true, Bool.not_true,
        Bool.false_eq_true, if_false, Option.map_none, Option.getD_none, Option.some.injEq]
      constructor
      · exact .inl
      · rintro (h | ⟨hne, rfl⟩)
        · exact h
        · exact absurd rfl hne
    · simp only [ne_eq, decide_not, Option.filter_some, hm, decide_false, Bool.not_false, if_true,
        Option.map_some, Option.getD_some, List.mem_insert_iff, Option.some.injEq]
      constructor
      · rintro (rfl | h)
        · exact .inr ⟨hm, rfl⟩
        · exact .inl h
      · rintro (h | ⟨_, rfl⟩)
        · exact .inr h
        · exact .inl rfl

theorem Agrees.add (h : Agrees n items summary) (hj : Judged item) :
    Agrees (n + 1) (items ++ [item]) (count summary (.item item)) := by
  obtain ⟨total, parts, listed, ok, warning, error, targets, types, involved⟩ := h
  have hw := hj.warning
  cases hs : item.severity with
  | ignored => exact absurd hs hj.listed
  | ok =>
    have hu : ¬Untyped item := by simp [← hw, hs]
    have ht : ¬Unmatched item := by simp [Unmatched, hs]
    constructor
    case targets_involved =>
      intro key
      simp only [count, hs]
      rw [insert_involved, involved key]
      simp only [List.mem_append, List.mem_singleton, or_and_right, exists_or, exists_eq_left, hs,
        true_and, and_or_left]
    all_goals simp [count, hs, hu, ht, List.countP_append]
    all_goals omega
  | warning =>
    have hu : Untyped item := hw.mp hs
    have ht : ¬Unmatched item := by simp [Unmatched, hs]
    constructor
    case targets_involved =>
      intro key
      simp only [count, hs]
      rw [involved key]
      simp [or_and_right, exists_or, hs]
    all_goals simp [count, hs, hu, ht, List.countP_append]
    all_goals omega
  | error =>
    have hu : ¬Untyped item := by simp [← hw, hs]
    constructor
    case targets_involved =>
      intro key
      simp only [count, hs]
      rw [involved key]
      simp [or_and_right, exists_or, hs]
    case unmatched_targets =>
      by_cases hc : item.error_code = "unknown_target"
      · simp [count, hs, hc, Unmatched, targets, List.countP_append]
      · simp [count, hs, hc, Unmatched, targets, List.countP_append]
    all_goals simp [count, hs, hu, List.countP_append]
    all_goals omega

/-- The loop adds to the counters what the remaining entries become. -/
theorem classify_entries_agrees {archive : Archive} {items : List ClassifiedItem}
    (h : classify_entries py profile archive items summary = some (items', summary'))
    (hc : Agrees n items summary) : Agrees (n + (files py archive).length) items' summary' := by
  induction archive generalizing n items summary with
  | nil =>
    cases h
    exact hc
  | cons info rest ih =>
    simp only [classify_entries] at h
    split at h
    · rename_i hdir
      have hskip : files py (info :: rest) = files py rest := by simp [files, hdir]
      rw [hskip]
      exact ih h hc
    · rename_i hfile
      have hcount : n + (files py (info :: rest)).length = n + 1 + (files py rest).length := by
        simp [files, hfile]
        omega
      rw [hcount]
      obtain ⟨outcome, ho, h⟩ := Option.bind_eq_some_iff.mp h
      cases outcome with
      | ignored => exact ih h hc.skip
      | item last => exact ih h (hc.add (entry_judged ho))

/-- The set of involved targets holds no key twice. -/
theorem count_nodup {summary : ClassifySummary} (h : summary.targets_involved.Nodup)
    (outcome : Outcome) : (count summary outcome).targets_involved.Nodup := by
  cases outcome with
  | ignored => exact h
  | item item =>
    cases hs : item.severity with
    | ok =>
      simp only [count, hs]
      cases hm : item.target_name_matched.filter (· ≠ []) with
      | none => simpa [hm] using h
      | some key => simpa [hm] using h.insert
    | _ => simpa [count, hs] using h

theorem classify_entries_nodup {archive : Archive} {items : List ClassifiedItem}
    (h : classify_entries py profile archive items summary = some (items', summary'))
    (hn : summary.targets_involved.Nodup) : summary'.targets_involved.Nodup := by
  induction archive generalizing items summary with
  | nil =>
    cases h
    exact hn
  | cons info rest ih =>
    simp only [classify_entries] at h
    split at h
    · exact ih h hn
    · obtain ⟨outcome, _, h⟩ := Option.bind_eq_some_iff.mp h
      cases outcome with
      | ignored => exact ih h (count_nodup hn .ignored)
      | item last => exact ih h (count_nodup hn (.item last))

/-- The summary describes the items of the archive, and these keep its order. -/
structure Describes (py : Python) (archive : Archive) (items : List ClassifiedItem)
    (summary : ClassifySummary) : Prop where
  agrees : Agrees (files py archive).length items summary
  involved_once : summary.targets_involved.Nodup
  has_blocking_errors : summary.has_blocking_errors = true ↔ ∃ item ∈ items, item.severity = .error
  order : (items.map (·.src_path)).Sublist ((files py archive).map (_decode_zip_filename py))

/-- The names of the items are names of files, in the order of the archive. -/
theorem itemNames_sublist (py : Python) (profile : ProfileConfig) (archive : Archive) :
    (itemNames py profile archive).Sublist ((files py archive).map (_decode_zip_filename py)) := by
  induction archive with
  | nil => exact .slnil
  | cons info rest ih =>
    by_cases hdir : ['/'].isSuffixOf (_decode_zip_filename py info) = true
    · simpa [itemNames, itemName, files, hdir] using ih
    · by_cases hkeep : keeps profile (_decode_zip_filename py info) = true
      · simpa [itemNames, itemName, files, hdir, hkeep] using ih
      · have hcons := ih.cons (_decode_zip_filename py info)
        simpa [itemNames, itemName, files, hdir, hkeep] using hcons

theorem classify_zip_describes (h : classify_zip py profile archive = some (items, summary)) :
    Describes py archive items summary := by
  have hnames := classified_names h
  obtain ⟨⟨all, counted⟩, hentries, he⟩ := Option.map_eq_some_iff.mp h
  cases he
  have hc : Agrees (0 + (files py archive).length) items counted :=
    classify_entries_agrees hentries .start
  have hn := classify_entries_nodup hentries (by simp [ClassifySummary.zero])
  rw [Nat.zero_add] at hc
  have hperm := List.perm_insertionSort textOrder counted.targets_involved
  refine ⟨{ hc with targets_involved := ?_ }, hperm.nodup_iff.mpr hn, ?_, ?_⟩
  · intro key
    exact hperm.mem_iff.trans (hc.targets_involved key)
  · simp [hc.error, List.countP_pos_iff]
  · rw [hnames]
    exact itemNames_sublist py profile archive

/-- The template can be formatted, whatever the values of its fields are. -/
def Renders (py : Python) (profile : ProfileConfig) : Prop :=
  ∀ category document_type filename,
    (_render_path py profile category document_type filename).isSome = true

theorem entry_returns (hr : Renders py profile) (info : ZipInfo) (src_path : Text) :
    ∃ outcome, classify_entry py profile info src_path = some outcome := by
  have hplaced : ∀ filename ext raw m method, ∃ item,
      destination py profile info src_path filename ext raw m method = some item := by
    intro filename ext raw m method
    unfold destination
    generalize _resolve_document_type py profile filename ext = resolved
    obtain ⟨doc_type, doc_match_method, match_score⟩ := resolved
    apply Option.isSome_iff_exists.mp
    simp only [Option.isSome_map]
    generalize (if doc_type = [] then [] else _ : Text) = category_name
    by_cases hd : doc_type ≠ [] ∧ category_name ≠ []
    · rw [if_pos hd]
      exact hr category_name doc_type filename
    · rw [if_neg hd]
      rfl
  unfold classify_entry
  simp only
  split
  · exact ⟨_, rfl⟩
  · split
    · exact ⟨_, rfl⟩
    · split
      · exact ⟨_, rfl⟩
      · split
        · exact ⟨_, rfl⟩
        · split
          · exact ⟨_, rfl⟩
          · obtain ⟨item, hitem⟩ := hplaced _ _ _ _ _
            rw [hitem]
            exact ⟨_, rfl⟩

theorem entries_return (hr : Renders py profile) (archive : Archive) (items : List ClassifiedItem)
    (summary : ClassifySummary) :
    ∃ result, classify_entries py profile archive items summary = some result := by
  induction archive generalizing items summary with
  | nil => exact ⟨_, rfl⟩
  | cons info rest ih =>
    simp only [classify_entries]
    split
    · exact ih items summary
    · obtain ⟨outcome, ho⟩ := entry_returns hr info (_decode_zip_filename py info)
      rw [ho]
      cases outcome with
      | ignored => exact ih _ _
      | item last => exact ih _ _

/-- A template that can be formatted makes the classifier return, and each summary that it returns
describes the items beside it. -/
theorem summary_describes_items (py : Python) (profile : ProfileConfig) (archive : Archive) :
    (Renders py profile → ∃ items summary, classify_zip py profile archive = some (items, summary)) ∧
      ∀ items summary, classify_zip py profile archive = some (items, summary) →
        Describes py archive items summary := by
  constructor
  · intro hr
    obtain ⟨⟨items, summary⟩, hresult⟩ := entries_return hr archive [] .zero
    unfold classify_zip
    rw [hresult]
    exact ⟨_, _, rfl⟩
  · intro items summary h
    exact classify_zip_describes h

/-- The template of the sample has known fields only. -/
theorem sample_described :
    ∃ items summary,
      classify_zip Bridge.Sample.py Bridge.Sample.profile
        [⟨"acme/q1.txt", []⟩, ⟨"acme/", []⟩, ⟨"../q1.txt", []⟩] = some (items, summary) ∧
      Describes Bridge.Sample.py [⟨"acme/q1.txt", []⟩, ⟨"acme/", []⟩, ⟨"../q1.txt", []⟩]
        items summary := by
  obtain ⟨returns, describes⟩ := summary_describes_items Bridge.Sample.py Bridge.Sample.profile
    [⟨"acme/q1.txt", []⟩, ⟨"acme/", []⟩, ⟨"../q1.txt", []⟩]
  obtain ⟨items, summary, h⟩ := returns (fun _ _ _ => rfl)
  exact ⟨items, summary, h, describes items summary h⟩

/-- A target whose key is empty, known by an alias. -/
def nameless : ProfileConfig :=
  { Bridge.Sample.profile with targets := [⟨[], ["acme"], false⟩] }

/-- An item of the nameless target is in order and involves no target; a template that ends within
a field raises. -/
theorem nameless_not_involved :
    (¬∀ (py : Python) (profile : ProfileConfig) (archive : Archive),
      ∃ items summary, classify_zip py profile archive = some (items, summary)) ∧
    ¬∀ (py : Python) (profile : ProfileConfig) (archive : Archive) (items : List ClassifiedItem)
      (summary : ClassifySummary), classify_zip py profile archive = some (items, summary) →
      ∀ key, key ∈ summary.targets_involved ↔
        ∃ item ∈ items, item.severity = .ok ∧ item.target_name_matched = some key := by
  constructor
  · intro h
    obtain ⟨items, summary, hrun⟩ := h Bridge.Sample.py
      { Bridge.Sample.profile with path_template := "\x7b" } [⟨"acme/q1.txt", []⟩]
    have hraises : classify_zip Bridge.Sample.py
      { Bridge.Sample.profile with path_template := "\x7b" } [⟨"acme/q1.txt", []⟩] = none := rfl
    rw [hraises] at hrun
    cases hrun
  · intro h
    have hrun : ∃ item summary, classify_zip Bridge.Sample.py nameless [⟨"acme/q1.txt", []⟩] =
        some ([item], summary) ∧ item.severity = .ok ∧ item.target_name_matched = some [] ∧
        summary.targets_involved = [] :=
      ⟨_, _, rfl, rfl, rfl, rfl⟩
    obtain ⟨item, summary, hclassify, hok, hmatched, hnone⟩ := hrun
    have hmem := (h _ _ _ _ _ hclassify []).mpr ⟨item, List.mem_cons_self, hok, hmatched⟩
    rw [hnone] at hmem
    cases hmem

end FileDelivery.Proofs.SummaryCounts
