import FileDelivery.Bridge.Replay
import FileDelivery.Proofs.ItemNames

namespace FileDelivery.Proofs.Destinations
open FileDelivery.Library FileDelivery.Library.Lexical FileDelivery.Control
open FileDelivery.Control.Classifier FileDelivery.Proofs.ArchivePaths FileDelivery.Proofs.ItemNames

/-- A name that stays where it is put. -/
def PlainSegment (s : Text) : Prop := s ≠ [] ∧ s ≠ ['.'] ∧ s ≠ ['.', '.']

def PlainPath (path : Text) : Prop := ∀ s ∈ path.splitOn '/', PlainSegment s

instance : DecidablePred PlainPath := fun path =>
  inferInstanceAs (Decidable (∀ s ∈ path.splitOn '/', s ≠ [] ∧ s ≠ ['.'] ∧ s ≠ ['.', '.']))

/-- A path that an object can be stored under, and what the item says about it. -/
structure Usable (item : ClassifiedItem) : Prop where
  nonempty : item.dst_path ≠ []
  relative : ['/'].isPrefixOf item.dst_path = false
  plain : PlainPath item.dst_path
  filename : (item.dst_path.splitOn '/').getLast? = some item.filename
  dir : item.dst_dir = ['/'].intercalate (item.dst_path.splitOn '/').dropLast

/-- A path that leads into the archive's own tree. -/
structure SafeSource (item : ClassifiedItem) : Prop where
  relative : ['/'].isPrefixOf item.src_path = false
  inside : ['.', '.'] ∉ item.src_path.splitOn '/'

/-- The classifier's items that an upload takes. -/
def Deliverable (item : ClassifiedItem) : Prop := item.severity = .ok ∨ item.severity = .warning

theorem plain_nonempty (h : PlainPath path) : path ≠ [] := by
  intro heq
  subst heq
  exact (h [] (by simp [List.splitOn_nil])).1 rfl

theorem plain_relative (h : PlainPath path) : ['/'].isPrefixOf path = false := by
  cases path with
  | nil => rfl
  | cons c rest =>
    by_contra hc
    have hslash : '/' = c := by simpa [List.isPrefixOf] using hc
    subst hslash
    exact (h [] (by simp [List.splitOn_cons_eq_if_modifyHead])).1 rfl

theorem plain_tail (h : PlainPath path) : PurePosixPath.tail path = path.splitOn '/' := by
  refine List.filter_eq_self.mpr ?_
  intro s hs
  simp [(h s hs).1, (h s hs).2.1]

theorem relative_root (h : ['/'].isPrefixOf path = false) : PurePosixPath.root path = [] := by
  cases path with
  | nil => rfl
  | cons c rest =>
    have hc : c ≠ '/' := by
      intro heq
      subst heq
      simp [List.isPrefixOf] at h
    unfold PurePosixPath.root
    split <;> simp_all

/-- A profile that puts each file under its own name into a directory. Whatever the directory part of
the template is made of, the names of each document type make a plain path of it. -/
structure PlainProfile (py : Python) (profile : ProfileConfig) : Prop where
  template : profile.path_template = "\x7bfilename\x7d" ∨
    ∃ dir, profile.path_template = dir ++ '/' :: "\x7bfilename\x7d".toList ∧
      ∀ e ∈ profile.document_types.entries, ∀ filename, PlainSegment filename → '/' ∉ filename →
        ∃ path, format (renderField py e.2.category e.1 filename) none dir = some path ∧ PlainPath path

/-- A template that is filled in goes on with what follows it. -/
theorem format_append {field : Text → Option Text} {state : Option (Nat × Text)} {template value : Text}
    (h : format field state template = some value) (rest : Text) :
    format field state (template ++ rest) = (format field none rest).map (value ++ ·) := by
  fun_induction format field state template generalizing value with
  | case1 =>
    cases h
    simp
  | case2 | case6 => cases h
  | case3 template ih | case4 template ih =>
    obtain ⟨v, hv, rfl⟩ := Option.map_eq_some_iff.mp h
    rw [List.cons_append, List.cons_append, format, ih hv, Option.map_map]
    rfl
  | case5 template hnext ih =>
    -- A field that is read to its end does not begin with another brace.
    cases template with
    | nil => simp [format] at h
    | cons c template =>
      have hc : c ≠ '{' := fun he => hnext template (by rw [he])
      rw [List.cons_append, List.cons_append, format, ← List.cons_append, ih h]
      simp [hc]
  | case7 c template _ _ hopen hclose ih =>
    obtain ⟨v, hv, rfl⟩ := Option.map_eq_some_iff.mp h
    rw [List.cons_append, format, ih hv, Option.map_map]
    · rfl
    all_goals simp_all
  | case8 depth seen template ih | case10 depth seen template ih =>
    rw [List.cons_append, format, ih h]
  | case9 seen template ih =>
    obtain ⟨v, hv, h⟩ := Option.bind_eq_some_iff.mp h
    obtain ⟨w, hw, rfl⟩ := Option.map_eq_some_iff.mp h
    rw [List.cons_append, format, hv, Option.bind_some, ih hw, Option.map_map]
    exact congrArg (fun f => Option.map f _) (funext (fun _ => by simp))
  | case11 depth seen c template hopen hclose hnested ih =>
    rw [List.cons_append, format, ih h]
    all_goals simp_all

theorem format_slash (field : Text → Option Text) (rest : Text) :
    format field none ('/' :: rest) = (format field none rest).map ('/' :: ·) := by
  rw [format]
  all_goals simp

theorem format_filename (py : Python) (category document_type filename : Text) :
    format (renderField py category document_type filename) none "\x7bfilename\x7d".toList =
      some filename := by
  simp [format, renderField]

variable {py : Python} {category document_type filename : Text}

/-- What a plain template comes to is plain, and ends in the file's name. -/
theorem joined_plain {dirs : List Text} (hd : ∀ d ∈ dirs, PlainPath d) (hf : PlainSegment filename)
    (hs : '/' ∉ filename) :
    PlainPath (['/'].intercalate (dirs ++ [filename])) ∧
      ((['/'].intercalate (dirs ++ [filename])).splitOn '/').getLast? = some filename := by
  have hsplit : (['/'].intercalate (dirs ++ [filename])).splitOn '/' =
      dirs.flatMap (·.splitOn '/') ++ [filename] := by
    rw [splitOn_joined_flat (by simp), List.flatMap_append]
    simp [List.splitOn_eq_singleton hs]
  refine ⟨?_, by rw [hsplit]; simp⟩
  intro s hm
  rw [hsplit] at hm
  rcases List.mem_append.mp hm with hm | hm
  · obtain ⟨d, hdm, hsd⟩ := List.mem_flatMap.mp hm
    exact hd d hdm s hsd
  · exact List.mem_singleton.mp hm ▸ hf

/-- The directory that the classifier records for a path. -/
def dirOf (path : Text) : Text :=
  let dst_dir := if path = [] then [] else PurePosixPath.parent path
  if dst_dir = ['.'] then [] else dst_dir

theorem dirOf_plain (h : PlainPath path) :
    dirOf path = ['/'].intercalate (path.splitOn '/').dropLast := by
  have hroot := relative_root (plain_relative h)
  have hsegments : Segmented '/' (path.splitOn '/').dropLast :=
    fun s hs => ⟨(h s (List.dropLast_subset _ hs)).1, not_mem_splitOn (List.dropLast_subset _ hs)⟩
  simp only [dirOf, if_neg (plain_nonempty h), PurePosixPath.parent, hroot, plain_tail h,
    List.nil_append, true_and]
  by_cases habove : (path.splitOn '/').dropLast = []
  · simp [habove, List.intercalate]
  · -- A directory part `.` would be a segment of the path.
    have hdot : ['/'].intercalate (path.splitOn '/').dropLast ≠ ['.'] := by
      intro he
      have hsplit := splitOn_joined hsegments habove
      rw [he] at hsplit
      have hmem : ['.'] ∈ (path.splitOn '/').dropLast := by
        rw [← hsplit]
        decide
      exact (h _ (List.dropLast_subset _ hmem)).2.1 rfl
    simp [habove, hdot]

/-- The document type of the item has a category. -/
def Typed (profile : ProfileConfig) (item : ClassifiedItem) : Prop :=
  item.document_type ≠ [] ∧
    ∃ config, profile.document_types.get? item.document_type = some config ∧ config.category ≠ []

/-- What the classifier writes into a deliverable item about its destination. -/
structure Placed (py : Python) (profile : ProfileConfig) (item : ClassifiedItem) : Prop where
  warning : item.severity = .warning ↔ item.document_type = []
  dir : item.dst_dir = dirOf item.dst_path
  rendered : ∀ config, profile.document_types.get? item.document_type = some config →
    item.document_type ≠ [] → config.category ≠ [] →
    _render_path py profile config.category item.document_type item.filename = some (.ok item.dst_path)
  untyped : ¬Typed profile item → item.dst_path = []

theorem destination_placed
    (h : destination py profile info src_path filename ext raw m method = some item)
    (hd : Deliverable item) : item.filename = filename ∧ Placed py profile item := by
  unfold destination at h
  generalize _resolve_document_type py profile filename ext = resolved at h
  obtain ⟨doc_type, doc_match_method, match_score⟩ := resolved
  obtain ⟨rendered, hrendered, rfl⟩ := Option.map_eq_some_iff.mp h
  cases rendered with
  | error code => rcases hd with hd | hd <;> cases hd
  | ok dst_path =>
    refine ⟨rfl, ?_, rfl, ?_, ?_⟩
    · show (if doc_type = [] then Severity.warning else .ok) = .warning ↔ doc_type = []
      split <;> simp_all
    · intro config hconfig htyped hcategory
      have htyped : doc_type ≠ [] := htyped
      have hconfig : profile.document_types.get? doc_type = some config := hconfig
      show _render_path py profile config.category doc_type filename = some (.ok dst_path)
      simpa [htyped, hconfig, hcategory] using hrendered
    · intro huntyped
      have hskip : ¬(doc_type ≠ [] ∧ (if doc_type = [] then [] else
          ((profile.document_types.get? doc_type).map (·.category)).getD []) ≠ []) := by
        intro h
        obtain ⟨htyped, hcategory⟩ := h
        rw [if_neg htyped] at hcategory
        cases hget : profile.document_types.get? doc_type with
        | none => exact hcategory (by rw [hget]; rfl)
        | some config => exact huntyped ⟨htyped, config, hget, by simpa [hget] using hcategory⟩
      rw [if_neg hskip] at hrendered
      cases hrendered
      rfl

/-- A deliverable item comes from an entry that passed the check on its path. -/
theorem classify_entry_placed (h : classify_entry py profile info src_path = some (.item item))
    (hd : Deliverable item) :
    item.src_path = src_path ∧ _is_path_traversal src_path = false ∧
      item.filename = PurePosixPath.name src_path ∧ Placed py profile item := by
  cases entry_exit h with
  | traversal | unnamed | unknown => rcases hd with hd | hd <;> cases hd
  | placed htraversal _ _ hplaced =>
    obtain ⟨hname, hp⟩ := destination_placed hplaced hd
    exact ⟨destination_path hplaced, htraversal, hname, hp⟩

theorem classify_entries_mem {archive : Archive} {items : List ClassifiedItem}
    (h : classify_entries py profile archive items summary = some (items', summary'))
    (hi : item ∈ items') :
    item ∈ items ∨ ∃ info src_path, classify_entry py profile info src_path = some (.item item) := by
  induction archive generalizing items summary with
  | nil =>
    cases h
    exact .inl hi
  | cons info rest ih =>
    simp only [classify_entries] at h
    split at h
    · exact ih h
    · obtain ⟨outcome, ho, h⟩ := Option.bind_eq_some_iff.mp h
      cases outcome with
      | ignored => exact ih h
      | item last =>
        rcases ih h with hi | hi
        · rcases List.mem_append.mp hi with hi | hi
          · exact .inl hi
          · obtain rfl := List.mem_singleton.mp hi
            exact .inr ⟨info, _, ho⟩
        · exact .inr hi

theorem classified_mem (h : classify_zip py profile archive = some (items, summary))
    (hi : item ∈ items) :
    ∃ info src_path, classify_entry py profile info src_path = some (.item item) := by
  obtain ⟨⟨all, counted⟩, hentries, he⟩ := Option.map_eq_some_iff.mp h
  cases he
  rcases classify_entries_mem hentries hi with hm | hm
  · cases hm
  · exact hm

theorem safe_relative (h : _is_path_traversal path = false) : ['/'].isPrefixOf path = false := by
  simp only [_is_path_traversal, Bool.or_eq_false_iff] at h
  exact h.1

theorem parts_no_dots (h : (PurePosixPath.parts path).any (· == ['.', '.']) = false) :
    ['.', '.'] ∉ path.splitOn '/' := by
  apply tail_no_dots
  intro hm
  have hparts : ['.', '.'] ∈ PurePosixPath.parts path := by
    unfold PurePosixPath.parts
    split
    · exact hm
    · exact List.mem_cons_of_mem _ hm
  simp only [List.any_eq_false, beq_iff_eq] at h
  exact h _ hparts rfl

theorem safe_inside (h : _is_path_traversal path = false) : ['.', '.'] ∉ path.splitOn '/' := by
  simp only [_is_path_traversal, Bool.or_eq_false_iff] at h
  exact parts_no_dots h.2

/-- What is rendered has no `..` among its segments. -/
theorem rendered_inside
    (h : _render_path py profile category document_type filename = some (.ok path)) :
    ['.', '.'] ∉ path.splitOn '/' := by
  obtain ⟨rendered, _, h⟩ := Option.map_eq_some_iff.mp h
  split at h
  · cases h
  · rename_i hdots
    cases h
    exact parts_no_dots (Bool.eq_false_iff.mpr hdots)

theorem name_plain (h : _is_path_traversal path = false) (hne : PurePosixPath.name path ≠ []) :
    PlainSegment (PurePosixPath.name path) ∧ '/' ∉ PurePosixPath.name path := by
  have hlast : PurePosixPath.name path ∈ PurePosixPath.tail path := by
    unfold PurePosixPath.name at hne ⊢
    cases hl : (PurePosixPath.tail path).getLast? with
    | none => exact absurd (by simp [hl]) hne
    | some last => exact List.mem_of_getLast? hl
  obtain ⟨hsplit, hdot⟩ := List.mem_filter.mp hlast
  have hdot : PurePosixPath.name path ≠ ['.'] := by simpa [hne] using hdot
  refine ⟨⟨hne, hdot, ?_⟩, not_mem_splitOn hsplit⟩
  intro he
  exact safe_inside h (he ▸ hsplit)

/-- A plain profile gives every typed item with a name a usable destination. -/
theorem placed_usable (hplain : PlainProfile py profile) (h : Placed py profile item)
    (ht : Typed profile item) (hf : PlainSegment item.filename) (hs : '/' ∉ item.filename) :
    Usable item := by
  obtain ⟨htyped, config, hget, hcategory⟩ := ht
  have hrender := h.rendered config hget htyped hcategory
  obtain ⟨before, after, hentries, _⟩ := List.lookup_eq_some_iff.mp hget
  have hmem : (item.document_type, config) ∈ profile.document_types.entries := by simp [hentries]
  -- The file's name comes last, below whatever directory the template makes.
  have hformat : ∃ dirs : List Text, (∀ d ∈ dirs, PlainPath d) ∧
      format (renderField py config.category item.document_type item.filename) none profile.path_template =
        some (['/'].intercalate (dirs ++ [item.filename])) := by
    rcases hplain.template with htemplate | ⟨dir, htemplate, hdir⟩
    · refine ⟨[], by simp, ?_⟩
      rw [htemplate]
      exact (format_filename py _ _ _).trans (by simp [List.intercalate])
    · obtain ⟨path, hpath, hplainpath⟩ := hdir _ hmem item.filename hf hs
      refine ⟨[path], by simpa using hplainpath, ?_⟩
      rw [htemplate, format_append hpath, format_slash, format_filename]
      simp [List.intercalate]
  obtain ⟨dirs, hdirs, hformat⟩ := hformat
  obtain ⟨hpath, hlast⟩ := joined_plain hdirs hf hs
  have hdst : item.dst_path = ['/'].intercalate (dirs ++ [item.filename]) := by
    obtain ⟨rendered, hrendered, hrender⟩ := Option.map_eq_some_iff.mp hrender
    rw [hformat] at hrendered
    cases hrendered
    split at hrender
    · cases hrender
    · exact (Except.ok.inj hrender).symm
  rw [← hdst] at hpath hlast
  exact ⟨plain_nonempty hpath, plain_relative hpath, hpath, hlast, by rw [h.dir, dirOf_plain hpath]⟩

/-- Every deliverable item comes from a path inside the archive and goes to none or to one
without `..`; a plain profile makes that path usable where the document type has a category. -/
theorem deliverable_destinations (py : Python) (profile : ProfileConfig) (archive : Archive)
    (items : List ClassifiedItem) (summary : ClassifySummary)
    (h : classify_zip py profile archive = some (items, summary)) :
    ∀ item ∈ items, Deliverable item →
      SafeSource item ∧ (item.severity = .warning ↔ item.document_type = []) ∧
      (¬Typed profile item → item.dst_path = []) ∧ ['.', '.'] ∉ item.dst_path.splitOn '/' ∧
      item.dst_dir = dirOf item.dst_path ∧
      (PlainProfile py profile → Typed profile item → item.filename ≠ [] → Usable item) := by
  intro item hi hd
  obtain ⟨info, src_path, hentry⟩ := classified_mem h hi
  obtain ⟨rfl, htraversal, hname, hplaced⟩ := classify_entry_placed hentry hd
  refine ⟨⟨safe_relative htraversal, safe_inside htraversal⟩, hplaced.warning, hplaced.untyped,
    ?_, hplaced.dir, ?_⟩
  · by_cases ht : Typed profile item
    · obtain ⟨htyped, config, hget, hcategory⟩ := ht
      exact rendered_inside (hplaced.rendered config hget htyped hcategory)
    · rw [hplaced.untyped ht, List.splitOn_nil]
      decide
  · intro hplain ht hne
    rw [hname] at hne
    obtain ⟨hsegment, hslash⟩ := name_plain htraversal hne
    exact placed_usable hplain hplaced ht (hname ▸ hsegment) (hname ▸ hslash)

/-- The profile of the sample delivers one type of document. -/
theorem sample_plain : PlainProfile Bridge.Sample.py Bridge.Sample.profile := by
  refine ⟨.inr ⟨"\x7bcategory\x7d/\x7bdocument_type\x7d", by decide, ?_⟩⟩
  intro e he filename _ _
  obtain rfl := List.mem_singleton.mp he
  exact ⟨"finance/report", by simp [format, renderField], by decide⟩

/-- A report is stored under its category, its type and its own name. -/
theorem report_usable :
    ∃ item summary,
      classify_zip Bridge.Sample.py Bridge.Sample.profile [⟨"acme/q1.txt", []⟩] = some ([item], summary) ∧
        item.dst_path = "finance/report/q1.txt".toList ∧ Usable item := by
  have hrun : ∃ item summary,
      classify_zip Bridge.Sample.py Bridge.Sample.profile [⟨"acme/q1.txt", []⟩] = some ([item], summary) ∧
        item.severity = .ok ∧ item.document_type = "report".toList ∧
        item.filename = "q1.txt".toList ∧ item.dst_path = "finance/report/q1.txt".toList :=
    ⟨_, _, rfl, by decide, by decide, by decide, by decide⟩
  obtain ⟨item, summary, hclassify, hok, htype, hname, hpath⟩ := hrun
  have htyped : Typed Bridge.Sample.profile item :=
    ⟨by simp [htype], ⟨"finance"⟩, by rw [htype]; rfl, by decide⟩
  have husable := (deliverable_destinations _ _ _ _ _ hclassify item List.mem_cons_self (.inl hok)).2.2.2.2.2
  exact ⟨item, summary, hclassify, hpath, husable sample_plain htyped (by simp [hname])⟩

/-- A file of no document type is a warning without a destination. -/
theorem warning_without_destination :
    ¬∀ (py : Python) (profile : ProfileConfig) (archive : Archive) (items : List ClassifiedItem)
      (summary : ClassifySummary), classify_zip py profile archive = some (items, summary) →
      ∀ item ∈ items, Deliverable item → Usable item ∧ SafeSource item := by
  intro h
  have hrun : ∃ item summary,
      classify_zip Bridge.Sample.py Bridge.Sample.profile [⟨"acme/q1.bin", []⟩] = some ([item], summary) ∧
        item.severity = .warning ∧ item.dst_path = [] :=
    ⟨_, _, rfl, rfl, rfl⟩
  obtain ⟨item, summary, hclassify, hwarning, hempty⟩ := hrun
  exact (h _ _ _ _ _ hclassify item List.mem_cons_self (.inr hwarning)).1.nonempty hempty

end FileDelivery.Proofs.Destinations
