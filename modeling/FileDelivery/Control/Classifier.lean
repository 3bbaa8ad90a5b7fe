import FileDelivery.Control.Models
import FileDelivery.Control.Profile
import FileDelivery.Control.Runtime
import Mathlib.Data.List.Sort

namespace FileDelivery.Control

structure ClassifiedItem where
  src_path : Text
  filename : Text
  ext : Text
  file_size : Nat
  target_name_raw : Text
  target_name_matched : Option Text
  document_type : Text
  category_name : Text
  dst_dir : Text
  dst_path : Text
  target_match_method : String
  document_match_method : String
  match_score : Int
  severity : Severity
  error_code : String
  error_message : Text
  warning_message : Text
  deriving DecidableEq, Repr

def ClassifySummary.zero : ClassifySummary := ⟨0, 0, 0, 0, 0, 0, 0, [], false⟩

namespace Classifier
variable (py : Python) (profile : ProfileConfig)

/-- `filename.encode("latin-1")`. -/
def encodeLatin1 (filename : Text) : Option (List UInt8) :=
  filename.mapM (fun c => if c.toNat < 256 then some c.toNat.toUInt8 else none)

def _decode_zip_filename (info : ZipInfo) : Text :=
  if info.filename.any (fun c => 0x80 ≤ c.toNat && c.toNat ≤ 0xff) then
    ((encodeLatin1 info.filename).bind py.decodeGbk).getD info.filename
  else info.filename

def _is_path_traversal (src_path : Text) : Bool :=
  ['/'].isPrefixOf src_path || (PurePosixPath.parts src_path).any (· == ['.', '.'])

/-- `re.split` at the first delimiter that matches, from left to right; `skip` counts
the characters left of a delimiter that has matched. -/
def splitAt (delimiters : List Text) : Nat → Text → Text → List Text
  | _, segment, [] => [segment.reverse]
  | skip + 1, segment, _ :: rest => splitAt delimiters skip segment rest
  | 0, segment, c :: rest =>
    match delimiters.find? (fun d => d ≠ [] && d.isPrefixOf (c :: rest)) with
    | some d => segment.reverse :: splitAt delimiters (d.length - 1) [] rest
    | none => splitAt delimiters 0 (c :: segment) rest

/-- The segments that `_filename_segment` looks at: their last, and whether there are
two. An empty delimiter also matches at the end and leaves an empty last segment. -/
def segments (delimiters : List Text) (stem : Text) : List Text :=
  splitAt delimiters 0 [] stem ++ (if delimiters.contains [] then [[]] else [])

/-- The raw target, or the error code `unknown_target`. -/
def _filename_segment (filename : Text) : Except String Text :=
  let delimiters := profile.target_extraction.delimiters
  if delimiters = [] then .error "unknown_target"
  else
    let segs := segments delimiters (PurePosixPath.stem filename)
    let last := strip (segs.getLast?.getD [])
    if 2 ≤ segs.length ∧ last ≠ [] then .ok last else .error "unknown_target"

/-- Any strategy but `broadcast` takes the top directory, then the file name. -/
def _extract_target_raw (src_path filename : Text) : Except String Text :=
  if profile.target_extraction.strategy = "broadcast" then
    .ok (profile.target_extraction.broadcast_target.getD [])
  else
    match PurePosixPath.parts src_path with
    | top :: _ :: _ => .ok top
    | _ => _filename_segment profile filename

/-- `re.sub(r"^\d+\.\s*", "", key)`. -/
def stripNumber (key : Text) : Text :=
  match key.takeWhile py.isDecimal, key.dropWhile py.isDecimal with
  | _ :: _, '.' :: rest => rest.dropWhile isSpace
  | _, _ => key

/-- How one target matches a raw name. -/
def matchTarget (raw_lower : Text) (tc : TargetConfig) : Option String :=
  if py.lower tc.key = raw_lower then some "exact"
  else if tc.aliases.any (fun a => py.lower a == raw_lower) then some "alias"
  else if tc.strip_number_prefix && py.lower (stripNumber py tc.key) == raw_lower then
    some "strip_number_prefix"
  else none

/-- The key of the first target that matches, and how. -/
def _resolve_target (raw : Text) : Option (Text × String) :=
  profile.targets.findSome? (fun tc => (matchTarget py (py.lower raw) tc).map (tc.key, ·))

/-- The best fuzzy score so far and its document type; later ones must be better. -/
def bestFuzzy (stem : Text) (best : Rat × Text) (entry : Text × Text) : Rat × Text :=
  if py.ratio entry.1 stem > best.1 then (py.ratio entry.1 stem, entry.2) else best

/-- Document type, match method and score. -/
def _resolve_document_type (filename ext : Text) : Text × String × Int :=
  match profile.suffix_priority.get? ext with
  | some doc_type => (doc_type, "suffix_priority", 100)
  | none =>
    let stem := PurePosixPath.stem filename
    match profile.description_mapping.entries.find? (fun e => decide (e.1 <:+: stem)) with
    | some e => (e.2, "description_exact", 100)
    | none =>
      let best := profile.description_mapping.entries.foldl (bestFuzzy py stem) (0, [])
      if profile.matching_config.enable_fuzzy_match ∧ profile.description_mapping.entries ≠ [] ∧
          best.1 ≥ profile.matching_config.description_fuzzy_threshold then
        (best.2, "description_fuzzy", best.1.floor)
      else
        match profile.suffix_fallback.get? ext with
        | some doc_type => (doc_type, "suffix_fallback", 0)
        | none => ([], "unmatched", 0)

/-- `str.format` over a template. The state is `none` in literal text, else the number
of open nested braces and the field read so far, reversed. -/
def format (field : Text → Option Text) : Option (Nat × Text) → Text → Option Text
  | none, [] => some []
  | some _, [] => none
  | none, '{' :: '{' :: rest => (format field none rest).map ('{' :: ·)
  | none, '}' :: '}' :: rest => (format field none rest).map ('}' :: ·)
  | none, '{' :: rest => format field (some (0, [])) rest
  | none, '}' :: _ => none
  | none, c :: rest => (format field none rest).map (c :: ·)
  | some (depth, seen), '{' :: rest => format field (some (depth + 1, '{' :: seen)) rest
  | some (0, seen), '}' :: rest =>
    (field seen.reverse).bind (fun v => (format field none rest).map (v ++ ·))
  | some (depth + 1, seen), '}' :: rest => format field (some (depth, '}' :: seen)) rest
  | some (depth, seen), c :: rest => format field (some (depth, c :: seen)) rest

def renderField (category document_type filename : Text) (field : Text) : Option Text :=
  if field = "category".toList then some category
  else if field = "document_type".toList then some document_type
  else if field = "filename".toList then some filename
  else py.formatField field category document_type filename

/-- `none` where `format` raises; else the path, or the error code `path_render_error`. -/
def _render_path (category document_type filename : Text) : Option (Except String Text) :=
  (format (renderField py category document_type filename) none profile.path_template).map
    (fun rendered => if (PurePosixPath.parts rendered).any (· == ['.', '.'])
      then .error "path_render_error" else .ok rendered)

/-- An item without a destination. -/
def errorItem (info : ZipInfo) (src_path filename ext raw : Text) (matched : Option Text)
    (error_code : String) (error_message : Text) : ClassifiedItem where
  src_path := src_path
  filename := filename
  ext := ext
  file_size := info.file_size
  target_name_raw := raw
  target_name_matched := matched
  document_type := []
  category_name := []
  dst_dir := []
  dst_path := []
  target_match_method := ""
  document_match_method := ""
  match_score := 0
  severity := .error
  error_code := error_code
  error_message := error_message
  warning_message := []

/-- What becomes of one entry that is not a directory. -/
inductive Outcome where
  | ignored
  | item (item : ClassifiedItem)

/-- The target that an entry resolves to, and how. -/
def target (raw_target : Text) : Option (Text × String) :=
  if profile.target_extraction.strategy = "broadcast" then
    if raw_target = [] then none else some (raw_target, "broadcast")
  else _resolve_target py profile raw_target

/-- The item of an entry whose target is known. -/
def destination (info : ZipInfo) (src_path filename ext raw : Text) (matched : Text)
    (method : String) : Option ClassifiedItem :=
  let (doc_type, doc_match_method, match_score) :=
    _resolve_document_type py profile filename ext
  let category_name := if doc_type = [] then []
    else ((profile.document_types.get? doc_type).map (·.category)).getD []
  let rendered := if doc_type ≠ [] ∧ category_name ≠ []
    then _render_path py profile category_name doc_type filename else some (.ok [])
  rendered.map (fun
    | .error code =>
      { errorItem info src_path filename ext raw (some matched) code "Rendered path contains '..'" with
        document_type := doc_type
        category_name := category_name
        target_match_method := method }
    | .ok dst_path =>
      let dst_dir := if dst_path = [] then [] else PurePosixPath.parent dst_path
      { errorItem info src_path filename ext raw (some matched) "" [] with
        document_type := doc_type
        category_name := category_name
        dst_dir := if dst_dir = ['.'] then [] else dst_dir
        dst_path := dst_path
        target_match_method := method
        document_match_method := doc_match_method
        match_score := match_score
        severity := if doc_type = [] then .warning else .ok })

/-- One turn of the loop of `classify_zip`; `none` where it raises. -/
def classify_entry (info : ZipInfo) (src_path : Text) : Option Outcome :=
  let filename := PurePosixPath.name src_path
  let ext := py.lower (PurePosixPath.suffix filename)
  if _is_path_traversal src_path then
    some (.item (errorItem info src_path filename ext [] none "path_traversal"
      ("Path traversal detected: ".toList ++ src_path)))
  else if profile.entry_filters.ignored_filenames.contains filename then some .ignored
  else if profile.entry_filters.ignored_prefixes.any (·.isPrefixOf src_path) then some .ignored
  else match _extract_target_raw profile src_path filename with
    | .error code => some (.item (errorItem info src_path filename ext [] none code
        "Could not determine target from filename"))
    | .ok raw =>
      match target py profile raw with
      | none => some (.item (errorItem info src_path filename ext raw none "unknown_target"
          ("Target '".toList ++ raw ++ "' did not match any known target".toList)))
      | some (matched, method) =>
        (destination py profile info src_path filename ext raw matched method).map .item

/-- The counters after one entry. -/
def count (summary : ClassifySummary) : Outcome → ClassifySummary
  | .ignored => { summary with total := summary.total + 1, ignored := summary.ignored + 1 }
  | .item item =>
    let summary := { summary with total := summary.total + 1 }
    match item.severity with
    | .ok => { summary with
        ok := summary.ok + 1,
        targets_involved := ((item.target_name_matched.filter (· ≠ [])).map
          summary.targets_involved.insert).getD summary.targets_involved }
    | .warning => { summary with
        warning := summary.warning + 1,
        unmatched_document_types := summary.unmatched_document_types + 1 }
    | _ => { summary with
        error := summary.error + 1,
        unmatched_targets := summary.unmatched_targets +
          (if item.error_code = "unknown_target" then 1 else 0) }

/-- The order of strings, by code points. -/
def textOrder (a b : Text) : Prop := ¬b < a

instance : DecidableRel textOrder := fun _ _ => inferInstanceAs (Decidable (¬_))

/-- The loop over the entries. -/
def classify_entries : Archive → List ClassifiedItem → ClassifySummary →
    Option (List ClassifiedItem × ClassifySummary)
  | [], items, summary => some (items, summary)
  | info :: rest, items, summary =>
    let src_path := _decode_zip_filename py info
    if ['/'].isSuffixOf src_path then classify_entries rest items summary
    else (classify_entry py profile info src_path).bind (fun
      | .ignored => classify_entries rest items (count summary .ignored)
      | .item item => classify_entries rest (items ++ [item]) (count summary (.item item)))

/-- `none` where the call raises. The set of targets comes out sorted, as `to_dict`
lists it. -/
def classify_zip (archive : Archive) : Option (List ClassifiedItem × ClassifySummary) :=
  (classify_entries py profile archive [] .zero).map (fun (items, summary) =>
    (items, { summary with
      targets_involved := summary.targets_involved.insertionSort textOrder
      has_blocking_errors := 0 < summary.error }))

end Classifier
end FileDelivery.Control
