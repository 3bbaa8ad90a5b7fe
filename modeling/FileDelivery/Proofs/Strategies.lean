import FileDelivery.Proofs.Destinations
import FileDelivery.Proofs.SummaryCounts

namespace FileDelivery.Proofs.Strategies
open FileDelivery.Library FileDelivery.Control FileDelivery.Control.Classifier
open FileDelivery.Proofs.Destinations FileDelivery.Proofs.ItemNames FileDelivery.Proofs.SummaryCounts

/-- The paths of the entries that are not directories. -/
def paths (py : Python) (archive : Archive) : List Text :=
  (files py archive).map (_decode_zip_filename py)

/-- The raw target of a path, or the error code. -/
def extracted (profile : ProfileConfig) (path : Text) : Except String Text :=
  _extract_target_raw profile path (PurePosixPath.name path)

/-- The key of the target that a raw target resolves to. -/
def matched (py : Python) (profile : ProfileConfig) (raw : Except String Text) : Option Text :=
  raw.toOption.bind (fun raw => (target py profile raw).map Prod.fst)

/-- The target depends on what the strategy names. -/
structure Follows (py : Python) (profile : ProfileConfig) (entries : List Text) : Prop where
  filename_segment : profile.target_extraction.strategy = "filename_segment" →
    ∀ p ∈ entries, ∀ q ∈ entries, PurePosixPath.name p = PurePosixPath.name q →
      extracted profile p = extracted profile q ∧
      extracted profile p = _filename_segment profile (PurePosixPath.name p)
  broadcast : profile.target_extraction.strategy = "broadcast" →
    ∀ p ∈ entries, ∀ q ∈ entries,
      matched py profile (extracted profile p) = matched py profile (extracted profile q)
  directory_or_filename : profile.target_extraction.strategy = "directory_or_filename" →
    ∀ p ∈ entries, ∀ top next below, PurePosixPath.parts p = top :: next :: below →
      extracted profile p = .ok top

/-- The top-level directory of a path, if it has one, is what its file name says too. -/
def NamedByFile (profile : ProfileConfig) (path : Text) : Prop :=
  ∀ top next below, PurePosixPath.parts path = top :: next :: below →
    _filename_segment profile (PurePosixPath.name path) = .ok top

variable {py : Python} {profile : ProfileConfig}

theorem extracted_broadcast (h : profile.target_extraction.strategy = "broadcast") (path : Text) :
    extracted profile path = .ok (profile.target_extraction.broadcast_target.getD []) := by
  unfold extracted _extract_target_raw
  rw [if_pos h]

/-- Every other strategy looks at the top-level directory first. -/
theorem extracted_nested (h : profile.target_extraction.strategy ≠ "broadcast")
    (hp : PurePosixPath.parts path = top :: next :: below) : extracted profile path = .ok top := by
  unfold extracted _extract_target_raw
  rw [if_neg h, hp]

theorem extracted_by_file_iff (h : profile.target_extraction.strategy ≠ "broadcast") :
    extracted profile path = _filename_segment profile (PurePosixPath.name path) ↔
      NamedByFile profile path := by
  constructor
  · intro he top next below hp
    rw [← he]
    exact extracted_nested h hp
  · intro hn
    match hp : PurePosixPath.parts path with
    | top :: next :: below =>
      rw [extracted_nested h hp, hn top next below hp]
    | [] | [_] =>
      unfold extracted _extract_target_raw
      rw [if_neg h, hp]

/-- Under `broadcast` the items of an archive have one target, if their paths are safe. -/
theorem broadcast_item (h : profile.target_extraction.strategy = "broadcast")
    (hi : EntryExit py profile info path item) (hsafe : item.error_code ≠ "path_traversal") :
    item.target_name_matched =
      matched py profile (.ok (profile.target_extraction.broadcast_target.getD [])) := by
  have hb := extracted_broadcast h path
  unfold extracted at hb
  cases hi with
  | traversal => exact absurd rfl hsafe
  | unnamed _ hraw =>
    rw [hb] at hraw
    cases hraw
  | unknown _ hraw htarget =>
    rw [hb] at hraw
    cases hraw
    simp [matched, Except.toOption, htarget, errorItem]
  | placed _ hraw htarget hplaced =>
    rw [hb] at hraw
    cases hraw
    rw [destination_matched hplaced]
    simp [matched, Except.toOption, htarget]

/-- Items come from entries of the archive. -/
theorem item_exit (h : classify_zip py profile archive = some (items, summary)) (hi : item ∈ items) :
    ∃ info src_path, EntryExit py profile info src_path item := by
  obtain ⟨info, src_path, hentry⟩ := classified_mem h hi
  exact ⟨info, src_path, entry_exit hentry⟩

/-- The entries of an archive follow the strategy of the profile just where, under
`filename_segment`, no top-level directory differs from what the file name says. -/
theorem strategy_followed_iff (py : Python) (profile : ProfileConfig) (archive : Archive) :
    (Follows py profile (paths py archive) ↔
      (profile.target_extraction.strategy = "filename_segment" →
        ∀ p ∈ paths py archive, NamedByFile profile p)) ∧
    (profile.target_extraction.strategy = "broadcast" →
      ∀ items summary, classify_zip py profile archive = some (items, summary) →
        ∀ i ∈ items, ∀ j ∈ items, i.error_code ≠ "path_traversal" →
          j.error_code ≠ "path_traversal" → i.target_name_matched = j.target_name_matched) := by
  constructor
  · constructor
    · intro h hs p hp
      have hne : profile.target_extraction.strategy ≠ "broadcast" := by simp [hs]
      exact (extracted_by_file_iff hne).mp (h.filename_segment hs p hp p hp rfl).2
    · intro h
      refine ⟨?_, ?_, ?_⟩
      · intro hs p hp q hq hname
        have hne : profile.target_extraction.strategy ≠ "broadcast" := by simp [hs]
        have hpfile := (extracted_by_file_iff hne).mpr (h hs p hp)
        have hqfile := (extracted_by_file_iff hne).mpr (h hs q hq)
        exact ⟨by rw [hpfile, hqfile, hname], hpfile⟩
      · intro hs p _ q _
        rw [extracted_broadcast hs, extracted_broadcast hs]
      · intro hs p _ top next below hparts
        exact extracted_nested (by simp [hs]) hparts
  · intro hs items summary hzip i hi j hj hisafe hjsafe
    obtain ⟨_, _, hiexit⟩ := item_exit hzip hi
    obtain ⟨_, _, hjexit⟩ := item_exit hzip hj
    rw [broadcast_item hs hiexit hisafe, broadcast_item hs hjexit hjsafe]

/-- A profile that takes targets from file names. -/
def byFilename : ProfileConfig :=
  { Bridge.Sample.profile with target_extraction := ⟨"filename_segment", ["-"], none⟩ }

/-- One file name in two places: the directory decides about the second. -/
theorem directory_overrides_filename :
    ¬∀ (py : Python) (profile : ProfileConfig) (archive : Archive),
      Follows py profile (paths py archive) := by
  intro h
  have hf := (h Bridge.Sample.py byFilename
    [⟨"q1-acme.txt", []⟩, ⟨"beta/q1-acme.txt", []⟩]).filename_segment rfl
  have hpaths : paths Bridge.Sample.py [⟨"q1-acme.txt", []⟩, ⟨"beta/q1-acme.txt", []⟩] =
      ["q1-acme.txt".toList, "beta/q1-acme.txt".toList] := by rfl
  rw [hpaths] at hf
  have hsame := (hf "q1-acme.txt".toList (by simp) "beta/q1-acme.txt".toList (by simp) (by rfl)).1
  have hroot : extracted byFilename "q1-acme.txt" = .ok "acme".toList := by rfl
  have hnested : extracted byFilename "beta/q1-acme.txt" = .ok "beta".toList := by rfl
  rw [hroot, hnested] at hsame
  exact absurd (Except.ok.inj hsame) (by decide)

end FileDelivery.Proofs.Strategies
