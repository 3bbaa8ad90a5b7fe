import FileDelivery.Control.OsPath
import FileDelivery.Control.Staging
import Mathlib.Data.List.TakeWhile

namespace FileDelivery.Proofs.ArchivePaths
open FileDelivery.Library.Lexical FileDelivery.Control FileDelivery.Control.OsPath
open FileDelivery.Control.FolderUpload

@[simp] theorem slash_prefix (c : Char) (path : Text) :
    ['/'].isPrefixOf (c :: path) = ('/' == c) := by
  simp [List.isPrefixOf]

/-- Where extraction puts the entry of a name, below the task's directory. -/
def extractedPath (filename : Text) : Option (List Text) :=
  if ['/'].isSuffixOf filename then none
  else (_safe_archive_name filename).bind (fun archive_name =>
    if PurePosixPath.tail archive_name = [] then none else some (PurePosixPath.tail archive_name))

theorem extractEntry_path (archive : Archive) (entry : ZipInfo) :
    extractEntry archive entry =
      (extractedPath entry.filename).map (·, readEntry archive entry.filename) := by
  unfold extractEntry extractedPath
  split
  · rfl
  · cases _safe_archive_name entry.filename with
    | none => rfl
    | some archive_name =>
      simp only [Option.bind_some]
      split <;> rfl

theorem nameParts_segmented (raw_name : Text) : Segmented '/' (nameParts raw_name) :=
  segmented_splitOn _

theorem safe_name_spec (h : _safe_archive_name raw_name = some archive_name) :
    archive_name = ['/'].intercalate (nameParts raw_name) ∧ nameParts raw_name ≠ [] ∧
      ['.', '.'] ∉ nameParts raw_name ∧
      (nameParts raw_name).head? ≠ some INTERNAL_ARCHIVE_DIR := by
  simp only [_safe_archive_name] at h
  split at h
  · cases h
  · rename_i hparts
    obtain ⟨hne, hdots⟩ := not_or.mp hparts
    split at h
    · cases h
    · rename_i hhead
      exact ⟨(Option.some.inj h).symm, hne, hdots, hhead⟩

/-- The components of an accepted name are its segments but for the dots. -/
theorem safe_name_tail (h : _safe_archive_name raw_name = some archive_name) :
    PurePosixPath.tail archive_name = (nameParts raw_name).filter (· ≠ ['.']) := by
  obtain ⟨rfl, hne, _, _⟩ := safe_name_spec h
  rw [PurePosixPath.tail, splitOn_joined (nameParts_segmented _) hne]
  apply List.filter_congr
  intro part hp
  simp [(nameParts_segmented _ part hp).1]

theorem safe_name_relative (h : _safe_archive_name raw_name = some archive_name) :
    ['/'].isPrefixOf archive_name = false := by
  obtain ⟨rfl, hne, _, _⟩ := safe_name_spec h
  have hseg := nameParts_segmented raw_name
  cases hp : nameParts raw_name with
  | nil => exact absurd hp hne
  | cons part parts =>
    obtain ⟨hpart, hsep⟩ := hseg part (hp ▸ List.mem_cons_self)
    obtain ⟨c, rest, rfl⟩ := List.exists_cons_of_ne_nil hpart
    have hc : '/' ≠ c := fun he => hsep (he ▸ List.mem_cons_self)
    cases parts with
    | nil => simp [List.intercalate, hc]
    | cons q parts => simp [List.intercalate, hc]

/-- Without `..` the loop of `normpath` only drops what says nothing. -/
theorem push_clean (rooted : Bool) (before : List Text) {parts : List Text}
    (h : ['.', '.'] ∉ parts) :
    parts.foldl (push rooted) before =
      before ++ parts.filter (fun part => part ≠ [] ∧ part ≠ ['.']) := by
  induction parts generalizing before with
  | nil => simp
  | cons part parts ih =>
    obtain ⟨hpart, hrest⟩ := not_or.mp (List.mem_cons.not.mp h)
    rw [List.foldl_cons, ih _ hrest]
    by_cases hempty : part = [] ∨ part = ['.']
    · have : push rooted before part = before := by simp [push, hempty]
      rw [this]
      rcases hempty with rfl | rfl <;> simp
    · obtain ⟨hn, hd⟩ := not_or.mp hempty
      have : push rooted before part = before ++ [part] := by
        simp [push, hn, hd, Ne.symm hpart]
      rw [this]
      simp [hn, hd]

theorem tail_no_dots (h : ['.', '.'] ∉ PurePosixPath.tail path) :
    ['.', '.'] ∉ path.splitOn '/' := by
  intro hm
  exact h (List.mem_filter.mpr ⟨hm, by decide⟩)

theorem join_splitOn (dir : Text) {name : Text} (h : ['/'].isPrefixOf name = false) :
    ∃ front, (join dir name).splitOn '/' = front ++ name.splitOn '/' ∧
      (front.foldl (push (['/'].isPrefixOf (join dir name))) [] = comps dir) := by
  by_cases hd : dir = []
  · subst hd
    refine ⟨[], by simp [join, h], ?_⟩
    simp [comps, push, List.splitOn_nil]
  · by_cases hs : ['/'].isSuffixOf dir
    · obtain ⟨base, rfl⟩ := List.isSuffixOf_iff_suffix.mp hs
      have hj : join (base ++ ['/']) name = base ++ '/' :: name := by simp [join, h, hs]
      refine ⟨base.splitOn '/', by rw [hj, List.splitOn_append_cons_self], ?_⟩
      have hroot : ['/'].isPrefixOf (join (base ++ ['/']) name) = ['/'].isPrefixOf (base ++ ['/']) := by
        rw [hj]
        cases base <;> simp
      rw [hroot, comps, List.splitOn_append_cons_self, List.foldl_append, List.splitOn_nil]
      simp [push]
    · have hj : join dir name = dir ++ '/' :: name := by simp [join, h, hs, hd]
      refine ⟨dir.splitOn '/', by rw [hj, List.splitOn_append_cons_self], ?_⟩
      have hroot : ['/'].isPrefixOf (join dir name) = ['/'].isPrefixOf dir := by
        rw [hj]
        cases dir with
        | nil => exact absurd rfl hd
        | cons c dir => simp
      rw [hroot, comps]

/-- A relative name without `..` adds its components to those of the directory. -/
theorem comps_join (dir : Text) {name : Text} (h : ['/'].isPrefixOf name = false)
    (hdots : ['.', '.'] ∉ PurePosixPath.tail name) :
    comps (join dir name) = comps dir ++ PurePosixPath.tail name := by
  obtain ⟨front, hsplit, hfront⟩ := join_splitOn dir h
  rw [comps, hsplit, List.foldl_append, hfront, push_clean _ _ (tail_no_dots hdots)]
  rfl

/-- The root is decided by the number of leading slashes. -/
theorem root_slashes (path : Text) :
    PurePosixPath.root path =
      match (path.takeWhile (· == '/')).length with
      | 0 => []
      | 2 => ['/', '/']
      | _ => ['/'] := by
  unfold PurePosixPath.root
  split
  · simp
  · rename_i rest hthree
    cases rest with
    | nil => simp
    | cons c rest =>
      have hc : c ≠ '/' := fun he => hthree rest (by rw [he])
      simp [hc]
  · rename_i rest _ htwo
    cases rest with
    | nil => simp
    | cons c rest =>
      have hc : c ≠ '/' := fun he => htwo rest (by rw [he])
      simp [hc]
  · rename_i hone
    cases path with
    | nil => simp
    | cons c rest =>
      have hc : c ≠ '/' := fun he => hone rest (by rw [he])
      simp [hc]

theorem slashes_name (h : ['/'].isPrefixOf name = false) : name.takeWhile (· == '/') = [] := by
  cases name with
  | nil => rfl
  | cons c name =>
    have hc : c ≠ '/' := fun he => by simp [he] at h
    simp [hc]

theorem slashes_join (dir : Text) {name : Text} (h : ['/'].isPrefixOf name = false) :
    (join dir name).takeWhile (· == '/') = dir.takeWhile (· == '/') := by
  by_cases hs : dir = [] ∨ ['/'].isSuffixOf dir
  · have hj : join dir name = dir ++ name := by simp only [join, h, hs, if_true]; rfl
    rw [hj, List.takeWhile_append, slashes_name h, List.append_nil]
    split
    · rename_i hall
      exact (List.takeWhile_prefix _).eq_of_length hall |>.symm
    · rfl
  · have hj : join dir name = dir ++ '/' :: name := by simp only [join, h, hs, if_false]; rfl
    rw [hj, List.takeWhile_append, if_neg]
    -- A directory of slashes alone would end in one.
    intro hall
    have hall := (List.takeWhile_prefix _).eq_of_length hall
    cases hl : dir.getLast? with
    | none => exact hs (.inl (List.getLast?_eq_none_iff.mp hl))
    | some c =>
      obtain ⟨base, rfl⟩ := List.getLast?_eq_some_iff.mp hl
      have hc : c = '/' := by
        have := List.mem_takeWhile_imp (hall ▸ List.mem_append_right base (List.mem_singleton_self c))
        simpa using this
      exact hs (.inr (by simp [hc, List.isSuffixOf_iff_suffix]))

theorem root_join (dir : Text) {name : Text} (h : ['/'].isPrefixOf name = false) :
    PurePosixPath.root (join dir name) = PurePosixPath.root dir := by
  rw [root_slashes, root_slashes, slashes_join dir h]

/-- A path that names something below the root. -/
def Named (path : Text) : Prop := comps path ≠ [] ∧ Segmented '/' (comps path)

theorem normpath_named (h : Named path) :
    normpath path = PurePosixPath.root path ++ ['/'].intercalate (comps path) := by
  have := joined_ne_nil h.2 h.1
  simp [normpath, this]

/-- The text below a directory. -/
def below (dir : Text) (path : List Text) : Text := normpath dir ++ '/' :: ['/'].intercalate path

theorem normpath_join (hd : Named dir) (h : ['/'].isPrefixOf name = false)
    (hdots : ['.', '.'] ∉ PurePosixPath.tail name) :
    normpath (join dir name) =
      if PurePosixPath.tail name = [] then normpath dir else below dir (PurePosixPath.tail name) := by
  have hcomps := comps_join dir h hdots
  split
  · rename_i hempty
    rw [hempty, List.append_nil] at hcomps
    simp [normpath, hcomps, root_join dir h]
  · rename_i htail
    rw [normpath, hcomps, root_join dir h, joined_append hd.1 htail, below, normpath_named hd]
    simp

/-- What the text of the paths says is what the lists of components say. -/
theorem extractTo_eq (hd : Named extract_dir) (archive : Archive) (entry : ZipInfo) :
    extractTo extract_dir archive entry =
      (extractEntry archive entry).map (fun file => (below extract_dir file.1, file.2)) := by
  unfold extractTo
  rw [extractEntry_path, extractedPath]
  split
  · rfl
  · cases hn : _safe_archive_name entry.filename with
    | none => rfl
    | some name =>
      have hdots : ['.', '.'] ∉ PurePosixPath.tail name := by
        rw [safe_name_tail hn]
        intro hm
        exact (safe_name_spec hn).2.2.1 (List.mem_of_mem_filter hm)
      have hnorm := normpath_join hd (safe_name_relative hn) hdots
      by_cases htail : PurePosixPath.tail name = []
      · rw [if_pos htail] at hnorm
        have : ¬(normpath extract_dir ++ ['/']) <+: normpath extract_dir := by
          intro hp
          have := hp.length_le
          rw [List.length_append, List.length_singleton] at this
          omega
        simp [hnorm, htail, List.isPrefixOf_iff_prefix, this]
      · rw [if_neg htail] at hnorm
        have : (normpath extract_dir ++ ['/']) <+: below extract_dir (PurePosixPath.tail name) :=
          ⟨['/'].intercalate (PurePosixPath.tail name), by simp [below]⟩
        simp [hnorm, htail, List.isPrefixOf_iff_prefix, this]

theorem idText_digit (id : Nat) {c : Char} (h : c ∈ idText id) : c.isDigit :=
  Nat.isDigit_of_mem_toDigits (by decide) (by decide) h

theorem idText_tail (id : Nat) : PurePosixPath.tail (idText id) = [idText id] := by
  have hsep : '/' ∉ idText id := fun hm => absurd (idText_digit id hm) (by decide)
  have hdot : idText id ≠ ['.'] := fun he =>
    absurd (idText_digit id (show '.' ∈ idText id by simp [he])) (by decide)
  have hne : idText id ≠ [] := Nat.toDigits_ne_nil
  simp [PurePosixPath.tail, List.splitOn_eq_singleton hsep, hdot, hne]

theorem idText_relative (id : Nat) : ['/'].isPrefixOf (idText id) = false := by
  cases h : idText id with
  | nil => rfl
  | cons c rest =>
    have hc : c.isDigit := idText_digit id (h ▸ List.mem_cons_self)
    have : '/' ≠ c := fun he => absurd (he ▸ hc) (by decide)
    simpa using this

theorem push_segmented (hcomp : '/' ∉ comp) (h : Segmented '/' before) :
    Segmented '/' (push rooted before comp) := by
  unfold push
  split
  · exact h
  · rename_i hne
    split
    · intro s hs
      rcases List.mem_append.mp hs with hs | hs
      · exact h s hs
      · obtain rfl := List.mem_singleton.mp hs
        exact ⟨fun he => hne (.inl he), hcomp⟩
    · exact fun s hs => h s (List.dropLast_subset _ hs)

theorem comps_segmented (path : Text) : Segmented '/' (comps path) := by
  have hsplit : ∀ parts : List Text, (∀ part ∈ parts, '/' ∉ part) → ∀ before,
      Segmented '/' before → Segmented '/' (parts.foldl (push (['/'].isPrefixOf path)) before) := by
    intro parts
    induction parts with
    | nil => exact fun _ _ h => h
    | cons part parts ih =>
      intro hparts before h
      exact ih (fun p hp => hparts p (List.mem_cons_of_mem _ hp)) _
        (push_segmented (hparts part List.mem_cons_self) h)
  exact hsplit _ (fun part hp => not_mem_splitOn hp) [] (fun _ hs => nomatch hs)

/-- The directory of a task is never the root nor the working directory. -/
theorem task_dir_named (base : Text) (id : Nat) : Named (join base (idText id)) := by
  refine ⟨?_, comps_segmented _⟩
  rw [comps_join base (idText_relative id), idText_tail]
  · simp
  · rw [idText_tail]
    intro hm
    have hdots : idText id = ['.', '.'] := (List.mem_singleton.mp hm).symm
    exact absurd (idText_digit id (show '.' ∈ idText id by simp [hdots])) (by decide)

end FileDelivery.Proofs.ArchivePaths
