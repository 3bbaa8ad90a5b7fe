import Mathlib.Data.List.Basic
import Mathlib.Logic.Function.Basic

namespace FileDelivery.Library.Files

/-- The files of a directory: names for inodes, and what the inodes hold. -/
structure Disk (ν β : Type*) where
  dir : ν → Option Nat
  content : Nat → List β
  next : Nat

variable {ν β : Type*} {fs : Disk ν β} {name : ν} {i : Nat}

def Disk.empty : Disk ν β := ⟨fun _ => none, fun _ => [], 0⟩

/-- Each name stands for an inode of its own. -/
structure Disk.Proper (fs : Disk ν β) : Prop where
  given : ∀ name i, fs.dir name = some i → i < fs.next
  single : ∀ name name' i, fs.dir name = some i → fs.dir name' = some i → name = name'

/-- The inode that an open for writing finds under a name, or makes. -/
def Disk.target (fs : Disk ν β) (name : ν) : Nat := (fs.dir name).getD fs.next

/-- What a file holds after `chunk` is written at `offset`; a gap fills with `zero`. -/
def overwrite (zero : β) (old : List β) (offset : Nat) (chunk : List β) : List β :=
  old.take offset ++ List.replicate (offset - old.length) zero ++ chunk ++
    old.drop (offset + chunk.length)

def Disk.write (fs : Disk ν β) (zero : β) (i offset : Nat) (chunk : List β) : Disk ν β :=
  { fs with content := Function.update fs.content i (overwrite zero (fs.content i) offset chunk) }

/-- At most `n` bytes from `offset` on. -/
def Disk.read (fs : Disk ν β) (i offset n : Nat) : List β := ((fs.content i).drop offset).take n

theorem Disk.empty_proper : (Disk.empty : Disk ν β).Proper :=
  ⟨by simp [empty], by simp [empty]⟩

theorem Disk.target_of_dir (h : fs.dir name = some i) : fs.target name = i := by
  simp [target, h]

/-- Writing on where the last write ended. -/
theorem overwrite_end (zero : β) (data : List β) (h : offset ≤ data.length) (n : Nat) :
    overwrite zero (data.take offset) offset ((data.drop offset).take n) = data.take (offset + n) := by
  have hlen : (data.take offset).length = offset := by simp [h]
  have hgap : offset - (data.take offset).length = 0 := by omega
  have hrest : (data.take offset).drop (offset + ((data.drop offset).take n).length) = [] :=
    List.drop_eq_nil_of_le (by omega)
  rw [overwrite, hgap, hrest, List.take_of_length_le (Nat.le_of_eq hlen), List.replicate_zero,
    List.append_nil, List.append_nil, List.take_add]

/-- What is read on from a part of the file is a part of the file. -/
theorem Disk.read_prefix (fs : Disk ν β) {seen : List β} (h : seen <+: fs.content i) (n : Nat) :
    seen ++ fs.read i seen.length n <+: fs.content i := by
  obtain ⟨rest, hrest⟩ := h
  rw [← hrest, read, ← hrest, List.drop_left]
  exact (List.prefix_append_right_inj seen).mpr (List.take_prefix n rest)

/-- Nothing is left to be read only at the end. -/
theorem Disk.read_end (fs : Disk ν β) {seen : List β} (h : seen <+: fs.content i) (hn : 0 < n)
    (hr : fs.read i seen.length n = []) : seen = fs.content i := by
  obtain ⟨rest, hrest⟩ := h
  rw [read, ← hrest, List.drop_left] at hr
  cases rest with
  | nil => simpa using hrest
  | cons c rest =>
    obtain ⟨m, rfl⟩ := Nat.exists_eq_succ_of_ne_zero (Nat.ne_of_gt hn)
    simp at hr

/-- A name whose inode is opened under another name is that name. -/
theorem Disk.dir_target (hp : fs.Proper) (h : fs.dir other = some (fs.target name)) : other = name := by
  cases hn : fs.dir name with
  | none => exact absurd (hp.given other _ h) (by simp [target, hn])
  | some i => exact hp.single other name i (by rw [h, target_of_dir hn]) hn

variable [DecidableEq ν]

/-- Open for writing; what the file held is gone. -/
def Disk.truncate (fs : Disk ν β) (name : ν) : Disk ν β where
  dir := Function.update fs.dir name (some (fs.target name))
  content := Function.update fs.content (fs.target name) []
  next := if (fs.dir name).isSome then fs.next else fs.next + 1

/-- `rename` of a file that is there. -/
def Disk.rename (fs : Disk ν β) (source dest : ν) : Disk ν β :=
  { fs with dir := Function.update (Function.update fs.dir source none) dest (fs.dir source) }

theorem Disk.next_le_truncate (fs : Disk ν β) (name : ν) : fs.next ≤ (fs.truncate name).next := by
  simp only [truncate]
  split <;> omega

theorem Disk.target_lt (hp : fs.Proper) (name : ν) : fs.target name < (fs.truncate name).next := by
  cases h : fs.dir name with
  | none => simp [target, truncate, h]
  | some i => simpa [target, truncate, h] using hp.given name i h

theorem Disk.truncate_proper (hp : fs.Proper) (name : ν) : (fs.truncate name).Proper := by
  have hdir : ∀ other i, (fs.truncate name).dir other = some i →
      (other = name ∧ i = fs.target name) ∨ (other ≠ name ∧ fs.dir other = some i) := by
    intro other i h
    by_cases ho : other = name
    · subst ho
      simp only [truncate, Function.update_self, Option.some.injEq] at h
      exact .inl ⟨rfl, h.symm⟩
    · simp only [truncate, Function.update_of_ne ho] at h
      exact .inr ⟨ho, h⟩
  refine ⟨?_, ?_⟩
  · intro other i h
    rcases hdir other i h with ⟨_, rfl⟩ | ⟨_, h⟩
    · exact target_lt hp name
    · exact Nat.lt_of_lt_of_le (hp.given other i h) (next_le_truncate fs name)
  · intro a b i ha hb
    rcases hdir a i ha with ⟨rfl, rfl⟩ | ⟨_, hfa⟩
    · rcases hdir b _ hb with ⟨rfl, _⟩ | ⟨_, hfb⟩
      · rfl
      · exact (dir_target hp hfb).symm
    · rcases hdir b i hb with ⟨rfl, rfl⟩ | ⟨_, hfb⟩
      · exact dir_target hp hfa
      · exact hp.single a b i hfa hfb

/-- What `rename` makes of the names. -/
theorem Disk.rename_dir (hne : source ≠ dest) (h : (fs.rename source dest).dir name = some i) :
    (name = dest ∧ fs.dir source = some i) ∨
      (name ≠ dest ∧ name ≠ source ∧ fs.dir name = some i) := by
  by_cases hd : name = dest
  · subst hd
    simp only [rename, Function.update_self] at h
    exact .inl ⟨rfl, h⟩
  · by_cases hs : name = source
    · subst hs
      simp [rename, Function.update_of_ne hd] at h
    · simp only [rename, Function.update_of_ne hd, Function.update_of_ne hs] at h
      exact .inr ⟨hd, hs, h⟩

theorem Disk.rename_proper (hp : fs.Proper) (hne : source ≠ dest) : (fs.rename source dest).Proper := by
  refine ⟨?_, ?_⟩
  · intro name i h
    rcases rename_dir hne h with ⟨_, h⟩ | ⟨_, _, h⟩
    · exact hp.given _ i h
    · exact hp.given _ i h
  · intro a b i ha hb
    rcases rename_dir hne ha with ⟨rfl, hfa⟩ | ⟨_, hsa, hfa⟩
    · rcases rename_dir hne hb with ⟨rfl, _⟩ | ⟨_, hsb, hfb⟩
      · rfl
      · exact absurd (hp.single b _ i hfb hfa) hsb
    · rcases rename_dir hne hb with ⟨rfl, hfb⟩ | ⟨_, _, hfb⟩
      · exact absurd (hp.single a _ i hfa hfb) hsa
      · exact hp.single a b i hfa hfb

end FileDelivery.Library.Files
