import FileDelivery.Bridge.SpoolFiles
import FileDelivery.Library.Runs

namespace FileDelivery.Proofs.WholeFiles
open FileDelivery.Library.Files FileDelivery.Library.Runs FileDelivery.Control
open FileDelivery.Bridge FileDelivery.Bridge.SpoolFiles

/-- What a writer has done so far. -/
structure Writing (mode : Mode) (s : State) (k : Writer) : Prop where
  json : isJson k.file
  placed : s.fs.dir (mode.path k.file) = some k.inode
  content : s.fs.content k.inode = k.data.take k.written
  bound : k.written ≤ k.data.length
  begun : k.data ∈ s.produced
  unfinished : s.unfinished k.inode = true

/-- What a reader has before it. -/
structure Reading (mode : Mode) (s : State) (file : Opened) : Prop where
  given : file.inode < s.fs.next
  finished : s.unfinished file.inode = false
  seen : file.seen <+: s.fs.content file.inode
  apart : mode = .publish → ∀ name, isJson name → s.fs.dir (mode.path name) ≠ some file.inode

structure Invariant (mode : Mode) (s : State) : Prop where
  proper : s.fs.Proper
  writing : ∀ w k, s.writers w = some k → Writing mode s k
  alone : ∀ w v k j, s.writers w = some k → s.writers v = some j → k.file = j.file → w = v
  whole : ∀ i, i < s.fs.next → s.unfinished i = false → s.fs.content i ∈ s.produced
  named : mode = .publish → ∀ name i, isJson name → s.fs.dir name = some i → s.unfinished i = false
  listed : ∀ r k, s.readers r = some k → ∀ name ∈ k.names, isJson name
  reading : ∀ r k file, s.readers r = some k → k.current = some file → Reading mode s file
  decoded : NothingTorn s

theorem messageFile_json (task_id : Text) : isJson (FileSpool.messageFile task_id) := by
  simp [isJson, FileSpool.messageFile, List.isSuffixOf_iff_suffix]

/-- A temporary file is not among the files that a scan lists. -/
theorem path_not_json (file : Text) : isJson (Mode.path .publish file) = false := by
  by_contra h
  obtain ⟨front, hfront⟩ := List.isSuffixOf_iff_suffix.mp (Bool.not_eq_false _ ▸ h)
  have := congrArg List.getLast? hfront
  simp [Mode.path] at this

theorem path_injective (mode : Mode) (h : mode.path a = mode.path b) : a = b := by
  cases mode with
  | publish => exact List.append_cancel_right h
  | produce => exact h

theorem path_ne_json (hn : isJson name) : Mode.path .publish file ≠ name := by
  intro heq
  subst heq
  simp [path_not_json] at hn

/-- Two writers that run at a time write two inodes. -/
theorem Invariant.inodes_apart (h : Invariant mode s) (hk : s.writers w = some k)
    (hj : s.writers v = some j) (he : k.inode = j.inode) : w = v := by
  refine h.alone w v k j hk hj (path_injective mode ?_)
  exact h.proper.single _ _ _ (h.writing w k hk).placed (he ▸ (h.writing v j hj).placed)

theorem initial_invariant (mode : Mode) : Invariant mode initial where
  proper := Disk.empty_proper
  writing := by simp [initial]
  alone := by simp [initial]
  whole := fun i hi => absurd hi (Nat.not_lt_zero i)
  named := by simp [initial, Disk.empty]
  listed := by simp [initial]
  reading := by simp [initial]
  decoded := by simp [initial, NothingTorn]

/-- The file that a writer opens is open with no other writer and no reader. -/
theorem create_fresh (h : Invariant mode s) (hok : Exclusive mode s (.create w task_id data)) :
    (∀ v k, s.writers v = some k → k.inode ≠ s.fs.target (mode.path (FileSpool.messageFile task_id))) ∧
      ∀ r k file, s.readers r = some k → k.current = some file →
        file.inode ≠ s.fs.target (mode.path (FileSpool.messageFile task_id)) := by
  refine ⟨?_, ?_⟩
  · intro v k hk he
    have hdir := he ▸ (h.writing v k hk).placed
    exact hok.1 v k hk (path_injective mode (Disk.dir_target h.proper hdir))
  · intro r k file hr hc he
    have hread := h.reading r k file hr hc
    cases hd : s.fs.dir (mode.path (FileSpool.messageFile task_id)) with
    | none => exact absurd hread.given (by simp [he, Disk.target, hd])
    | some i =>
      rw [Disk.target_of_dir hd] at he
      subst he
      cases mode with
      | publish => exact hread.apart rfl _ (messageFile_json task_id) hd
      | produce => exact hok.2 rfl r k file hr hc hd

/-- A writer goes on where its file is left alone. -/
theorem Writing.frame (h : Writing mode s k)
    (hd : s'.fs.dir (mode.path k.file) = s.fs.dir (mode.path k.file))
    (hc : s'.fs.content k.inode = s.fs.content k.inode) (hp : s.produced ⊆ s'.produced)
    (hu : s'.unfinished k.inode = s.unfinished k.inode) : Writing mode s' k :=
  ⟨h.json, hd.trans h.placed, hc.trans h.content, h.bound, hp h.begun, hu.trans h.unfinished⟩

/-- So does a reader, where no name comes to lead to its file. -/
theorem Reading.frame (h : Reading mode s file) (hn : s.fs.next ≤ s'.fs.next)
    (hc : s'.fs.content file.inode = s.fs.content file.inode) (hu : s'.unfinished file.inode = false)
    (hd : mode = .publish → ∀ name, isJson name → s'.fs.dir (mode.path name) = some file.inode →
      s.fs.dir (mode.path name) = some file.inode) : Reading mode s' file :=
  ⟨Nat.lt_of_lt_of_le h.given hn, hu, hc.symm ▸ h.seen,
    fun hm name hj he => h.apart hm name hj (hd hm name hj he)⟩

/-- Writers have files of their own when a new one begins with another file. -/
theorem alone_add {writers : Nat → Option Writer} {new : Writer}
    (h : ∀ a b k j, writers a = some k → writers b = some j → k.file = j.file → a = b)
    (hnew : ∀ v k, writers v = some k → k.file ≠ new.file) (a b : Nat) (k j : Writer)
    (hk : Function.update writers w (some new) a = some k)
    (hj : Function.update writers w (some new) b = some j) (he : k.file = j.file) : a = b := by
  by_cases ha : a = w
  · by_cases hb : b = w
    · rw [ha, hb]
    · subst ha
      simp only [Function.update_self, Option.some.injEq, Function.update_of_ne hb] at hk hj
      subst hk
      exact absurd he.symm (hnew b j hj)
  · by_cases hb : b = w
    · subst hb
      simp only [Function.update_self, Option.some.injEq, Function.update_of_ne ha] at hk hj
      subst hj
      exact absurd he (hnew a k hk)
    · simp only [Function.update_of_ne ha, Function.update_of_ne hb] at hk hj
      exact h a b k j hk hj he

theorem create_invariant (h : Invariant mode s) (hok : Exclusive mode s (.create w task_id data))
    (hs : step mode s (.create w task_id data) = some s') : Invariant mode s' := by
  obtain ⟨hwriters, hreaders⟩ := create_fresh h hok
  simp only [step] at hs
  split at hs
  · cases hs
    set file := FileSpool.messageFile task_id with hfile
    set target := s.fs.target (mode.path file) with htarget
    have hkept : ∀ i, i ≠ target → (s.fs.truncate (mode.path file)).content i = s.fs.content i :=
      fun i hi => Function.update_of_ne hi _ _
    have hdir : ∀ name, name ≠ mode.path file →
        (s.fs.truncate (mode.path file)).dir name = s.fs.dir name :=
      fun name hn => Function.update_of_ne hn _ _
    refine ⟨Disk.truncate_proper h.proper _, ?_, alone_add h.alone hok.1, ?_, ?_, h.listed, ?_, ?_⟩
    · intro v k hk
      by_cases hv : v = w
      · subst hv
        simp only [Function.update_self, Option.some.injEq] at hk
        subst hk
        exact ⟨messageFile_json task_id, by simp [Disk.truncate, htarget], by simp [Disk.truncate, htarget],
          Nat.zero_le _, by simp, by simp⟩
      · simp only [Function.update_of_ne hv] at hk
        have hne := hwriters v k hk
        exact (h.writing v k hk).frame
          (hdir _ (fun he => hok.1 v k hk (path_injective mode he))) (hkept _ hne)
          (List.subset_append_left _ _) (Function.update_of_ne hne _ _)
    · intro i hi hf
      have hne : i ≠ target := by
        intro heq
        subst heq
        simp at hf
      simp only [Function.update_of_ne hne] at hf
      have hlt : i < s.fs.next := by
        cases hd : s.fs.dir (mode.path file) with
        | some j => simpa [Disk.truncate, hd] using hi
        | none =>
          have hnext : target = s.fs.next := by simp [htarget, Disk.target, hd]
          have : i < s.fs.next + 1 := by simpa [Disk.truncate, hd] using hi
          omega
      simp only [hkept _ hne]
      exact List.mem_append_left _ (h.whole i hlt hf)
    · intro heq name i hn hi
      subst heq
      have hpath : name ≠ Mode.path .publish file := fun he => path_ne_json hn he.symm
      simp only [hdir name hpath] at hi
      have hne : i ≠ target := by
        intro heq
        subst heq
        exact hpath (Disk.dir_target h.proper hi)
      simp only [Function.update_of_ne hne]
      exact h.named rfl name i hn hi
    · intro r k o hr hc
      have hread := h.reading r k o hr hc
      have hne := hreaders r k o hr hc
      refine hread.frame (Disk.next_le_truncate _ _) (hkept _ hne)
        ((Function.update_of_ne hne _ _).trans hread.finished) ?_
      intro _ name _ hi
      by_cases hp : mode.path name = mode.path file
      · simp only [Disk.truncate, hp, Function.update_self, Option.some.injEq] at hi
        exact absurd hi.symm hne
      · exact (hdir _ hp).symm.trans hi
    · intro d hd
      exact List.mem_append_left _ (h.decoded d hd)
  · cases hs

/-- A step that leaves the disk and the writers alone. -/
theorem Invariant.reads (h : Invariant mode s) (hf : s'.fs = s.fs) (hw : s'.writers = s.writers)
    (hp : s'.produced = s.produced) (hu : s'.unfinished = s.unfinished)
    (hl : ∀ r k, s'.readers r = some k → ∀ name ∈ k.names, isJson name)
    (hr : ∀ r k file, s'.readers r = some k → k.current = some file → Reading mode s file)
    (hd : NothingTorn s') : Invariant mode s' := by
  refine ⟨hf ▸ h.proper, ?_, ?_, ?_, ?_, hl, ?_, hd⟩
  · intro w k hk
    exact (h.writing w k (hw ▸ hk)).frame (by rw [hf]) (by rw [hf]) (hp ▸ List.Subset.refl _) (by rw [hu])
  · rw [hw]
    exact h.alone
  · rw [hf, hu, hp]
    exact h.whole
  · rw [hf, hu]
    exact h.named
  · intro r k file hk hc
    have hread := hr r k file hk hc
    exact hread.frame (Nat.le_of_eq (by rw [hf])) (by rw [hf]) (hu ▸ hread.finished)
      (fun _ _ _ hdir => hf ▸ hdir)

theorem write_invariant (h : Invariant mode s) (hs : step mode s (.write w n) = some s') :
    Invariant mode s' := by
  simp only [step] at hs
  split at hs
  · rename_i k hk
    split at hs
    · rename_i hn
      cases hs
      have hwriting := h.writing w k hk
      have hnew : (s.fs.write 0 k.inode k.written ((k.data.drop k.written).take n)).content k.inode =
          k.data.take (k.written + n) := by
        simp only [Disk.write, Function.update_self, hwriting.content]
        exact overwrite_end 0 k.data hwriting.bound n
      have hkept : ∀ i, i ≠ k.inode →
          (s.fs.write 0 k.inode k.written ((k.data.drop k.written).take n)).content i =
            s.fs.content i := fun i hi => Function.update_of_ne hi _ _
      have hfinished : ∀ i, s.unfinished i = false → i ≠ k.inode := by
        intro i hi heq
        subst heq
        rw [hwriting.unfinished] at hi
        cases hi
      refine ⟨⟨h.proper.given, h.proper.single⟩, ?_, ?_, ?_, h.named, h.listed, ?_, h.decoded⟩
      · intro v j hj
        by_cases hv : v = w
        · subst hv
          simp only [Function.update_self, Option.some.injEq] at hj
          subst hj
          exact ⟨hwriting.json, hwriting.placed, hnew, hn.2, hwriting.begun, hwriting.unfinished⟩
        · simp only [Function.update_of_ne hv] at hj
          exact (h.writing v j hj).frame rfl (hkept _ (fun he => hv (h.inodes_apart hj hk he)))
            (List.Subset.refl _) rfl
      · -- The writer keeps its file.
        have hfile : ∀ v j,
            Function.update s.writers w (some { k with written := k.written + n }) v = some j →
            ∃ j', s.writers v = some j' ∧ j'.file = j.file := by
          intro v j hj
          by_cases hv : v = w
          · subst hv
            simp only [Function.update_self, Option.some.injEq] at hj
            exact ⟨k, hk, by rw [← hj]⟩
          · exact ⟨j, by simpa only [Function.update_of_ne hv] using hj, rfl⟩
        intro a b i j hi hj he
        obtain ⟨i', hi', hif⟩ := hfile a i hi
        obtain ⟨j', hj', hjf⟩ := hfile b j hj
        exact h.alone a b i' j' hi' hj' (by rw [hif, hjf, he])
      · intro i hi hf
        rw [hkept i (hfinished i hf)]
        exact h.whole i hi hf
      · intro r q file hr hc
        have hread := h.reading r q file hr hc
        exact hread.frame (Nat.le_refl _) (hkept _ (hfinished _ hread.finished)) hread.finished
          (fun _ _ _ hdir => hdir)
    · cases hs
  · cases hs

/-- A writer less. -/
theorem mem_update_none {f : Nat → Option α} (h : Function.update f w none v = some k) :
    v ≠ w ∧ f v = some k := by
  by_cases hv : v = w
  · subst hv
    simp at h
  · exact ⟨hv, by simpa only [Function.update_of_ne hv] using h⟩

theorem crash_invariant (h : Invariant mode s) (hs : step mode s (.crash w) = some s') :
    Invariant mode s' := by
  obtain ⟨k, _, rfl⟩ := Option.map_eq_some_iff.mp hs
  refine ⟨h.proper, ?_, ?_, h.whole, h.named, h.listed, ?_, h.decoded⟩
  · intro v j hj
    exact (h.writing v j (mem_update_none hj).2).frame rfl rfl (List.Subset.refl _) rfl
  · intro a b i j hi hj he
    exact h.alone a b i j (mem_update_none hi).2 (mem_update_none hj).2 he
  · intro r q file hr hc
    have hread := h.reading r q file hr hc
    exact hread.frame (Nat.le_refl _) rfl hread.finished (fun _ _ _ hdir => hdir)

/-- The directory after the last step of a writer. -/
theorem close_cases (h : Invariant mode s) (hk : s.writers w = some k) :
    (mode = .produce ∧ mode.close s.fs k.file = s.fs) ∨
      (mode = .publish ∧ mode.close s.fs k.file = s.fs.rename (Mode.path .publish k.file) k.file) := by
  cases mode with
  | produce => exact .inl ⟨rfl, rfl⟩
  | publish =>
    have hplaced := (h.writing w k hk).placed
    exact .inr ⟨rfl, by simp [Mode.close, hplaced]⟩

theorem close_content (mode : Mode) (fs : Disk Text UInt8) (file : Text) :
    (mode.close fs file).content = fs.content ∧ (mode.close fs file).next = fs.next := by
  unfold Mode.close
  split
  · split
    · exact ⟨rfl, rfl⟩
    · exact ⟨rfl, rfl⟩
  · exact ⟨rfl, rfl⟩

theorem close_proper (h : Invariant mode s) (hk : s.writers w = some k) :
    (mode.close s.fs k.file).Proper := by
  rcases close_cases h hk with ⟨_, hclose⟩ | ⟨_, hclose⟩
  · rw [hclose]
    exact h.proper
  · rw [hclose]
    exact Disk.rename_proper h.proper (path_ne_json (h.writing w k hk).json)

/-- The file of another writer stays where it is. -/
theorem close_other (h : Invariant mode s) (hk : s.writers w = some k) (hf : file ≠ k.file) :
    (mode.close s.fs k.file).dir (mode.path file) = s.fs.dir (mode.path file) := by
  rcases close_cases h hk with ⟨_, hclose⟩ | ⟨rfl, hclose⟩
  · rw [hclose]
  · have hdest : Mode.path .publish file ≠ k.file := path_ne_json (h.writing w k hk).json
    have hsource : Mode.path .publish file ≠ Mode.path .publish k.file :=
      fun he => hf (path_injective .publish he)
    simp only [hclose, Disk.rename, Function.update_of_ne hdest, Function.update_of_ne hsource]

/-- A published name is the one that it was, or leads to what the writer has written. -/
theorem close_named (h : Invariant .publish s) (hk : s.writers w = some k)
    (hd : (Mode.publish.close s.fs k.file).dir name = some i) :
    (name = k.file ∧ i = k.inode) ∨ s.fs.dir name = some i := by
  have hwriting := h.writing w k hk
  have hplaced : s.fs.dir (Mode.path .publish k.file) = some k.inode := hwriting.placed
  rcases close_cases h hk with ⟨hm, _⟩ | ⟨_, hclose⟩
  · cases hm
  · rw [hclose] at hd
    rcases Disk.rename_dir (path_ne_json hwriting.json) hd with ⟨hname, hsource⟩ | ⟨_, _, hold⟩
    · rw [hplaced] at hsource
      exact .inl ⟨hname, (Option.some.inj hsource).symm⟩
    · exact .inr hold

theorem finish_invariant (h : Invariant mode s) (hs : step mode s (.finish w) = some s') :
    Invariant mode s' := by
  simp only [step] at hs
  split at hs
  · rename_i k hk
    split at hs
    · rename_i hend
      cases hs
      have hwriting := h.writing w k hk
      have hwhole : s.fs.content k.inode = k.data := by
        rw [hwriting.content, hend, List.take_length]
      obtain ⟨hcontent, hnext⟩ := close_content mode s.fs k.file
      have hfinished : ∀ i, Function.update s.unfinished k.inode false i = false →
          i = k.inode ∨ s.unfinished i = false := by
        intro i hi
        by_cases he : i = k.inode
        · exact .inl he
        · exact .inr (by simpa only [Function.update_of_ne he] using hi)
      have hstill : ∀ i, s.unfinished i = false → Function.update s.unfinished k.inode false i = false := by
        intro i hi
        by_cases he : i = k.inode
        · rw [he, Function.update_self]
        · rwa [Function.update_of_ne he]
      refine ⟨close_proper h hk, ?_, ?_, ?_, ?_, h.listed, ?_, h.decoded⟩
      · intro v j hj
        obtain ⟨hv, hold⟩ := mem_update_none hj
        have hfile : j.file ≠ k.file := fun he => hv (h.alone v w j k hold hk he)
        have hinode : j.inode ≠ k.inode := fun he => hv (h.inodes_apart hold hk he)
        exact (h.writing v j hold).frame (close_other h hk hfile) (by rw [hcontent])
          (List.Subset.refl _) (Function.update_of_ne hinode _ _)
      · intro a b i j hi hj he
        exact h.alone a b i j (mem_update_none hi).2 (mem_update_none hj).2 he
      · intro i hi hf
        rw [hcontent]
        rcases hfinished i hf with rfl | hf
        · rw [hwhole]
          exact hwriting.begun
        · exact h.whole i (hnext ▸ hi) hf
      · intro heq name i hn hdir
        subst heq
        rcases close_named h hk hdir with ⟨_, rfl⟩ | hold
        · exact Function.update_self ..
        · exact hstill i (h.named rfl name i hn hold)
      · intro r q file hr hc
        have hread := h.reading r q file hr hc
        refine hread.frame (Nat.le_of_eq hnext.symm) (by rw [hcontent]) (hstill _ hread.finished) ?_
        intro heq name r hdir
        subst heq
        rcases close_named h hk hdir with ⟨hpath, _⟩ | hold
        · exact absurd hpath (path_ne_json hwriting.json)
        · exact hold
    · cases hs
  · cases hs

/-- What the readers have when reader `r` goes on with `k`. -/
theorem reads_update {f : Nat → Option Reader} {p : Reader → Prop} (h : ∀ v k, f v = some k → p k)
    (hk : p k) (hv : Function.update f r (some k) v = some q) : p q := by
  by_cases hr : v = r
  · subst hr
    simp only [Function.update_self, Option.some.injEq] at hv
    exact hv ▸ hk
  · exact h v q (by simpa only [Function.update_of_ne hr] using hv)

/-- A step that only moves reader `r` on. -/
theorem Invariant.moved (h : Invariant mode s) (hl : ∀ name ∈ k.names, isJson name)
    (hr : ∀ file, k.current = some file → Reading mode s file) :
    Invariant mode { s with readers := Function.update s.readers r (some k) } := by
  refine h.reads rfl rfl rfl rfl ?_ ?_ h.decoded
  · intro v q hq
    exact reads_update (p := fun k => ∀ name ∈ k.names, isJson name) h.listed hl hq
  · intro v q file hq hc
    obtain ⟨hg, hfin, hs, ha⟩ := reads_update
      (p := fun k => ∀ file, k.current = some file → Reading mode s file)
      (fun v k hk file hc => h.reading v k file hk hc) hr hq file hc
    exact ⟨hg, hfin, hs, ha⟩

/-- An opened file has been finished, and no writer opens it under its feet. -/
theorem open_reading (h : Invariant mode s) (hok : Exclusive mode s (.openFile r))
    (hr : s.readers r = some ⟨name :: names, none⟩) (hd : s.fs.dir name = some inode) :
    Reading mode s ⟨name, inode, []⟩ := by
  have hjson := h.listed r _ hr name List.mem_cons_self
  refine ⟨h.proper.given name inode hd, ?_, List.nil_prefix, ?_⟩
  · cases mode with
    | publish => exact h.named rfl name inode hjson hd
    | produce => exact hok rfl _ name inode hr rfl hd
  · intro heq other ho hdir
    subst heq
    exact path_ne_json hjson (h.proper.single _ _ _ hdir hd)

theorem read_invariant (h : Invariant mode s) (hs : step mode s (.read r n) = some s') :
    Invariant mode s' := by
  simp only [step] at hs
  split at hs
  · rename_i names file hr
    have hreading := h.reading r _ file hr rfl
    have hlisted := h.listed r _ hr
    split at hs
    · rename_i hn
      split at hs
      · rename_i hread
        cases hs
        have hmoved := h.moved (r := r) (k := ⟨names, none⟩) hlisted (by simp)
        refine hmoved.reads rfl rfl rfl rfl hmoved.listed hmoved.reading ?_
        intro d hd
        rcases List.mem_append.mp hd with hd | hd
        · exact h.decoded d hd
        · obtain rfl := List.mem_singleton.mp hd
          show file.seen ∈ s.produced
          rw [Disk.read_end s.fs hreading.seen hn hread]
          exact h.whole _ hreading.given hreading.finished
      · cases hs
        refine h.moved hlisted ?_
        rintro o ⟨⟩
        exact ⟨hreading.given, hreading.finished, Disk.read_prefix s.fs hreading.seen n, hreading.apart⟩
    · cases hs
  · cases hs

theorem step_invariant (h : Invariant mode s) (hok : Exclusive mode s a)
    (hs : step mode s a = some s') : Invariant mode s' := by
  cases a with
  | create w task_id data => exact create_invariant h hok hs
  | write w n => exact write_invariant h hs
  | finish w => exact finish_invariant h hs
  | crash w => exact crash_invariant h hs
  | scan r names =>
    simp only [step] at hs
    split at hs
    · split at hs
      · rename_i hnames
        cases hs
        exact h.moved (fun name hn => (hnames name hn).1) (by simp)
      · cases hs
    · cases hs
  | openFile r =>
    simp only [step] at hs
    split at hs
    · rename_i name names hr
      obtain ⟨inode, hd, rfl⟩ := Option.map_eq_some_iff.mp hs
      refine h.moved (fun n hn => h.listed r _ hr n (List.mem_cons_of_mem _ hn)) ?_
      rintro file ⟨⟩
      exact open_reading h hok hr hd
    · cases hs
  | read r n => exact read_invariant h hs
  | stop r =>
    obtain ⟨k, _, rfl⟩ := Option.map_eq_some_iff.mp hs
    refine h.reads rfl rfl rfl rfl ?_ ?_ h.decoded
    · intro v q hq
      exact h.listed v q (mem_update_none hq).2
    · intro v q file hq hc
      obtain ⟨hg, hfin, hseen, hap⟩ := h.reading v q file (mem_update_none hq).2 hc
      exact ⟨hg, hfin, hseen, hap⟩

/-- While the writers of a task take turns, and those that write in place keep apart from
the readers, whatever is decoded is a whole message. -/
theorem exclusive_files_are_whole (mode : Mode) (h : Run (step mode) (Exclusive mode) initial s) :
    NothingTorn s :=
  (h.invariant _ (initial_invariant mode) (fun _ _ _ hi hok hs => step_invariant hi hok hs)).decoded

/-- A task is published, and read while its next message is being written. -/
theorem retry_is_read_whole : ∃ s, s.decoded = [("t.json".toList, [1, 2])] ∧ NothingTorn s := by
  have hfirst : ∃ s, Run (step .publish) (Exclusive .publish) initial s ∧ (∀ v, s.writers v = none) ∧
      ∃ s', step .publish s (.create 1 "t".toList [3]) = some s' ∧
        ∃ t, step .publish s' (.scan 0 ["t.json".toList]) = some t ∧
        ∃ t', step .publish t (.openFile 0) = some t' ∧
        ∃ u, step .publish t' (.read 0 8) = some u ∧
        ∃ u', step .publish u (.read 0 8) = some u' ∧ u'.decoded = [("t.json".toList, [1, 2])] := by
    have hcreate : Exclusive .publish initial (.create 0 "t".toList [1, 2]) :=
      ⟨by simp [initial], by simp⟩
    have hone : Run (step .publish) (Exclusive .publish) initial _ := .tail (.refl initial) hcreate rfl
    have htwo := Run.tail (a := Action.write 0 2) hone trivial rfl
    refine ⟨_, Run.tail (a := Action.finish 0) htwo trivial rfl, ?_, _, rfl, _, rfl, _, rfl, _, rfl, _,
      rfl, rfl⟩
    intro v
    by_cases hv : v = 0
    · subst hv
      rfl
    · simp [initial, Function.update_of_ne hv]
  obtain ⟨s, hrun, hnone, s', hcreate, t, hscan, t', hopen, u, hread, u', hend, hdecoded⟩ := hfirst
  have hone := Run.tail (a := Action.create 1 "t".toList [3]) hrun ⟨by simp [hnone], by simp⟩ hcreate
  have htwo := Run.tail (a := Action.scan 0 ["t.json".toList]) hone trivial hscan
  have hthree := Run.tail (a := Action.openFile 0) htwo (fun hm => nomatch hm) hopen
  have hfour := Run.tail (a := Action.read 0 8) hthree trivial hread
  have hfive := Run.tail (a := Action.read 0 8) hfour trivial hend
  exact ⟨u', hdecoded, exclusive_files_are_whole .publish hfive⟩

/-- The worker has written half of a result when the control plane reads it. -/
theorem result_is_read_torn :
    ¬∀ mode s, Run (step mode) Free initial s → NothingTorn s := by
  have hrun : ∃ s, replay (step .produce) Free initial [.create 0 "t".toList [1, 2], .write 0 1,
      .scan 0 ["t.json".toList], .openFile 0, .read 0 8, .read 0 8] = some s ∧
      s.decoded = [("t.json".toList, [1])] ∧ s.produced = [[1, 2]] := ⟨_, rfl, rfl, rfl⟩
  obtain ⟨s, hs, hd, hp⟩ := hrun
  intro hall
  have hmem := hall .produce s (.of_replay hs) ("t.json".toList, [1]) (by simp [hd])
  rw [hp] at hmem
  exact absurd hmem (by decide)

/-- Two publishers of one task: the second opens the temporary file that the first renames. -/
theorem overlapping_publishers_tear : ∃ s, Run (step .publish) Free initial s ∧ ¬NothingTorn s := by
  have hrun : ∃ s, replay (step .publish) Free initial [.create 0 "t".toList [1, 2], .write 0 2,
      .create 1 "t".toList [3, 4], .write 1 1, .finish 0, .scan 0 ["t.json".toList], .openFile 0,
      .read 0 8, .read 0 8] = some s ∧
      s.decoded = [("t.json".toList, [3])] ∧ s.produced = [[1, 2], [3, 4]] := ⟨_, rfl, rfl, rfl⟩
  obtain ⟨s, hs, hd, hp⟩ := hrun
  refine ⟨s, .of_replay hs, ?_⟩
  intro hwhole
  have hmem := hwhole ("t.json".toList, [3]) (by simp [hd])
  rw [hp] at hmem
  exact absurd hmem (by decide)

end FileDelivery.Proofs.WholeFiles
