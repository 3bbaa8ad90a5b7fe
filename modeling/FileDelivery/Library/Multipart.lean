import Mathlib.Data.List.Basic
import Mathlib.Logic.Function.Basic

namespace FileDelivery.Library.Multipart

section Chunks
variable {β : Type*}

/-- Pieces of `n` elements, the last of what is left. -/
def chunks (n : Nat) (hn : 0 < n) (l : List β) : List (List β) :=
  if _h : l = [] then [] else l.take n :: chunks n hn (l.drop n)
termination_by l.length
decreasing_by
  have := List.length_pos_iff.mpr _h
  rw [List.length_drop]
  omega

variable {n : Nat} {hn : 0 < n} {l : List β}

theorem chunks_nil : chunks n hn ([] : List β) = [] := by
  rw [chunks, dif_pos rfl]

theorem chunks_cons (h : l ≠ []) : chunks n hn l = l.take n :: chunks n hn (l.drop n) := by
  rw [chunks, dif_neg h]

theorem chunks_joined (hn : 0 < n) (l : List β) : (chunks n hn l).flatten = l := by
  induction l using chunks.induct n hn with
  | case1 => rw [chunks_nil, List.flatten_nil]
  | case2 l h ih => rw [chunks_cons h, List.flatten_cons, ih, List.take_append_drop]

/-- Every piece is full but the last, and that is not empty. -/
theorem length_chunk (hn : 0 < n) (l : List β) (h : (chunks n hn l)[i]? = some c) :
    c ≠ [] ∧ c.length ≤ n ∧ (i + 1 < (chunks n hn l).length → c.length = n) := by
  induction l using chunks.induct n hn generalizing i with
  | case1 =>
    rw [chunks_nil] at h
    cases h
  | case2 l hl ih =>
    rw [chunks_cons hl] at h ⊢
    cases i with
    | zero =>
      rw [List.getElem?_cons_zero, Option.some.injEq] at h
      subst h
      have hpos := List.length_pos_iff.mpr hl
      refine ⟨fun he => ?_, List.length_take_le n l, fun hmore => ?_⟩
      · have := congrArg List.length he
        rw [List.length_take, List.length_nil] at this
        omega
      · have hrest : l.drop n ≠ [] := by
          intro he
          rw [he, chunks_nil] at hmore
          exact absurd hmore (by simp)
        have := List.length_pos_iff.mpr hrest
        rw [List.length_drop] at this
        rw [List.length_take]
        omega
    | succ i =>
      rw [List.getElem?_cons_succ] at h
      obtain ⟨hne, hle, hfull⟩ := ih h
      refine ⟨hne, hle, fun hmore => hfull ?_⟩
      rw [List.length_cons] at hmore
      omega

end Chunks

/-- An upload in parts that is not complete yet. -/
structure Upload (κ ε β : Type*) where
  place : κ
  /-- The parts by their numbers, with the tags that they were answered with. -/
  parts : Nat → Option (ε × List β)

/-- An object store that takes objects whole or in parts. -/
structure Store (κ ε β : Type*) where
  objects : κ → Option (List β)
  uploads : Nat → Option (Upload κ ε β)
  next : Nat

namespace Store
variable {κ ε β : Type*} {store store' : Store κ ε β} {id number : Nat}

/-- A new upload, under the next id. -/
def create (store : Store κ ε β) (place : κ) : Store κ ε β :=
  { store with
    uploads := Function.update store.uploads store.next (some ⟨place, fun _ => none⟩)
    next := store.next + 1 }

/-- There is no upload of that id where the answer is `none`. -/
def uploadPart (store : Store κ ε β) (id number : Nat) (tag : ε) (chunk : List β) :
    Option (Store κ ε β) :=
  (store.uploads id).map (fun upload => { store with
    uploads := Function.update store.uploads id
      (some { upload with parts := Function.update upload.parts number (some (tag, chunk)) }) })

def abort (store : Store κ ε β) (id : Nat) : Option (Store κ ε β) :=
  (store.uploads id).map (fun _ => { store with uploads := Function.update store.uploads id none })

@[simp] theorem create_self (store : Store κ ε β) (place : κ) :
    (store.create place).uploads store.next = some ⟨place, fun _ => none⟩ := Function.update_self _ _ _

/-- A part changes no object, and its own upload only. -/
theorem uploadPart_frame (h : store.uploadPart id number tag chunk = some store') :
    store'.objects = store.objects ∧ ∃ upload, store.uploads id = some upload ∧
      store'.uploads id =
        some { upload with parts := Function.update upload.parts number (some (tag, chunk)) } := by
  obtain ⟨upload, hu, rfl⟩ := Option.map_eq_some_iff.mp h
  exact ⟨rfl, upload, hu, Function.update_self _ _ _⟩

theorem abort_frame (h : store.abort id = some store') :
    store.uploads id ≠ none ∧ store'.objects = store.objects ∧ store'.uploads id = none := by
  obtain ⟨upload, hu, rfl⟩ := Option.map_eq_some_iff.mp h
  refine ⟨?_, rfl, Function.update_self _ _ _⟩
  rw [hu]
  exact Option.some_ne_none upload

variable [DecidableEq κ] [DecidableEq ε]

def put (store : Store κ ε β) (place : κ) (data : List β) : Store κ ε β :=
  { store with objects := Function.update store.objects place (some data) }

/-- The content of a part that is listed with its tag. -/
def listed (upload : Upload κ ε β) (part : Nat × ε) : Option (List β) :=
  ((upload.parts part.1).filter (fun stored => stored.1 = part.2)).map (·.2)

/-- Parts listed in ascending order become one object. -/
def complete (store : Store κ ε β) (id : Nat) (parts : List (Nat × ε)) : Option (Store κ ε β) :=
  (store.uploads id).bind (fun upload =>
    if parts ≠ [] ∧ (parts.map (·.1)).Pairwise (· < ·) then
      (parts.mapM (listed upload)).map (fun contents =>
        { store with
          objects := Function.update store.objects upload.place (some contents.flatten)
          uploads := Function.update store.uploads id none })
    else none)

theorem complete_listed {parts : List (Nat × ε)} (hu : store.uploads id = some upload)
    (hne : parts ≠ []) (hasc : (parts.map (·.1)).Pairwise (· < ·))
    (h : parts.mapM (listed upload) = some contents) :
    store.complete id parts = some { store with
      objects := Function.update store.objects upload.place (some contents.flatten)
      uploads := Function.update store.uploads id none } := by
  rw [complete, hu, Option.bind_some, if_pos ⟨hne, hasc⟩, h, Option.map_some]

/-- An upload that is complete is gone. -/
theorem complete_gone (h : store.complete id parts = some store') : store'.uploads id = none := by
  obtain ⟨upload, _, h⟩ := Option.bind_eq_some_iff.mp h
  split at h
  · obtain ⟨contents, _, rfl⟩ := Option.map_eq_some_iff.mp h
    exact Function.update_self _ _ _
  · cases h

end Store
end FileDelivery.Library.Multipart
