import Mathlib.Algebra.GroupWithZero.Nat
import Mathlib.Algebra.Order.BigOperators.Group.List
import Mathlib.Algebra.Order.Group.Nat
import Mathlib.Data.List.Nodup
import Mathlib.Data.List.Perm.Subperm

namespace FileDelivery.Library.Grouping

variable {α κ : Type*} [BEq κ] [LawfulBEq κ]

/-- The elements of a list by their key, in the order in which the keys come up. -/
def groups (key : α → κ) (l : List α) : List (List α) :=
  (l.map key).eraseDups.map (fun k => l.filter (key · == k))

theorem nodup_eraseDups (l : List κ) : l.eraseDups.Nodup := by
  induction hn : l.length using Nat.strongRecOn generalizing l with
  | ind n ih =>
    cases l with
    | nil => simp
    | cons k rest =>
      have hle := List.length_filter_le (fun j => !j == k) rest
      rw [List.length_cons] at hn
      rw [List.eraseDups_cons, List.nodup_cons]
      refine ⟨?_, ih _ (by omega) _ rfl⟩
      simp [List.mem_eraseDups]

theorem group_mem (key : α → κ) {l : List α} (hx : x ∈ l) :
    l.filter (key · == key x) ∈ groups key l := by
  apply List.mem_map_of_mem
  exact List.mem_eraseDups.mpr (List.mem_map_of_mem hx)

theorem mem_groups {key : α → κ} {l g : List α} (h : g ∈ groups key l) :
    ∃ x ∈ l, g = l.filter (key · == key x) := by
  obtain ⟨k, hk, rfl⟩ := List.mem_map.mp h
  obtain ⟨x, hx, rfl⟩ := List.mem_map.mp (List.mem_eraseDups.mp hk)
  exact ⟨x, hx, rfl⟩

theorem countP_either {p q : α → Bool} {l : List α} (h : ∀ x ∈ l, p x = true → q x = false) :
    l.countP p + l.countP q = l.countP (fun x => p x || q x) := by
  induction l with
  | nil => rfl
  | cons x l ih =>
    obtain ⟨hx, hl⟩ := List.forall_mem_cons.mp h
    simp only [List.countP_cons, ← ih hl]
    cases hp : p x with
    | false => simp; omega
    | true => simp [hx hp]; omega

/-- Distinct keys split what is counted. -/
theorem countP_keys (key : α → κ) (p : α → Bool) (l : List α) (keys : List κ) (hn : keys.Nodup) :
    (keys.map (fun k => (l.filter (key · == k)).countP p)).sum =
      l.countP (fun x => p x && keys.elem (key x)) := by
  induction keys with
  | nil => simp
  | cons k rest ih =>
    obtain ⟨hnew, hrest⟩ := List.nodup_cons.mp hn
    rw [List.map_cons, List.sum_cons, ih hrest, List.countP_filter, countP_either]
    · apply List.countP_congr
      intro x _
      simp [Bool.and_or_distrib_left]
    · intro x _ hx
      obtain ⟨_, hk⟩ := Bool.and_eq_true_iff.mp hx
      simp [eq_of_beq hk, hnew]

/-- The groups split what is counted. -/
theorem countP_groups (key : α → κ) (p : α → Bool) (l : List α) :
    ((groups key l).map (List.countP p)).sum = l.countP p := by
  rw [groups, List.map_map]
  refine (countP_keys key p l _ (nodup_eraseDups _)).trans (List.countP_congr ?_)
  intro x hx
  have hmem : key x ∈ l.map key := List.mem_map_of_mem hx
  simp [hmem, List.mem_eraseDups]

/-- Terms that are bounded one by one, and have the sum of their bounds, meet their bounds. -/
theorem bounds_met {l : List α} {f g : α → Nat} (hle : ∀ x ∈ l, f x ≤ g x)
    (hsum : (l.map g).sum ≤ (l.map f).sum) : ∀ x ∈ l, f x = g x := by
  intro x hx
  by_contra hne
  have hlt : f x < g x := Nat.lt_of_le_of_ne (hle x hx) hne
  have := List.sum_lt_sum f g hle ⟨x, hx, hlt⟩
  omega

/-- One item for each of some keys, chosen apart, weighs no more than all items. -/
theorem chosen_sum {ι : Type*} (weight : α → Nat) (pick : ι → α) {items : List α} {keys : List ι}
    (hkeys : keys.Nodup) (hmem : ∀ k ∈ keys, pick k ∈ items)
    (hapart : ∀ k ∈ keys, ∀ l ∈ keys, pick k = pick l → k = l) :
    keys.length ≤ items.length ∧ (keys.map (fun k => weight (pick k))).sum ≤ (items.map weight).sum := by
  have hnodup : (keys.map pick).Nodup :=
    List.Nodup.map_on (fun k hk l hl heq => hapart k hk l hl heq) hkeys
  have hsub : (keys.map pick).Subperm items := by
    refine hnodup.subperm (fun a ha => ?_)
    obtain ⟨k, hk, rfl⟩ := List.mem_map.mp ha
    exact hmem k hk
  obtain ⟨part, hperm, hpart⟩ := hsub
  constructor
  · rw [← List.length_map, ← hperm.length_eq]
    exact hpart.length_le
  · have hsum := (hperm.map weight).sum_eq
    rw [List.map_map] at hsum
    refine hsum.symm.le.trans ?_
    exact (hpart.map weight).sum_le_sum (fun _ _ => Nat.zero_le _)

end FileDelivery.Library.Grouping
