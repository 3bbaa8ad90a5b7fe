import Mathlib.Data.List.NodupEquivFin
import Mathlib.Data.List.Sort
import Mathlib.Order.WellFounded

namespace FileDelivery.Library.Paging

variable {α κ : Type*} {xs ys : List α}

/-- LIMIT and OFFSET. -/
def window (limit offset : Nat) (xs : List α) : List α := (xs.drop offset).take limit

/-- What a reader sees that moves on by one page with each read. The table may be another one by
then. -/
def pages (limit : Nat) : Nat → List (List α) → List (List α)
  | _, [] => []
  | offset, xs :: reads => window limit offset xs :: pages limit (offset + limit) reads

theorem mem_window (hx : xs[i]? = some x) (hlow : offset ≤ i) (hhigh : i < offset + limit) :
    x ∈ window limit offset xs := by
  obtain ⟨k, rfl⟩ := Nat.exists_eq_add_of_le hlow
  refine List.mem_of_getElem? (i := k) ?_
  rw [window, List.getElem?_take_of_lt (by omega), List.getElem?_drop]
  exact hx

/-- Rows that are inserted only move the others on. -/
theorem later_position (h : xs.Sublist ys) {i : Nat} (hx : xs[i]? = some x) :
    ∃ j, i ≤ j ∧ ys[j]? = some x := by
  obtain ⟨f, hf⟩ := List.sublist_iff_exists_orderEmbedding_getElem?_eq.mp h
  exact ⟨f i, f.strictMono.le_apply, (hf i).symm.trans hx⟩

/-- A reader that goes on up to a page that is not full sees every row that was there, from its
place on, when it began. -/
theorem pages_cover (hchain : (xs :: reads).IsChain List.Sublist) (hx : xs[i]? = some x)
    (hi : offset ≤ i)
    (hshort : ∀ page ∈ (pages limit offset (xs :: reads)).getLast?, page.length < limit) :
    x ∈ (pages limit offset (xs :: reads)).flatten := by
  induction reads generalizing xs i offset with
  | nil =>
    have hlen : (window limit offset xs).length < limit := hshort _ rfl
    obtain ⟨hbound, _⟩ := List.getElem?_eq_some_iff.mp hx
    rw [window, List.length_take, List.length_drop] at hlen
    simpa [pages] using mem_window hx hi (by omega)
  | cons ys reads ih =>
    rw [pages, List.flatten_cons, List.mem_append]
    by_cases hhere : i < offset + limit
    · exact .inl (mem_window hx hi hhere)
    · obtain ⟨hsub, hrest⟩ := List.isChain_cons_cons.mp hchain
      obtain ⟨j, hj, hy⟩ := later_position hsub hx
      refine .inr (ih hrest hy (by omega) ?_)
      simpa [pages] using hshort

/-- Where no row is added, the pages are the table, cut into pieces. -/
theorem pages_still (n : Nat) :
    (pages limit offset (List.replicate n xs)).flatten = window (n * limit) offset xs := by
  induction n generalizing offset with
  | zero => simp [pages, window]
  | succ n ih =>
    rw [List.replicate_succ, pages, List.flatten_cons, ih, window, window, window,
      Nat.succ_mul, Nat.add_comm (n * limit) limit, List.take_add, List.drop_drop]

theorem pages_last (offset n : Nat) :
    (pages limit offset (List.replicate (n + 1) xs)).getLast? = some (window limit (offset + n * limit) xs) := by
  induction n generalizing offset with
  | zero => simp [pages]
  | succ n ih =>
    rw [List.replicate_succ, pages, List.getLast?_cons, ih (offset + limit), Option.getD_some, Nat.succ_mul,
      Nat.add_assoc, Nat.add_comm limit]

/-- A table that ends on a page of its own is read to its end. -/
theorem short_end {n : Nat}
    (h : ∀ page ∈ (pages limit 0 (List.replicate (n + 1) xs)).getLast?, page.length < limit) :
    xs.length ≤ (n + 1) * limit := by
  have hlen := h _ (pages_last 0 n)
  rw [window, List.length_take, List.length_drop] at hlen
  rw [Nat.succ_mul]
  omega

/-- A query ordered by a key that rows keep has its old result inside the new one. -/
theorem ordered_sublist [LinearOrder κ] (key : α → κ) {r : α → α → Prop} [DecidableRel r]
    (hr : ∀ a b, r a b ↔ key a ≤ key b) (h : (xs.map key).Sublist (ys.map key)) :
    ((xs.insertionSort r).map key).Sublist ((ys.insertionSort r).map key) := by
  have hmap : ∀ zs : List α, (zs.insertionSort r).map key = (zs.map key).insertionSort (· ≤ ·) :=
    fun zs => List.map_insertionSort _ _ key zs (fun a _ b _ => hr a b)
  rw [hmap, hmap]
  refine List.sublist_of_subperm_of_pairwise (r := (· ≤ ·)) ?_ ?_ ?_
  · have hx := (List.perm_insertionSort (· ≤ ·) (xs.map key)).subperm
    have hy := (List.perm_insertionSort (· ≤ ·) (ys.map key)).symm.subperm
    exact (hx.trans h.subperm).trans hy
  · exact List.pairwise_insertionSort _ _
  · exact List.pairwise_insertionSort _ _

end FileDelivery.Library.Paging
