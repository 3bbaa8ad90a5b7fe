import Mathlib.Data.List.Nodup
import Mathlib.Data.List.Sort

namespace FileDelivery.Library.Rows

/-- A table row with a numeric primary key. -/
class Row (ρ : Type) where
  key : ρ → Nat

variable {ρ : Type} [Row ρ]

/-- SELECT by primary key. -/
def find? (rows : List ρ) (k : Nat) : Option ρ := rows.find? (fun r => Row.key r == k)

/-- UPDATE of the row with primary key `k`. -/
def update (rows : List ρ) (k : Nat) (f : ρ → ρ) : List ρ :=
  rows.map (fun r => if Row.key r == k then f r else r)

/-- DELETE by primary key. -/
def erase (rows : List ρ) (k : Nat) : List ρ := rows.filter (fun r => Row.key r != k)

theorem find_mem {rows : List ρ} (h : find? rows k = some r) : r ∈ rows :=
  List.mem_of_find?_eq_some h

theorem find_key {rows : List ρ} (h : find? rows k = some r) : Row.key r = k := by
  simpa using List.find?_some h

/-- With distinct keys a row is found under its own key. -/
theorem find_of_mem {rows : List ρ} (hn : (rows.map Row.key).Nodup) (hr : r ∈ rows) :
    find? rows (Row.key r) = some r := by
  cases h : find? rows (Row.key r) with
  | none => simpa using List.find?_eq_none.mp h r hr
  | some q =>
    have hk := find_key h
    rw [List.inj_on_of_nodup_map hn (find_mem h) hr hk]

theorem find_iff {rows : List ρ} (hn : (rows.map Row.key).Nodup) :
    find? rows k = some r ↔ r ∈ rows ∧ Row.key r = k := by
  constructor
  · intro h
    exact ⟨find_mem h, find_key h⟩
  · rintro ⟨hr, rfl⟩
    exact find_of_mem hn hr

theorem eq_of_key {rows : List ρ} (hn : (rows.map Row.key).Nodup) (hq : q ∈ rows)
    (hr : r ∈ rows) (hk : Row.key q = Row.key r) : q = r :=
  List.inj_on_of_nodup_map hn hq hr hk

theorem mem_update {rows : List ρ} {f : ρ → ρ} :
    q ∈ update rows k f ↔ ∃ r ∈ rows, (if Row.key r == k then f r else r) = q := by
  simp [update]

theorem mem_update_of_mem {rows : List ρ} {f : ρ → ρ} (hr : r ∈ rows) (hk : Row.key r = k) :
    f r ∈ update rows k f :=
  mem_update.mpr ⟨r, hr, by simp [hk]⟩

theorem mem_update_of_ne {rows : List ρ} {f : ρ → ρ} (hr : r ∈ rows) (hk : Row.key r ≠ k) :
    r ∈ update rows k f :=
  mem_update.mpr ⟨r, hr, by simp [hk]⟩

/-- A row after an update by key is the updated one, or another row as it was. -/
theorem mem_update_cases {rows : List ρ} {f : ρ → ρ} (hn : (rows.map Row.key).Nodup)
    (hr : find? rows k = some r) (hq : q ∈ update rows k f) :
    q = f r ∨ q ∈ rows ∧ Row.key q ≠ k := by
  obtain ⟨p, hp, he⟩ := mem_update.mp hq
  by_cases hk : Row.key p = k
  · have : p = r := eq_of_key hn hp (find_mem hr) (hk.trans (find_key hr).symm)
    simp only [hk, beq_self_eq_true, if_true] at he
    exact .inl (this ▸ he.symm)
  · simp only [beq_iff_eq, hk, if_false] at he
    exact .inr ⟨he ▸ hp, he ▸ hk⟩

/-- An update that keeps some projection of each row keeps it for the table. -/
theorem update_map {rows : List ρ} {f : ρ → ρ} (g : ρ → β) (hf : ∀ r, g (f r) = g r) :
    (update rows k f).map g = rows.map g := by
  simp only [update, List.map_map]
  apply List.map_congr_left
  intro r _
  simp only [Function.comp_apply]
  split
  · exact hf r
  · rfl

/-- Replacing a row by one of the same key. -/
theorem replace_keys {rows : List ρ} (hr : Row.key r = k) :
    (update rows k (fun _ => r)).map Row.key = rows.map Row.key := by
  simp only [update, List.map_map]
  apply List.map_congr_left
  intro q _
  simp only [Function.comp_apply]
  split
  · rename_i hq
    rw [hr, eq_of_beq hq]
  · rfl

/-- What a lookup finds after a change to every row that keeps the keys. -/
theorem find_map {rows : List ρ} {f : ρ → ρ} (hf : ∀ r, Row.key (f r) = Row.key r) :
    find? (rows.map f) j = (find? rows j).map f := by
  have hkey : (fun r => Row.key r == j) ∘ f = fun r => Row.key r == j := by
    funext r
    simp [hf]
  simp only [find?, List.find?_map, hkey]

/-- What a lookup finds after an update that keeps the keys. -/
theorem find_update {rows : List ρ} {f : ρ → ρ} (hf : ∀ r, Row.key (f r) = Row.key r) :
    find? (update rows k f) j = (find? rows j).map (fun r => if j = k then f r else r) := by
  have hkeys : ∀ r, Row.key (if Row.key r == k then f r else r) = Row.key r := by
    intro r
    split <;> simp [hf]
  rw [update, find_map hkeys]
  cases h : find? rows j with
  | none => rfl
  | some r => simp [find_key h]

theorem update_update {rows : List ρ} {f g : ρ → ρ} (hf : ∀ r, Row.key (f r) = Row.key r) :
    update (update rows k f) k g = update rows k (fun r => g (f r)) := by
  simp only [update, List.map_map]
  apply List.map_congr_left
  intro r _
  simp only [Function.comp_apply]
  by_cases hk : Row.key r = k
  · simp [hk, hf]
  · simp [hk]

/-- An update leaves a table as it is where it would leave each of its rows so. -/
theorem update_eq_iff {rows : List ρ} {f : ρ → ρ} :
    update rows k f = rows ↔ ∀ r ∈ rows, Row.key r = k → f r = r := by
  induction rows with
  | nil => simp [update]
  | cons q rows ih =>
    have hcons : update (q :: rows) k f = (if Row.key q == k then f q else q) :: update rows k f := rfl
    rw [hcons, List.cons_eq_cons, ih, List.forall_mem_cons]
    refine and_congr_left' ?_
    split
    · rename_i hk
      simp [beq_iff_eq.mp hk]
    · rename_i hk
      simp [beq_iff_eq] at hk
      simp [hk]

theorem update_absent {rows : List ρ} {f : ρ → ρ} (h : find? rows k = none) :
    update rows k f = rows := by
  refine (List.map_congr_left (g := id) ?_).trans (List.map_id _)
  intro r hr
  have := List.find?_eq_none.mp h r hr
  simpa using fun he => absurd he (by simpa using this)

/-- What holds of each row holds of each where it holds of one that comes after them. -/
theorem append_all {α : Type} {rows : List α} {r : α} {p : α → Prop} (h : ∀ q ∈ rows, p q) (hr : p r) :
    ∀ q ∈ rows ++ [r], p q :=
  List.forall_mem_append.mpr ⟨h, List.forall_mem_singleton.mpr hr⟩

/-- A key above all others is a new one. -/
theorem append_nodup {α : Type} {rows : List α} {r : α} {key : α → Nat} (hn : (rows.map key).Nodup)
    (hlt : ∀ q ∈ rows, key q < key r) : ((rows ++ [r]).map key).Nodup := by
  rw [List.map_append, List.nodup_append]
  refine ⟨hn, by simp, ?_⟩
  intro x hx y hy he
  obtain ⟨q, hq, rfl⟩ := List.mem_map.mp hx
  have := hlt q hq
  simp only [List.map_cons, List.map_nil, List.mem_singleton] at hy
  omega

/-- Appended rows do not hide the ones before them. -/
theorem find_append {rows : List ρ} (h : find? rows k = some r) :
    find? (rows ++ more) k = some r := by
  have hf : rows.find? (fun q => Row.key q == k) = some r := h
  simp [find?, List.find?_append, hf]

theorem find_append_new {rows : List ρ} (h : ∀ q ∈ rows, Row.key q ≠ Row.key r) :
    find? (rows ++ [r]) (Row.key r) = some r := by
  have hf : rows.find? (fun q => Row.key q == Row.key r) = none :=
    List.find?_eq_none.mpr (fun q hq => by simpa using h q hq)
  simp [find?, List.find?_append, hf]

theorem update_append_new {rows : List ρ} {f : ρ → ρ} (h : ∀ q ∈ rows, Row.key q ≠ Row.key r) :
    update (rows ++ [r]) (Row.key r) f = rows ++ [f r] := by
  have hrows : update rows (Row.key r) f = rows :=
    update_absent (List.find?_eq_none.mpr (fun q hq => by simpa using h q hq))
  rw [update] at hrows
  rw [update, List.map_append, hrows]
  simp

theorem erase_append_new {rows : List ρ} (h : ∀ q ∈ rows, Row.key q ≠ Row.key r) :
    erase (rows ++ [r]) (Row.key r) = rows := by
  have hrows : rows.filter (fun q => Row.key q != Row.key r) = rows :=
    List.filter_eq_self.mpr (fun q hq => by simpa using h q hq)
  simp [erase, hrows]

theorem mem_erase {rows : List ρ} : r ∈ erase rows k ↔ r ∈ rows ∧ Row.key r ≠ k := by
  simp [erase]

theorem erase_sublist (rows : List ρ) (k : Nat) : (erase rows k).Sublist rows :=
  List.filter_sublist

/-- The table has the same rows in the same order, up to the contents of the allowed ones. -/
def Changed (allowed : ρ → Prop) (before after : List ρ) : Prop :=
  List.Forall₂ (fun r r' => Row.key r' = Row.key r ∧ (¬allowed r → r' = r)) before after

theorem changed_map {rows : List ρ} {f : ρ → ρ} {allowed : ρ → Prop}
    (hkey : ∀ r ∈ rows, Row.key (f r) = Row.key r) (hsame : ∀ r ∈ rows, ¬allowed r → f r = r) :
    Changed allowed rows (rows.map f) := by
  rw [Changed, List.forall₂_map_right_iff, List.forall₂_same]
  exact fun r hr => ⟨hkey r hr, hsame r hr⟩

section Queries
variable {α : Type} {xs ys : List α}

/-- ORDER BY a column, then by another one. -/
theorem lex_total {κ ι : Type} [LinearOrder κ] [LinearOrder ι] (column : α → κ) (key : α → ι)
    {r : α → α → Prop}
    (hr : ∀ a b, r a b ↔ column a < column b ∨ (column a = column b ∧ key a ≤ key b)) :
    Std.Total r := by
  refine ⟨fun a b => ?_⟩
  rw [hr, hr]
  rcases lt_trichotomy (column a) (column b) with hlt | heq | hgt
  · exact .inl (.inl hlt)
  · exact (le_total (key a) (key b)).imp (fun hle => .inr ⟨heq, hle⟩) (fun hle => .inr ⟨heq.symm, hle⟩)
  · exact .inr (.inl hgt)

theorem lex_trans {κ ι : Type} [LinearOrder κ] [LinearOrder ι] (column : α → κ) (key : α → ι)
    {r : α → α → Prop}
    (hr : ∀ a b, r a b ↔ column a < column b ∨ (column a = column b ∧ key a ≤ key b)) :
    IsTrans α r := by
  refine ⟨fun a b c hab hbc => ?_⟩
  rw [hr] at hab hbc ⊢
  rcases hab with hab | ⟨hab, hi⟩ <;> rcases hbc with hbc | ⟨hbc, hj⟩
  · exact .inl (lt_trans hab hbc)
  · exact .inl (hbc ▸ hab)
  · exact .inl (hab ▸ hbc)
  · exact .inr ⟨hab.trans hbc, le_trans hi hj⟩

/-- The rows of a query stand in its order. -/
theorem sorted_pairwise {κ ι : Type} [LinearOrder κ] [LinearOrder ι] (column : α → κ) (key : α → ι)
    {r : α → α → Prop} [DecidableRel r]
    (hr : ∀ a b, r a b ↔ column a < column b ∨ (column a = column b ∧ key a ≤ key b)) :
    (xs.insertionSort r).Pairwise r :=
  have := lex_total column key hr
  have := lex_trans column key hr
  List.pairwise_insertionSort r xs

/-- ORDER BY a column, then by one that tells the rows of the query apart: the rows
determine the result. -/
theorem sorted_unique {κ ι : Type} [LinearOrder κ] [LinearOrder ι] (column : α → κ) (key : α → ι)
    {r : α → α → Prop} [DecidableRel r]
    (hr : ∀ a b, r a b ↔ column a < column b ∨ (column a = column b ∧ key a ≤ key b))
    (hkey : ∀ a ∈ xs, ∀ b ∈ xs, key a = key b → a = b)
    (hx : xs.Nodup) (hy : ys.Nodup) (h : ∀ a, a ∈ xs ↔ a ∈ ys) :
    xs.insertionSort r = ys.insertionSort r := by
  have hanti : ∀ a b, r a b → r b a → key a = key b := by
    intro a b hab hba
    rw [hr] at hab hba
    rcases hab with hab | ⟨hab, hi⟩ <;> rcases hba with hba | ⟨hba, hj⟩
    · exact absurd hba (lt_asymm hab)
    · exact absurd hab (hba ▸ lt_irrefl _)
    · exact absurd hba (hab ▸ lt_irrefl _)
    · exact le_antisymm hi hj
  refine @List.Perm.eq_of_pairwise _ r _ _ ?_ (sorted_pairwise column key hr)
    (sorted_pairwise column key hr) ?_
  · intro a b ha hb hab hba
    have hb := (h b).mpr ((List.mem_insertionSort r).mp hb)
    exact hkey a ((List.mem_insertionSort r).mp ha) b hb (hanti a b hab hba)
  · have hperm : xs.Perm ys := (List.perm_ext_iff_of_nodup hx hy).mpr h
    exact (List.perm_insertionSort r xs).trans (hperm.trans (List.perm_insertionSort r ys).symm)

/-- A lookup with at most one match finds it wherever it stands. -/
theorem find_unique {p : α → Bool} (hu : ∀ a ∈ xs, ∀ b ∈ xs, p a → p b → a = b)
    (h : ∀ a, p a → (a ∈ xs ↔ a ∈ ys)) : xs.find? p = ys.find? p := by
  cases hx : xs.find? p with
  | none =>
    refine (List.find?_eq_none.mpr ?_).symm
    intro a ha hp
    exact List.find?_eq_none.mp hx a ((h a hp).mpr ha) hp
  | some a =>
    have hpa := List.find?_some hx
    cases hy : ys.find? p with
    | none => exact absurd hpa (List.find?_eq_none.mp hy a ((h a hpa).mp (List.mem_of_find?_eq_some hx)))
    | some b =>
      have hpb := List.find?_some hy
      rw [hu a (List.mem_of_find?_eq_some hx) b ((h b hpb).mpr (List.mem_of_find?_eq_some hy)) hpa hpb]

end Queries

end FileDelivery.Library.Rows
