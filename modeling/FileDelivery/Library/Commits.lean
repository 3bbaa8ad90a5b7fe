import Mathlib.Data.List.Nodup

namespace FileDelivery.Library.Commits

/-- A committed row with the session that wrote it; `none` wrote the rows that were there before. -/
structure Written (ρ : Type) where
  writer : Option Nat
  row : ρ
  deriving DecidableEq, Repr

variable {ρ κ : Type} {key : ρ → κ} {table : List (Written ρ)} {row : ρ} {w v : Written ρ}

/-- No two committed rows have the same key. -/
def Unique (key : ρ → κ) (table : List (Written ρ)) : Prop := (table.map (fun w => key w.row)).Nodup

/-- The key of the row is not taken. -/
def Admits (key : ρ → κ) (table : List (Written ρ)) (row : ρ) : Prop :=
  ∀ w ∈ table, key w.row ≠ key row

instance [DecidableEq κ] (key : ρ → κ) (table : List (Written ρ)) (row : ρ) :
    Decidable (Admits key table row) :=
  inferInstanceAs (Decidable (∀ w ∈ table, _ ≠ _))

theorem Unique.commit (h : Unique key table) (ha : Admits key table row) (writer : Option Nat) :
    Unique key (table ++ [⟨writer, row⟩]) := by
  rw [Unique, List.map_append, List.nodup_append]
  refine ⟨h, by simp, ?_⟩
  intro a ha' b hb he
  obtain ⟨w, hw, rfl⟩ := List.mem_map.mp ha'
  simp only [List.map_cons, List.map_nil, List.mem_singleton] at hb
  exact ha w hw (he.trans hb)

theorem Unique.eq (h : Unique key table) (hw : w ∈ table) (hv : v ∈ table)
    (hk : key w.row = key v.row) : w = v :=
  List.inj_on_of_nodup_map h hw hv hk

/-- At most one row has a given key. -/
theorem Unique.count [BEq κ] [LawfulBEq κ] (h : Unique key table) (k : κ) :
    (table.filter (fun w => key w.row == k)).length ≤ 1 := by
  have hcount := List.nodup_iff_count_le_one.mp h k
  rwa [List.count, List.countP_map, List.countP_eq_length_filter] at hcount

end FileDelivery.Library.Commits
