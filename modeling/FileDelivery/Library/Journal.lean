import FileDelivery.Library.Rows

namespace FileDelivery.Library.Journal
open FileDelivery.Library.Rows

/-- Where a log may lead, read entry by entry. An entry leaves open what `reads` leaves open. -/
inductive Leads (reads : ε → σ → σ → Prop) (s : σ) : List ε → σ → Prop
  | nil : Leads reads s [] s
  | snoc (before : Leads reads s log t) (last : reads e t u) : Leads reads s (log ++ [e]) u

theorem Leads.last {reads : ε → σ → σ → Prop} {s u : σ} {log : List ε} (h : Leads reads s log u)
    (hlast : log.getLast? = some e) : ∃ t, reads e t u := by
  cases h with
  | nil => cases hlast
  | snoc _ hread =>
    rw [List.getLast?_concat] at hlast
    cases hlast
    exact ⟨_, hread⟩

/-- What a log leads to has come true at one of its entries. -/
theorem Leads.turn {reads : ε → σ → σ → Prop} {s t : σ} {log : List ε} (h : Leads reads s log t)
    (p : σ → Prop) (hs : ¬p s) (ht : p t) :
    ∃ before e after u v, log = before ++ e :: after ∧ Leads reads s before u ∧ ¬p u ∧
      reads e u v ∧ p v := by
  induction h with
  | nil => exact absurd ht hs
  | @snoc log t e u hbefore hlast ih =>
    by_cases hp : p t
    · obtain ⟨before, e', after, v, w, rfl, hrest⟩ := ih hp
      exact ⟨before, e', after ++ [e], v, w, by simp, hrest⟩
    · exact ⟨log, e, [], t, u, rfl, hbefore, hp, hlast, ht⟩

/-- The entries about one row, in the order of the log. -/
def entries (log : List (Nat × ε)) (k : Nat) : List ε := (log.filter (·.1 == k)).map (·.2)

theorem entries_append (log more : List (Nat × ε)) (k : Nat) :
    entries (log ++ more) k = entries log k ++ entries more k := by
  simp [entries]

theorem entries_self (k : Nat) (e : ε) : entries [(k, e)] k = [e] := by
  simp [entries]

theorem entries_other (h : j ≠ k) (e : ε) : entries [(j, e)] k = [] := by
  simp [entries, h]

theorem entries_absent {log : List (Nat × ε)} (h : ∀ x ∈ log, x.1 ≠ k) : entries log k = [] := by
  simpa [entries, List.filter_eq_nil_iff] using fun a b hab => h (a, b) hab

variable {ρ σ ε : Type} [Row ρ] {reads : ε → σ → σ → Prop} {start : σ} {view : ρ → σ}
  {rows : List ρ} {log : List (Nat × ε)}

/-- Each row shows a state that its entries lead to. -/
def Accounts (reads : ε → σ → σ → Prop) (start : σ) (view : ρ → σ) (rows : List ρ)
    (log : List (Nat × ε)) : Prop :=
  ∀ r ∈ rows, Leads reads start (entries log (Row.key r)) (view r)

/-- An entry that leaves every row as it is. -/
theorem Accounts.note (h : Accounts reads start view rows log)
    (hread : ∀ r ∈ rows, Row.key r = k → reads e (view r) (view r)) :
    Accounts reads start view rows (log ++ [(k, e)]) := by
  intro r hr
  rw [entries_append]
  by_cases hk : k = Row.key r
  · subst hk
    rw [entries_self]
    exact (h r hr).snoc (hread r hr rfl)
  · rw [entries_other hk, List.append_nil]
    exact h r hr

/-- A write to one row with its entry. -/
theorem Accounts.write {f : ρ → ρ} (h : Accounts reads start view rows log)
    (hkey : ∀ r, Row.key (f r) = Row.key r)
    (hread : ∀ r ∈ rows, Row.key r = k → reads e (view r) (view (f r))) :
    Accounts reads start view (update rows k f) (log ++ [(k, e)]) := by
  intro r hr
  obtain ⟨q, hq, he⟩ := mem_update.mp hr
  rw [entries_append]
  by_cases hk : Row.key q = k
  · simp only [hk, beq_self_eq_true, if_true] at he
    subst he
    rw [hkey, hk, entries_self]
    exact Leads.snoc (hk ▸ h q hq) (hread q hq hk)
  · simp only [beq_iff_eq, hk, if_false] at he
    subst he
    rw [entries_other (Ne.symm hk), List.append_nil]
    exact h q hq

/-- A new row, with the first entry about it. -/
theorem Accounts.insert {r : ρ} (h : Accounts reads start view rows log)
    (hlog : ∀ x ∈ log, x.1 ≠ Row.key r) (hrows : ∀ q ∈ rows, Row.key q ≠ Row.key r)
    (hread : reads e start (view r)) :
    Accounts reads start view (rows ++ [r]) (log ++ [(Row.key r, e)]) := by
  refine append_all ?_ ?_
  · intro q hq
    rw [entries_append, entries_other (Ne.symm (hrows q hq)), List.append_nil]
    exact h q hq
  · rw [entries_append, entries_self, entries_absent hlog]
    exact Leads.snoc .nil hread

end FileDelivery.Library.Journal
