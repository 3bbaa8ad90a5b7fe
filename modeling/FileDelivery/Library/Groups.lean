import FileDelivery.Library.Offsets
import Mathlib.Logic.Relation

namespace FileDelivery.Library.Groups
open FileDelivery.Library.Offsets

/-- The members of a consumer group, and the offsets that are stored for it. -/
structure Group where
  committed : Nat → Nat
  members : Nat → Option Reader

/-- What a member may do that reads the partitions `mine` only. -/
inductive Move (mine : Nat → Prop) (committed : Nat → Nat) :
    Option Reader → (Nat → Nat) → Option Reader → Prop
  | join : Move mine committed none committed (some ⟨committed, []⟩)
  | read {p : Nat} {r : Reader} (assigned : mine p) :
      Move mine committed (some r) committed (some (r.read p))
  | release {position : Nat → Nat} {held held' : List (Nat × Nat)} (less : held'.Sublist held) :
      Move mine committed (some ⟨position, held⟩) committed (some ⟨position, held'⟩)
  | commit {position : Nat → Nat} {held held' : List (Nat × Nat)} {x : Nat × Nat}
      (less : held'.Sublist held) (has : x ∈ held) :
      Move mine committed (some ⟨position, held⟩) (Offsets.commit committed x) (some ⟨position, held'⟩)
  | leave {r : Reader} : Move mine committed (some r) committed none

variable {owner : Nat → Nat} {committed committed' : Nat → Nat} {r r' : Option Reader} {x : Nat × Nat}

/-- One move of one member; each partition has its owner for good. -/
inductive Step (owner : Nat → Nat) (g : Group) : Group → Prop
  | move (w : Nat) {committed : Nat → Nat} {r : Option Reader}
      (moves : Move (fun p => owner p = w) g.committed (g.members w) committed r) :
      Step owner g ⟨committed, Function.update g.members w r⟩

/-- A move of the member that moved last. -/
theorem Step.again {w : Nat} (h : Move (fun p => owner p = w) committed r committed' r')
    (members : Nat → Option Reader) :
    Step owner ⟨committed, Function.update members w r⟩ ⟨committed', Function.update members w r'⟩ := by
  have hs := Step.move (g := ⟨committed, Function.update members w r⟩) w
    (by simpa only [Function.update_self] using h)
  simpa only [Function.update_idem] using hs

abbrev Steps (owner : Nat → Nat) := Relation.ReflTransGen (Step owner)

/-- Nobody has joined yet. -/
def empty (committed : Nat → Nat) : Group := ⟨committed, fun _ => none⟩

/-- Every member holds places of its own partitions, in the order of the offsets. -/
def InOrder (owner : Nat → Nat) (g : Group) : Prop :=
  ∀ w r, g.members w = some r → Accounted (fun _ _ => True) r ∧ ∀ y ∈ r.held, owner y.1 = w

/-- The place is committed, and the owner of its partition is past it. -/
structure Settled (owner : Nat → Nat) (x : Nat × Nat) (g : Group) : Prop where
  committed : x.2 < g.committed x.1
  behind : ∀ r, g.members (owner x.1) = some r → Behind x r

theorem Move.in_order (h : Move (fun p => owner p = w) committed r committed' r')
    (hr : ∀ q, r = some q → Accounted (fun _ _ => True) q ∧ ∀ y ∈ q.held, owner y.1 = w) :
    ∀ q, r' = some q → Accounted (fun _ _ => True) q ∧ ∀ y ∈ q.held, owner y.1 = w := by
  rintro q rfl
  cases h with
  | join => exact ⟨.resume (fun _ _ _ => trivial), by simp⟩
  | read assigned =>
    obtain ⟨hacc, hown⟩ := hr _ rfl
    refine ⟨hacc.read _, ?_⟩
    intro y hy
    rcases List.mem_append.mp hy with hy | hy
    · exact hown y hy
    · obtain rfl := List.mem_singleton.mp hy
      exact assigned
  | release less =>
    obtain ⟨hacc, hown⟩ := hr _ rfl
    exact ⟨hacc.release less (fun _ _ _ => trivial), fun y hy => hown y (less.subset hy)⟩
  | commit less has =>
    obtain ⟨hacc, hown⟩ := hr _ rfl
    exact ⟨hacc.release less (fun _ _ _ => trivial), fun y hy => hown y (less.subset hy)⟩

theorem Step.in_order (h : InOrder owner g) (hs : Step owner g g') : InOrder owner g' := by
  obtain ⟨w, moves⟩ := hs
  intro v q hq
  by_cases hv : v = w
  · subst hv
    simp only [Function.update_self] at hq
    exact moves.in_order (h v) q hq
  · simp only [Function.update_of_ne hv] at hq
    exact h v q hq

/-- A commit by another member is of another partition; one by the owner comes later. -/
theorem Move.still_committed (h : Move (fun p => owner p = w) committed r committed' r')
    (hown : ∀ q, r = some q → ∀ y ∈ q.held, owner y.1 = w) (hx : x.2 < committed x.1)
    (hb : owner x.1 = w → ∀ q, r = some q → Behind x q) : x.2 < committed' x.1 := by
  cases h with
  | join => exact hx
  | read => exact hx
  | release => exact hx
  | leave => exact hx
  | commit less has =>
    by_cases hw : owner x.1 = w
    · exact (hb hw _ rfl).commit hx has
    · have hne : x.1 ≠ _ := fun he => hw (he ▸ hown _ rfl _ has)
      simp only [Offsets.commit, Function.update_of_ne hne]
      exact hx

theorem Move.behind (h : Move mine committed r committed' r') (hx : x.2 < committed x.1)
    (hb : ∀ q, r = some q → Behind x q) : ∀ q, r' = some q → Behind x q := by
  rintro q rfl
  cases h with
  | join => exact .resume hx
  | read assigned => exact (hb _ rfl).read _
  | release less => exact (hb _ rfl).release less.subset
  | commit less has => exact (hb _ rfl).release less.subset

theorem Step.settled (ho : InOrder owner g) (h : Settled owner x g) (hs : Step owner g g') :
    Settled owner x g' := by
  obtain ⟨w, moves⟩ := hs
  refine ⟨?_, ?_⟩
  · apply moves.still_committed (fun q hq => (ho w q hq).2) h.committed
    rintro rfl
    exact h.behind
  · intro r hr
    by_cases hw : owner x.1 = w
    · subst hw
      simp only [Function.update_self] at hr
      exact moves.behind h.committed h.behind r hr
    · simp only [Function.update_of_ne hw] at hr
      exact h.behind r hr

/-- Member `w` commits the first place that it holds, and lets go of it. -/
def Acks (w : Nat) (x : Nat × Nat) (g g' : Group) : Prop :=
  ∃ position held, g.members w = some ⟨position, x :: held⟩ ∧
    g' = ⟨Offsets.commit g.committed x, Function.update g.members w (some ⟨position, held⟩)⟩

theorem Acks.settled (ho : InOrder owner g) (h : Acks w x g g') : Settled owner x g' := by
  obtain ⟨position, held, hw, rfl⟩ := h
  obtain ⟨hacc, hown⟩ := ho w _ hw
  obtain rfl : owner x.1 = w := hown x List.mem_cons_self
  refine ⟨by simp [Offsets.commit], ?_⟩
  intro r hr
  simp only [Function.update_self] at hr
  cases hr
  exact hacc.let_go

theorem Acks.step (owner : Nat → Nat) (h : Acks w x g g') : Step owner g g' := by
  obtain ⟨position, held, hw, rfl⟩ := h
  refine .move w ?_
  rw [hw]
  exact .commit (List.sublist_cons_self _ _) List.mem_cons_self

theorem steps_in_order (h : InOrder owner g) (hs : Steps owner g g') : InOrder owner g' := by
  induction hs with
  | refl => exact h
  | tail _ hstep ih => exact hstep.in_order ih

theorem steps_settled (ho : InOrder owner g) (h : Settled owner x g) (hs : Steps owner g g') :
    Settled owner x g' := by
  induction hs with
  | refl => exact h
  | tail hsteps hstep ih => exact hstep.settled (steps_in_order ho hsteps) ih

theorem empty_in_order (owner committed : Nat → Nat) : InOrder owner (empty committed) :=
  fun _ _ h => nomatch h

/-- While the partitions stay with their owners, nobody holds a place again that was
acked. -/
theorem acked_not_held {r : Reader} (hbefore : Steps owner (empty committed) g) (h : Acks w x g g')
    (hafter : Steps owner g' g'') (hv : g''.members v = some r) : x ∉ r.held := by
  have ho := steps_in_order (empty_in_order owner committed) hbefore
  have ho' := (h.step owner).in_order ho
  have hsettled := steps_settled ho' (h.settled ho) hafter
  intro hx
  obtain rfl := (steps_in_order ho' hafter v r hv).2 x hx
  exact absurd ((hsettled.behind r hv).later x hx rfl) (Nat.lt_irrefl _)

end FileDelivery.Library.Groups
