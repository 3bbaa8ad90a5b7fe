import Mathlib.Data.List.Nodup
import Mathlib.Logic.Function.Basic

namespace FileDelivery.Library.Claims

/-- A value that names its owner until it expires. -/
structure Held (τ : Type*) where
  token : τ
  expiry : Nat
  deriving DecidableEq, Repr

abbrev Store (κ τ : Type*) := κ → Option (Held τ)

/-- What an attempt to claim a key gives the one who made it. -/
structure Claim (κ τ : Type*) where
  key : κ
  token : τ
  acquired : Bool
  deriving DecidableEq, Repr

/-- A claim with its history: whether it was released, and the end of the time that it was last
granted for. -/
structure Tracked (ι κ τ : Type*) where
  owner : ι
  claim : Claim κ τ
  released : Bool
  deadline : Nat
  deriving DecidableEq, Repr

/-- The claim was acquired, has not been released and has not expired. -/
def Tracked.Holds (t : Tracked ι κ τ) (now : Nat) : Prop :=
  t.claim.acquired = true ∧ t.released = false ∧ now < t.deadline

instance (t : Tracked ι κ τ) (now : Nat) : Decidable (t.Holds now) :=
  inferInstanceAs (Decidable (_ ∧ _ ∧ _))

variable {ι κ τ : Type*} {now : Nat} {store : Store κ τ} {claims : List (Tracked ι κ τ)}
  {t u : Tracked ι κ τ}

/-- The token at a key, as long as it has not expired. -/
def get (store : Store κ τ) (now : Nat) (key : κ) : Option τ :=
  ((store key).filter (fun h => now < h.expiry)).map (·.token)

theorem get_some :
    get store now key = some token ↔ ∃ expiry, store key = some ⟨token, expiry⟩ ∧ now < expiry := by
  simp only [get, Option.map_eq_some_iff, Option.filter_eq_some_iff, decide_eq_true_eq]
  constructor
  · intro hr
    obtain ⟨h, ⟨hstore, hlive⟩, rfl⟩ := hr
    exact ⟨h.expiry, hstore, hlive⟩
  · intro h
    obtain ⟨expiry, hstore, hlive⟩ := h
    exact ⟨_, ⟨hstore, hlive⟩, rfl⟩

/-- The store holds just the claims that are held. -/
structure Sound (now : Nat) (store : Store κ τ) (claims : List (Tracked ι κ τ)) : Prop where
  distinct : (claims.map (·.claim.token)).Nodup
  kept : ∀ t ∈ claims, t.Holds now → store t.claim.key = some ⟨t.claim.token, t.deadline⟩
  held : ∀ key token, get store now key = some token →
    ∃ t ∈ claims, t.Holds now ∧ t.claim.key = key ∧ t.claim.token = token

theorem Sound.start (now : Nat) : Sound now (fun _ => none : Store κ τ) ([] : List (Tracked ι κ τ)) where
  distinct := by simp
  kept := by simp
  held := by simp [get]

theorem Sound.token_inj (h : Sound now store claims) (ht : t ∈ claims) (hu : u ∈ claims)
    (he : t.claim.token = u.claim.token) : t = u :=
  List.inj_on_of_nodup_map h.distinct ht hu he

/-- A claim is held just where its key still has its token. -/
theorem Sound.holds_iff (h : Sound now store claims) (ht : t ∈ claims) :
    t.Holds now ↔ get store now t.claim.key = some t.claim.token := by
  constructor
  · intro hh
    exact get_some.mpr ⟨t.deadline, h.kept t ht hh, hh.2.2⟩
  · intro hg
    obtain ⟨u, hu, hh, _, htoken⟩ := h.held _ _ hg
    rw [← h.token_inj hu ht htoken]
    exact hh

/-- Two claims that hold one key are the same. -/
theorem Sound.exclusive (h : Sound now store claims) (ht : t ∈ claims) (hu : u ∈ claims)
    (hht : t.Holds now) (hhu : u.Holds now) (hk : t.claim.key = u.claim.key) : t = u := by
  have htg := (h.holds_iff ht).mp hht
  have hug := (h.holds_iff hu).mp hhu
  rw [hk, hug] at htg
  exact h.token_inj ht hu (Option.some.inj htg).symm

/-- Time takes claims away and gives none. -/
theorem Sound.pass (h : Sound now store claims) (hle : now ≤ later) : Sound later store claims where
  distinct := h.distinct
  kept := by
    intro t ht h
    obtain ⟨ha, hr, hlive⟩ := h
    exact h.kept t ht ⟨ha, hr, by omega⟩
  held := by
    intro key token hg
    obtain ⟨expiry, hstore, hlive⟩ := get_some.mp hg
    obtain ⟨t, ht, hh, rfl, rfl⟩ := h.held key token (get_some.mpr ⟨expiry, hstore, by omega⟩)
    have hkept := h.kept t ht hh
    rw [hstore] at hkept
    have hdeadline : expiry = t.deadline := congrArg Held.expiry (Option.some.inj hkept)
    exact ⟨t, ht, ⟨hh.1, hh.2.1, by omega⟩, rfl, rfl⟩

section
variable [DecidableEq κ]

def setIfAbsent (store : Store κ τ) (now : Nat) (key : κ) (token : τ) (lifetime : Nat) :
    Store κ τ × Bool :=
  match get store now key with
  | none => (Function.update store key (some ⟨token, now + lifetime⟩), true)
  | some _ => (store, false)

theorem get_update_self :
    get (Function.update store key (some ⟨token, expiry⟩)) now key =
      if now < expiry then some token else none := by
  by_cases h : now < expiry <;> simp [get, Option.filter, h]

theorem get_update_ne (hne : k ≠ key) : get (Function.update store key v) now k = get store now k := by
  unfold get
  rw [Function.update_of_ne hne]

theorem setIfAbsent_refused :
    (setIfAbsent store now key token lifetime).2 = false ↔ ∃ holder, get store now key = some holder := by
  unfold setIfAbsent
  cases get store now key <;> simp

/-- A claim on a key is granted where none is held, and refused where one is. -/
theorem Sound.acquire (h : Sound now store claims) (owner : ι) (key : κ) (lifetime : Nat)
    (hfresh : ∀ t ∈ claims, t.claim.token ≠ token) :
    Sound now (setIfAbsent store now key token lifetime).1 (claims ++
      [⟨owner, ⟨key, token, (setIfAbsent store now key token lifetime).2⟩, false,
        now + lifetime⟩]) := by
  have hdistinct : ∀ last : Tracked ι κ τ, last.claim.token = token →
      ((claims ++ [last]).map (·.claim.token)).Nodup := by
    intro last heq
    subst heq
    rw [List.map_append, List.nodup_append]
    refine ⟨h.distinct, by simp, ?_⟩
    intro a ha b hb
    obtain ⟨t, ht, rfl⟩ := List.mem_map.mp ha
    rw [List.mem_singleton.mp hb]
    exact hfresh t ht
  cases hg : get store now key with
  | some holder =>
    have hrefused : setIfAbsent store now key token lifetime = (store, false) := by
      simp only [setIfAbsent, hg]
    simp only [hrefused]
    refine ⟨hdistinct _ rfl, ?_, ?_⟩
    · intro t ht hh
      rcases List.mem_append.mp ht with ht | ht
      · exact h.kept t ht hh
      · rw [List.mem_singleton.mp ht] at hh
        cases hh.1
    · intro k holder hk
      obtain ⟨t, ht, hrest⟩ := h.held k holder hk
      exact ⟨t, List.mem_append_left _ ht, hrest⟩
  | none =>
    have hgranted : setIfAbsent store now key token lifetime =
        (Function.update store key (some ⟨token, now + lifetime⟩), true) := by
      simp only [setIfAbsent, hg]
    simp only [hgranted]
    refine ⟨hdistinct _ rfl, ?_, ?_⟩
    · intro t ht hh
      rcases List.mem_append.mp ht with hold | hnew
      · have hother : t.claim.key ≠ key := by
          intro hk
          rw [← hk, (h.holds_iff hold).mp hh] at hg
          cases hg
        rw [Function.update_of_ne hother]
        exact h.kept t hold hh
      · rw [List.mem_singleton.mp hnew, Function.update_self]
    · intro k holder hk
      by_cases he : k = key
      · subst he
        rw [get_update_self] at hk
        split at hk
        · rename_i hlive
          exact ⟨_, List.mem_append_right _ (List.mem_singleton_self _), ⟨rfl, rfl, hlive⟩, rfl,
            Option.some.inj hk⟩
        · cases hk
      · rw [get_update_ne he] at hk
        obtain ⟨t, ht, hrest⟩ := h.held k holder hk
        exact ⟨t, List.mem_append_left _ ht, hrest⟩

end

section
variable [DecidableEq τ]

/-- What happens to the claim with a token. -/
def follow (token : τ) (f : Tracked ι κ τ → Tracked ι κ τ) (claims : List (Tracked ι κ τ)) :
    List (Tracked ι κ τ) :=
  claims.map (fun t => if t.claim.token = token then f t else t)

theorem follow_tokens (hf : ∀ t, (f t).claim = t.claim) :
    (follow token f claims).map (·.claim.token) = claims.map (·.claim.token) := by
  unfold follow
  rw [List.map_map]
  apply List.map_congr_left
  intro t _
  simp only [Function.comp_apply]
  split
  · rw [hf]
  · rfl

/-- A claim of another token stays as it is. -/
theorem mem_follow_ne (ht : t ∈ claims) (hne : t.claim.token ≠ token) : t ∈ follow token f claims :=
  List.mem_map.mpr ⟨t, ht, if_neg hne⟩

theorem mem_follow (hu : u ∈ follow token f claims) :
    (u ∈ claims ∧ u.claim.token ≠ token) ∨ ∃ t ∈ claims, t.claim.token = token ∧ u = f t := by
  obtain ⟨t, ht, rfl⟩ := List.mem_map.mp hu
  split
  · rename_i he
    exact .inr ⟨t, ht, he, rfl⟩
  · rename_i hne
    exact .inl ⟨ht, hne⟩

/-- A claim that is not held can be released or forgotten. -/
theorem Sound.idle (h : Sound now store claims) (ht : t ∈ claims) (hn : ¬t.Holds now)
    (hf : ∀ t, (f t).claim = t.claim) (hidle : ¬(f t).Holds now) :
    Sound now store (follow t.claim.token f claims) := by
  have hself : ∀ u ∈ claims, u.claim.token = t.claim.token → u = t := fun u hu he =>
    h.token_inj hu ht he
  refine ⟨by rw [follow_tokens hf]; exact h.distinct, ?_, ?_⟩
  · intro u hu hhu
    rcases mem_follow hu with ⟨hu, _⟩ | ⟨u', hu', he, rfl⟩
    · exact h.kept u hu hhu
    · obtain rfl := hself u' hu' he
      exact absurd hhu hidle
  · intro key token hg
    obtain ⟨u, hu, hhu, rfl, rfl⟩ := h.held key token hg
    have hne : u.claim.token ≠ t.claim.token := by
      intro he
      obtain rfl := hself u hu he
      exact hn hhu
    exact ⟨u, mem_follow_ne hu hne, hhu, rfl, rfl⟩

end

section
variable [DecidableEq κ] [DecidableEq τ]

def extendIfHeld (store : Store κ τ) (now : Nat) (key : κ) (token : τ) (lifetime : Nat) :
    Store κ τ × Bool :=
  if get store now key = some token then
    (Function.update store key (some ⟨token, now + lifetime⟩), true)
  else (store, false)

def deleteIfHeld (store : Store κ τ) (now : Nat) (key : κ) (token : τ) : Store κ τ :=
  if get store now key = some token then Function.update store key none else store

/-- Only a claim that was acquired is extended. -/
def refresh (store : Store κ τ) (now : Nat) (claim : Claim κ τ) (lifetime : Nat) :
    Store κ τ × Bool :=
  if claim.acquired then extendIfHeld store now claim.key claim.token lifetime else (store, false)

/-- Only a claim that was acquired is given back. -/
def release (store : Store κ τ) (now : Nat) (claim : Claim κ τ) : Store κ τ :=
  if claim.acquired then deleteIfHeld store now claim.key claim.token else store

theorem Sound.refresh_eq (h : Sound now store claims) (ht : t ∈ claims) :
    refresh store now t.claim lifetime = if t.Holds now then
      (Function.update store t.claim.key (some ⟨t.claim.token, now + lifetime⟩), true)
      else (store, false) := by
  have hiff := h.holds_iff ht
  unfold refresh extendIfHeld
  by_cases hh : t.Holds now
  · rw [if_pos hh.1, if_pos (hiff.mp hh), if_pos hh]
  · rw [if_neg (mt hiff.mpr hh), if_neg hh]
    split <;> rfl

theorem Sound.release_eq (h : Sound now store claims) (ht : t ∈ claims) :
    release store now t.claim =
      if t.Holds now then Function.update store t.claim.key none else store := by
  have hiff := h.holds_iff ht
  unfold release deleteIfHeld
  by_cases hh : t.Holds now
  · rw [if_pos hh.1, if_pos (hiff.mp hh), if_pos hh]
  · rw [if_neg (mt hiff.mpr hh), if_neg hh]
    split <;> rfl

/-- The holder of a key has its history and the value of the key changed together. -/
theorem Sound.change (h : Sound now store claims) (ht : t ∈ claims) (hh : t.Holds now)
    (hf : ∀ t, (f t).claim = t.claim)
    (hkept : (f t).Holds now → value = some ⟨t.claim.token, (f t).deadline⟩)
    (hheld : ∀ token expiry, value = some ⟨token, expiry⟩ → now < expiry →
      (f t).Holds now ∧ t.claim.token = token) :
    Sound now (Function.update store t.claim.key value) (follow t.claim.token f claims) := by
  have hself : ∀ u ∈ claims, u.claim.token = t.claim.token → u = t := fun u hu he =>
    h.token_inj hu ht he
  have hother : ∀ u ∈ claims, u.Holds now → u.claim.token ≠ t.claim.token →
      u.claim.key ≠ t.claim.key := by
    intro u hu hhu hne hk
    exact hne (congrArg (·.claim.token) (h.exclusive hu ht hhu hh hk))
  refine ⟨by rw [follow_tokens hf]; exact h.distinct, ?_, ?_⟩
  · intro u hu hhu
    rcases mem_follow hu with ⟨hu, hne⟩ | ⟨u', hu', he, rfl⟩
    · rw [Function.update_of_ne (hother u hu hhu hne)]
      exact h.kept u hu hhu
    · obtain rfl := hself u' hu' he
      rw [hf, Function.update_self]
      exact hkept hhu
  · intro key token hg
    by_cases hk : key = t.claim.key
    · subst hk
      obtain ⟨expiry, hvalue, hlive⟩ := get_some.mp hg
      rw [Function.update_self] at hvalue
      obtain ⟨hft, htoken⟩ := hheld token expiry hvalue hlive
      have hmem : f t ∈ follow t.claim.token f claims := List.mem_map.mpr ⟨t, ht, if_pos rfl⟩
      exact ⟨f t, hmem, hft, by rw [hf], by rw [hf, htoken]⟩
    · rw [get_update_ne hk] at hg
      obtain ⟨u, hu, hhu, rfl, rfl⟩ := h.held key token hg
      have hne : u.claim.token ≠ t.claim.token := fun he => hk (by rw [hself u hu he])
      exact ⟨u, mem_follow_ne hu hne, hhu, rfl, rfl⟩

/-- What a refresh that was answered with `ok` makes of a claim. -/
def Tracked.refreshed (now lifetime : Nat) (ok : Bool) (t : Tracked ι κ τ) : Tracked ι κ τ :=
  if ok then { t with deadline := now + lifetime } else t

def Tracked.dropped (t : Tracked ι κ τ) : Tracked ι κ τ := { t with released := true }

theorem Sound.refresh (h : Sound now store claims) (ht : t ∈ claims) (lifetime : Nat) :
    Sound now (refresh store now t.claim lifetime).1 (follow t.claim.token
      (Tracked.refreshed now lifetime (Claims.refresh store now t.claim lifetime).2) claims) := by
  have hclaim : ∀ ok (t : Tracked ι κ τ), (t.refreshed now lifetime ok).claim = t.claim := by
    intro ok t
    cases ok <;> rfl
  rw [h.refresh_eq ht]
  by_cases hh : t.Holds now
  · rw [if_pos hh]
    apply h.change ht hh (hclaim true)
    · intro _
      rfl
    · intro token expiry he hlive
      cases he
      exact ⟨⟨hh.1, hh.2.1, hlive⟩, rfl⟩
  · rw [if_neg hh]
    exact h.idle ht hh (hclaim false) hh

theorem Sound.release (h : Sound now store claims) (ht : t ∈ claims) :
    Sound now (release store now t.claim) (follow t.claim.token Tracked.dropped claims) := by
  have hclaim : ∀ t : Tracked ι κ τ, t.dropped.claim = t.claim := fun _ => rfl
  have hgone : ¬t.dropped.Holds now := fun hh => absurd hh.2.1 (by simp [Tracked.dropped])
  rw [h.release_eq ht]
  by_cases hh : t.Holds now
  · rw [if_pos hh]
    apply h.change ht hh hclaim
    · intro hd
      exact absurd hd hgone
    · intro token expiry he
      cases he
  · rw [if_neg hh]
    exact h.idle ht hh hclaim hgone

end

end FileDelivery.Library.Claims
