import FileDelivery.Bridge.Replay
import FileDelivery.Library.FirstMatch

namespace FileDelivery.Proofs.Precedence
open FileDelivery.Library FileDelivery.Control FileDelivery.Control.Classifier

section
variable (py : Python) (raw : Text) (tc : TargetConfig)

def IsExact : Prop := py.lower tc.key = py.lower raw

def HasAlias : Prop := ∃ a ∈ tc.aliases, py.lower a = py.lower raw

def IsStripped : Prop :=
  tc.strip_number_prefix = true ∧ py.lower (stripNumber py tc.key) = py.lower raw

/-- The target matches at one of the three levels. -/
def Matches : Prop := IsExact py raw tc ∨ HasAlias py raw tc ∨ IsStripped py raw tc

end

variable {py : Python} {profile : ProfileConfig} {raw : Text} {tc : TargetConfig}

/-- One target by itself is matched at its highest level. -/
theorem match_cases (py : Python) (raw : Text) (tc : TargetConfig) :
    (IsExact py raw tc ∧ matchTarget py (py.lower raw) tc = some "exact") ∨
    (¬IsExact py raw tc ∧ HasAlias py raw tc ∧
      matchTarget py (py.lower raw) tc = some "alias") ∨
    (¬IsExact py raw tc ∧ ¬HasAlias py raw tc ∧ IsStripped py raw tc ∧
      matchTarget py (py.lower raw) tc = some "strip_number_prefix") ∨
    (¬Matches py raw tc ∧ matchTarget py (py.lower raw) tc = none) := by
  have halias : (tc.aliases.any (fun a => py.lower a == py.lower raw)) = true ↔
      HasAlias py raw tc := by
    simp [HasAlias]
  have hstrip : (tc.strip_number_prefix && py.lower (stripNumber py tc.key) == py.lower raw) = true ↔
      IsStripped py raw tc := by
    simp [IsStripped]
  by_cases he : IsExact py raw tc
  · exact .inl ⟨he, if_pos he⟩
  · have hkey : ¬py.lower tc.key = py.lower raw := he
    by_cases ha : HasAlias py raw tc
    · refine .inr (.inl ⟨he, ha, ?_⟩)
      simp only [matchTarget, if_neg hkey, if_pos (halias.mpr ha)]
    · by_cases hs : IsStripped py raw tc
      · refine .inr (.inr (.inl ⟨he, ha, hs, ?_⟩))
        simp only [matchTarget, if_neg hkey, if_neg (mt halias.mp ha), if_pos (hstrip.mpr hs)]
      · refine .inr (.inr (.inr ⟨?_, ?_⟩))
        · rintro (h | h | h)
          · exact he h
          · exact ha h
          · exact hs h
        · simp only [matchTarget, if_neg hkey, if_neg (mt halias.mp ha), if_neg (mt hstrip.mp hs)]

theorem matches_iff : Matches py raw tc ↔ ∃ method, matchTarget py (py.lower raw) tc = some method := by
  rcases match_cases py raw tc with ⟨he, hm⟩ | ⟨_, ha, hm⟩ | ⟨_, _, hs, hm⟩ | ⟨hn, hm⟩
  · exact ⟨fun _ => ⟨_, hm⟩, fun _ => .inl he⟩
  · exact ⟨fun _ => ⟨_, hm⟩, fun _ => .inr (.inl ha)⟩
  · exact ⟨fun _ => ⟨_, hm⟩, fun _ => .inr (.inr hs)⟩
  · simp [hn, hm]

/-- The first target of the profile that matches at all. -/
structure First (py : Python) (profile : ProfileConfig) (raw : Text) (tc : TargetConfig) : Prop where
  found : ∃ before after, profile.targets = before ++ tc :: after ∧
    ∀ other ∈ before, ¬Matches py raw other
  matched : Matches py raw tc

theorem First.mem (h : First py profile raw tc) : tc ∈ profile.targets := by
  obtain ⟨before, after, he, _⟩ := h.found
  simp [he]

theorem unmatched_iff :
    (matchTarget py (py.lower raw) tc).map (tc.key, ·) = none ↔ ¬Matches py raw tc := by
  rw [matches_iff, Option.map_eq_none_iff, Option.eq_none_iff_forall_ne_some, not_exists]

theorem resolve_none_iff :
    _resolve_target py profile raw = none ↔ ∀ tc ∈ profile.targets, ¬Matches py raw tc := by
  simp only [_resolve_target, List.findSome?_eq_none_iff, unmatched_iff]

theorem resolve_some_iff : _resolve_target py profile raw = some (key, method) ↔
    ∃ tc, First py profile raw tc ∧ tc.key = key ∧
      matchTarget py (py.lower raw) tc = some method := by
  simp only [_resolve_target, List.findSome?_eq_some_iff, unmatched_iff]
  constructor
  · intro h
    obtain ⟨before, tc, after, he, hm, hbefore⟩ := h
    obtain ⟨found, hm, hkey⟩ := Option.map_eq_some_iff.mp hm
    cases hkey
    exact ⟨tc, ⟨⟨before, after, he, hbefore⟩, matches_iff.mpr ⟨_, hm⟩⟩, rfl, hm⟩
  · intro h
    obtain ⟨tc, hfirst, rfl, hm⟩ := h
    obtain ⟨before, after, he, hbefore⟩ := hfirst.found
    exact ⟨before, tc, after, he, by rw [hm]; rfl, hbefore⟩

/-- A target is found with the method of the highest level at which any target matches. -/
structure Honours (py : Python) (profile : ProfileConfig) (raw : Text) : Prop where
  by_key : (∃ tc ∈ profile.targets, IsExact py raw tc) →
    ∃ tc ∈ profile.targets, IsExact py raw tc ∧ _resolve_target py profile raw = some (tc.key, "exact")
  by_alias : (∀ tc ∈ profile.targets, ¬IsExact py raw tc) →
    (∃ tc ∈ profile.targets, HasAlias py raw tc) →
    ∃ tc ∈ profile.targets, HasAlias py raw tc ∧ _resolve_target py profile raw = some (tc.key, "alias")
  by_stripped : (∀ tc ∈ profile.targets, ¬IsExact py raw tc) →
    (∀ tc ∈ profile.targets, ¬HasAlias py raw tc) →
    (∃ tc ∈ profile.targets, IsStripped py raw tc) →
    ∃ tc ∈ profile.targets, IsStripped py raw tc ∧
      _resolve_target py profile raw = some (tc.key, "strip_number_prefix")
  unknown : (∀ tc ∈ profile.targets, ¬Matches py raw tc) → _resolve_target py profile raw = none

/-- No target matches at a higher level than the first that matches. -/
def FirstIsBest (py : Python) (profile : ProfileConfig) (raw : Text) : Prop :=
  ∀ tc, First py profile raw tc → ∀ other ∈ profile.targets,
    (IsExact py raw other → IsExact py raw tc) ∧
    (HasAlias py raw other → IsExact py raw tc ∨ HasAlias py raw tc)

theorem honours_of_first_best (h : FirstIsBest py profile raw) : Honours py profile raw := by
  cases hr : _resolve_target py profile raw with
  | none =>
    have hnone := resolve_none_iff.mp hr
    refine ⟨?_, ?_, ?_, fun _ => hr⟩
    · intro h
      obtain ⟨tc, htc, he⟩ := h
      exact absurd (.inl he) (hnone tc htc)
    · intro _ h
      obtain ⟨tc, htc, ha⟩ := h
      exact absurd (.inr (.inl ha)) (hnone tc htc)
    · intro _ _ h
      obtain ⟨tc, htc, hs⟩ := h
      exact absurd (.inr (.inr hs)) (hnone tc htc)
  | some found =>
    obtain ⟨tc, hfirst, hkey, hm⟩ := resolve_some_iff.mp hr
    have hbest := h tc hfirst
    have hfound : found = (tc.key, found.2) := by rw [hkey]
    rw [hfound] at hr
    refine ⟨?_, ?_, ?_, ?_⟩
    · intro h
      obtain ⟨other, hother, he⟩ := h
      have hexact := (hbest other hother).1 he
      rcases match_cases py raw tc with ⟨_, hc⟩ | ⟨hn, _⟩ | ⟨hn, _⟩ | ⟨hn, _⟩
      · rw [hc] at hm
        exact ⟨tc, hfirst.mem, hexact, by rw [hr, ← Option.some.inj hm]⟩
      · exact absurd hexact hn
      · exact absurd hexact hn
      · exact absurd hfirst.matched hn
    · intro hno h
      obtain ⟨other, hother, ha⟩ := h
      rcases match_cases py raw tc with ⟨he, _⟩ | ⟨_, hal, hc⟩ | ⟨hn, hna, _⟩ | ⟨hn, _⟩
      · exact absurd he (hno tc hfirst.mem)
      · rw [hc] at hm
        exact ⟨tc, hfirst.mem, hal, by rw [hr, ← Option.some.inj hm]⟩
      · rcases (hbest other hother).2 ha with he | hal
        · exact absurd he hn
        · exact absurd hal hna
      · exact absurd hfirst.matched hn
    · intro hno hnoalias _
      rcases match_cases py raw tc with ⟨he, _⟩ | ⟨_, hal, _⟩ | ⟨_, _, hs, hc⟩ | ⟨hn, _⟩
      · exact absurd he (hno tc hfirst.mem)
      · exact absurd hal (hnoalias tc hfirst.mem)
      · rw [hc] at hm
        exact ⟨tc, hfirst.mem, hs, by rw [hr, ← Option.some.inj hm]⟩
      · exact absurd hfirst.matched hn
    · intro hnone
      exact absurd hfirst.matched (hnone tc hfirst.mem)

theorem first_best_of_honours (h : Honours py profile raw) : FirstIsBest py profile raw := by
  intro tc hfirst other hother
  have hr : ∀ method, matchTarget py (py.lower raw) tc = some method →
      _resolve_target py profile raw = some (tc.key, method) := by
    intro method hm
    exact resolve_some_iff.mpr ⟨tc, hfirst, rfl, hm⟩
  constructor
  · intro he
    obtain ⟨_, _, _, hexact⟩ := h.by_key ⟨other, hother, he⟩
    rcases match_cases py raw tc with ⟨hyes, _⟩ | ⟨_, _, hm⟩ | ⟨_, _, _, hm⟩ | ⟨hn, _⟩
    · exact hyes
    · simp [hr _ hm] at hexact
    · simp [hr _ hm] at hexact
    · exact absurd hfirst.matched hn
  · intro ha
    by_cases hno : ∀ tc ∈ profile.targets, ¬IsExact py raw tc
    · obtain ⟨_, _, _, halias⟩ := h.by_alias hno ⟨other, hother, ha⟩
      rcases match_cases py raw tc with ⟨hyes, _⟩ | ⟨_, hyes, _⟩ | ⟨_, _, _, hm⟩ | ⟨hn, _⟩
      · exact .inl hyes
      · exact .inr hyes
      · simp [hr _ hm] at halias
      · exact absurd hfirst.matched hn
    · push Not at hno
      obtain ⟨_, _, _, hexact⟩ := h.by_key hno
      rcases match_cases py raw tc with ⟨hyes, _⟩ | ⟨_, hyes, _⟩ | ⟨_, _, _, hm⟩ | ⟨hn, _⟩
      · exact .inl hyes
      · exact .inr hyes
      · simp [hr _ hm] at hexact
      · exact absurd hfirst.matched hn

/-- The key and the method that a target contributes. -/
def answer (py : Python) (raw : Text) (tc : TargetConfig) : Option (Text × String) :=
  (matchTarget py (py.lower raw) tc).map (tc.key, ·)

/-- The first target in the order of the profile that matches at all is found, with its own best
method. Precedence across targets holds just where none matches better than the first, and the
order of the targets is of no account just where all that match give the same answer. -/
theorem first_target_wins (py : Python) (profile : ProfileConfig) (raw : Text) :
    (∀ key method, _resolve_target py profile raw = some (key, method) ↔
      ∃ tc, First py profile raw tc ∧ tc.key = key ∧
        matchTarget py (py.lower raw) tc = some method) ∧
    (_resolve_target py profile raw = none ↔ ∀ tc ∈ profile.targets, ¬Matches py raw tc) ∧
    (Honours py profile raw ↔ FirstIsBest py profile raw) ∧
    ((∀ targets : List TargetConfig, targets.Perm profile.targets →
        _resolve_target py { profile with targets := targets } raw = _resolve_target py profile raw) ↔
      FirstMatch.Unanimous (answer py raw) profile.targets) := by
  refine ⟨fun _ _ => resolve_some_iff, resolve_none_iff, ?_, FirstMatch.perm_iff⟩
  exact ⟨first_best_of_honours, honours_of_first_best⟩

/-- A numbered target whose alias is the key of the target after it. -/
def overlapping : ProfileConfig :=
  { Bridge.Sample.profile with targets := [⟨"12. acme", ["acme"], true⟩, ⟨"acme", [], false⟩] }

/-- The alias of the first target beats the exact key of the second, and in the other order it
does not. -/
theorem alias_beats_exact :
    ¬Honours Bridge.Sample.py overlapping "acme" ∧
    ¬∀ targets : List TargetConfig, targets.Perm overlapping.targets →
      _resolve_target Bridge.Sample.py { overlapping with targets := targets } "acme" =
        _resolve_target Bridge.Sample.py overlapping "acme" := by
  have halias : _resolve_target Bridge.Sample.py overlapping "acme" =
      some ("12. acme".toList, "alias") := by decide
  constructor
  · intro h
    obtain ⟨_, _, _, hexact⟩ := h.by_key ⟨⟨"acme", [], false⟩, by simp [overlapping], rfl⟩
    rw [halias] at hexact
    simp at hexact
  · intro h
    have hswap := h [⟨"acme", [], false⟩, ⟨"12. acme", ["acme"], true⟩] (.swap _ _ _)
    rw [halias] at hswap
    exact absurd hswap (by decide)

end FileDelivery.Proofs.Precedence
