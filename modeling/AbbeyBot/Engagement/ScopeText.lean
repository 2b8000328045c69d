import Mathlib
import AbbeyBot.Library.Text
import AbbeyBot.Engagement.Settings

/-! # The text of an engagement scope

A scope is written as its kind and its two numbers, with the unit separator between them, and read
back part by part. The parser compares what it has read with the text, so that a scope has one
spelling. -/

namespace AbbeyBot.Engagement

open AbbeyBot.Library.Result AbbeyBot.Library.Text AbbeyBot.Library.Word AbbeyBot.Work.Types

/-- The scope of a kind. -/
def EngagementScope.ofKind (kind : List Char) (first channel : ℕ) :
    Except WorkError EngagementScope :=
  if kind = "guild".toList then pure (.guild first channel)
  else if kind = "dm".toList then pure (.dm first channel)
  else throw .invalid

/-- `EngagementScope::try_from`. -/
def EngagementScope.ofKey (key : String) : Except WorkError EngagementScope :=
  match key.toList.splitOn '\x1f' with
  | [kind, first, channel] => do
    let first ← orErr (parseU64 first) .invalid
    let channel ← orErr (parseU64 channel) .invalid
    let scope ← ofKind kind first channel
    scope.validate
    ensure (scope.key = key) .invalid
    return scope
  | _ => throw .invalid

/-- The numbers of the scope fit their type. -/
def EngagementScope.Fits : EngagementScope → Prop
  | .guild g channel => g ≤ u64Max ∧ channel ≤ u64Max
  | .dm member channel => member ≤ u64Max ∧ channel ≤ u64Max

theorem separator_not_mem (n : ℕ) : '\x1f' ∉ (toString n).toList := not_mem_toString (by decide) n

/-- The three parts of a text. -/
theorem splitOn_parts {c : Char} {x y z : List Char} (hx : c ∉ x) (hy : c ∉ y) (hz : c ∉ z) :
    (x ++ c :: (y ++ c :: z)).splitOn c = [x, y, z] := by
  rw [List.splitOn_append_cons_self_of_not_mem hx, List.splitOn_append_cons_self_of_not_mem hy,
    List.splitOn_eq_singleton hz]

/-- The parts of a key are read back. -/
theorem splitOn_key (scope : EngagementScope) :
    ∃ kind first channel, scope.key.toList.splitOn '\x1f' =
        [kind, (toString first).toList, (toString channel).toList] ∧
      EngagementScope.ofKind kind first channel = .ok scope ∧
      (scope.Fits → first ≤ u64Max ∧ channel ≤ u64Max) := by
  cases scope with
  | guild g channel =>
    refine ⟨"guild".toList, g, channel, ?_, rfl, id⟩
    have hkey : (EngagementScope.guild g channel).key.toList = "guild".toList ++ '\x1f' ::
        ((toString g).toList ++ '\x1f' :: (toString channel).toList) := by
      simp [EngagementScope.key]
    rw [hkey]
    exact splitOn_parts (by decide) (separator_not_mem g) (separator_not_mem channel)
  | dm member channel =>
    refine ⟨"dm".toList, member, channel, ?_, rfl, id⟩
    have hkey : (EngagementScope.dm member channel).key.toList = "dm".toList ++ '\x1f' ::
        ((toString member).toList ++ '\x1f' :: (toString channel).toList) := by
      simp [EngagementScope.key]
    rw [hkey]
    exact splitOn_parts (by decide) (separator_not_mem member) (separator_not_mem channel)

theorem fits_of_ofKind {kind : List Char} {first channel : ℕ} {scope : EngagementScope}
    (h : EngagementScope.ofKind kind first channel = .ok scope) (hfirst : first ≤ u64Max)
    (hchannel : channel ≤ u64Max) : scope.Fits := by
  unfold EngagementScope.ofKind at h
  split_ifs at h
  · rw [← pure_eq_ok.mp h]
    exact ⟨hfirst, hchannel⟩
  · rw [← pure_eq_ok.mp h]
    exact ⟨hfirst, hchannel⟩

/-- **A scope has one spelling**: the parser accepts the key of every admissible scope, and no other
text. -/
theorem ofKey_eq_ok_iff (key : String) (scope : EngagementScope) :
    EngagementScope.ofKey key = .ok scope ↔ (scope.Valid ∧ scope.Fits) ∧ scope.key = key := by
  constructor
  · intro h
    unfold EngagementScope.ofKey at h
    split at h
    · simp only [bind_eq_ok, orErr_eq_ok, EngagementScope.validate, ensure_eq_ok, exists_unit,
        pure_eq_ok] at h
      obtain ⟨first, hfirst, channel, hchannel, scope', hkind, hvalid, hkey, rfl⟩ := h
      exact ⟨⟨hvalid, fits_of_ofKind hkind (le_of_parseU64 hfirst) (le_of_parseU64 hchannel)⟩, hkey⟩
    · cases h
  · rintro ⟨⟨hvalid, hfits⟩, rfl⟩
    obtain ⟨kind, first, channel, hsplit, hkind, hle⟩ := splitOn_key scope
    obtain ⟨hfirst, hchannel⟩ := hle hfits
    unfold EngagementScope.ofKey
    rw [hsplit]
    simp only [bind_eq_ok, orErr_eq_ok, EngagementScope.validate, ensure_eq_ok, exists_unit,
      pure_eq_ok]
    exact ⟨first, parseU64_toString hfirst, channel, parseU64_toString hchannel, scope, hkind, hvalid,
      rfl, rfl⟩

end AbbeyBot.Engagement
