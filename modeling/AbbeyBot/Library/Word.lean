import Mathlib

/-! # Unsigned 64-bit arithmetic

A `u64` is a natural number that the operations keep at or below `u64Max`. Subtraction that stops at
zero is subtraction of natural numbers. -/

namespace AbbeyBot.Library.Word

/-- The largest `u64`. -/
def u64Max : ℕ := 2 ^ 64 - 1

/-- `checked_add`. -/
def checkedAdd (a b : ℕ) : Option ℕ := if a + b ≤ u64Max then some (a + b) else none

/-- `saturating_add`. -/
def saturatingAdd (a b : ℕ) : ℕ := min (a + b) u64Max

@[simp] theorem checkedAdd_eq_some {a b c : ℕ} :
    checkedAdd a b = some c ↔ a + b = c ∧ c ≤ u64Max := by
  unfold checkedAdd
  split_ifs with h
  · simp only [Option.some.injEq]
    exact ⟨fun hc => ⟨hc, hc ▸ h⟩, fun hc => hc.1⟩
  · simp only [false_iff, not_and]
    exact fun hc hle => h (hc ▸ hle)

end AbbeyBot.Library.Word
