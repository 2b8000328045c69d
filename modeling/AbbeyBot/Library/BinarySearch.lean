import Mathlib

/-! # Binary search

The search of Rust's slices: the base of the window moves up while the probed element is not above
the target, and the window is halved. On a sorted list it decides membership. -/

namespace AbbeyBot.Library.BinarySearch

variable {α : Type} [LinearOrder α]

/-- The base that is left of the window of `size` elements from `base`, after `fuel` halvings. -/
def narrow (xs : List α) (x : α) : ℕ → ℕ → ℕ → ℕ
  | 0, base, _ => base
  | fuel + 1, base, size =>
    if 1 < size then
      let mid := base + size / 2
      narrow xs x fuel (if xs[mid]?.any (x < ·) then base else mid) (size - size / 2)
    else base

/-- `binary_search(&x).is_ok()`. -/
def binarySearch (xs : List α) (x : α) : Bool :=
  xs[narrow xs x xs.length 0 xs.length]? == some x

/-- The target stays in the window, at the base once the window is a single element. -/
theorem narrow_spec {xs : List α} (hs : xs.Pairwise (· ≤ ·)) {x : α} {fuel base size : ℕ}
    (hfuel : size ≤ fuel + 1) (hend : base + size ≤ xs.length)
    (hx : ∃ k, base ≤ k ∧ k < base + size ∧ xs[k]? = some x) :
    xs[narrow xs x fuel base size]? = some x := by
  induction fuel generalizing base size with
  | zero =>
    obtain ⟨k, hbase, hk, hx⟩ := hx
    obtain rfl : k = base := by omega
    exact hx
  | succ fuel ih =>
    obtain ⟨k, hbase, hk, hx⟩ := hx
    unfold narrow
    split_ifs with hsize
    · have hmid : base + size / 2 < xs.length := by omega
      have hk' : k < xs.length := by omega
      rw [List.getElem?_eq_getElem hk', Option.some.injEq] at hx
      simp only [List.getElem?_eq_getElem hmid, Option.any_some, decide_eq_true_eq]
      by_cases habove : x < xs[base + size / 2]
      · -- the target is below the probe
        have hlt : k < base + size / 2 := by
          by_contra hge
          have hle := hs.rel_get_of_le (a := ⟨_, hmid⟩) (b := ⟨_, hk'⟩) (by simpa using hge)
          simp only [List.get_eq_getElem, hx] at hle
          exact absurd habove (not_lt.mpr hle)
        rw [if_pos habove]
        exact ih (by omega) (by omega)
          ⟨k, hbase, by omega, by rw [List.getElem?_eq_getElem hk', hx]⟩
      · rw [if_neg habove]
        by_cases hlt : k < base + size / 2
        · -- then the probe is the target as well
          have hle := hs.rel_get_of_le (a := ⟨_, hk'⟩) (b := ⟨_, hmid⟩) (by simp; omega)
          simp only [List.get_eq_getElem, hx] at hle
          have heq : xs[base + size / 2] = x := le_antisymm (not_lt.mp habove) hle
          exact ih (by omega) (by omega)
            ⟨_, le_rfl, by omega, by rw [List.getElem?_eq_getElem hmid, heq]⟩
        · exact ih (by omega) (by omega)
            ⟨k, by omega, by omega, by rw [List.getElem?_eq_getElem hk', hx]⟩
    · obtain rfl : k = base := by omega
      exact hx

/-- **Binary search** on a sorted list decides membership. -/
theorem binarySearch_iff {xs : List α} (hs : xs.Pairwise (· ≤ ·)) (x : α) :
    binarySearch xs x = true ↔ x ∈ xs := by
  unfold binarySearch
  rw [beq_iff_eq]
  constructor
  · exact List.mem_of_getElem?
  · intro hx
    obtain ⟨k, hk⟩ := List.mem_iff_getElem?.mp hx
    obtain ⟨hlt, -⟩ := List.getElem?_eq_some_iff.mp hk
    exact narrow_spec hs (by omega) (by omega) ⟨k, by omega, by omega, hk⟩

end AbbeyBot.Library.BinarySearch
