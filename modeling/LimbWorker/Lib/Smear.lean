import Mathlib.Data.Nat.Size
import Mathlib.Algebra.Order.Ring.Nat

/-!
# Smearing bits downwards

Or-ing a number with its own shift by `w` lets every bit reach `w` positions further down. Starting from the
number itself, shifts by 1, 2, 4, … let a bit reach as far as the sum of the shifts, so after enough of them
all positions below the highest bit are set: what is left is one less than a power of two, the least one
above the number.
-/

namespace LimbWorker.Lib

/-- Each position of `b` says whether `a` has a bit among the `w` positions from there on. -/
def Smeared (w a b : ℕ) : Prop := ∀ i, b.testBit i = true ↔ ∃ d < w, a.testBit (i + d) = true

namespace Smeared

variable {w a b : ℕ}

/-- A number is itself smeared over one position. -/
theorem one (a : ℕ) : Smeared 1 a a := by
  intro i
  constructor
  · intro h
    exact ⟨0, Nat.one_pos, h⟩
  · rintro ⟨d, hd, h⟩
    obtain rfl : d = 0 := by omega
    exact h

/-- **The doubling step.** -/
theorem double (h : Smeared w a b) : Smeared (w + w) a (b ||| b >>> w) := by
  intro i
  rw [Nat.testBit_or, Nat.testBit_shiftRight, Bool.or_eq_true, h i, h (w + i)]
  constructor
  · rintro (⟨d, hd, hbit⟩ | ⟨d, hd, hbit⟩)
    · exact ⟨d, by omega, hbit⟩
    · refine ⟨w + d, by omega, ?_⟩
      rwa [show i + (w + d) = w + i + d by omega]
  · rintro ⟨d, hd, hbit⟩
    rcases Nat.lt_or_ge d w with hlt | hge
    · exact Or.inl ⟨d, hlt, hbit⟩
    · refine Or.inr ⟨d - w, by omega, ?_⟩
      rwa [show w + i + (d - w) = i + d by omega]

/-- Smeared over its whole width, a number has all bits set below its highest one. -/
theorem eq_two_pow_sub_one (h : Smeared w a b) (ha : a < 2 ^ w) : b = 2 ^ a.size - 1 := by
  have hsize : a.size ≤ w := Nat.size_le.mpr ha
  apply Nat.eq_of_testBit_eq
  intro i
  rw [Nat.testBit_two_pow_sub_one, Bool.eq_iff_iff, decide_eq_true_iff, h i]
  constructor
  · rintro ⟨d, -, hbit⟩
    have hlt : i + d < a.size := Nat.lt_size.mpr (Nat.ge_two_pow_of_testBit hbit)
    omega
  · intro hi
    -- some bit from position `i` on is set, and no bit is as far as `w`
    obtain ⟨j, hij, hbit⟩ := Nat.exists_ge_and_testBit_of_ge_two_pow (Nat.lt_size.mp hi)
    have hj : j < a.size := Nat.lt_size.mpr (Nat.ge_two_pow_of_testBit hbit)
    refine ⟨j - i, by omega, ?_⟩
    rwa [Nat.add_sub_cancel' hij]

end Smeared

/-- The least power of two above `a` is that of its size. -/
theorem lt_two_pow_iff_size {a k : ℕ} : a < 2 ^ k ↔ 2 ^ a.size ≤ 2 ^ k := by
  rw [← Nat.size_le, Nat.pow_le_pow_iff_right (by decide)]

end LimbWorker.Lib
