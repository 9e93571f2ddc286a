import LimbWorker.Lib.Smear
import Mathlib.Tactic.Common

/-!
# `bithacks.h`

`nextPowerOfTwo` in 32-bit arithmetic, and the power of two that it is meant to return.
-/

namespace LimbWorker

open Lib

/-- `nextPowerOfTwo`: smear the highest bit of `v - 1` downwards, and add one. -/
def nextPowerOfTwo (v : UInt32) : UInt32 :=
  if v ≤ 2 then 2
  else
    let v := v - 1
    let v := v ||| v >>> 1
    let v := v ||| v >>> 2
    let v := v ||| v >>> 4
    let v := v ||| v >>> 8
    let v := v ||| v >>> 16
    v + 1

/-- `p` is the least power of two from `m` on. -/
structure LeastPowerOfTwo (m p : Nat) : Prop where
  isPowerOfTwo : ∃ k, p = 2 ^ k
  le : m ≤ p
  least : ∀ k, m ≤ 2 ^ k → p ≤ 2 ^ k

/-- One line of the cascade, on natural numbers. -/
theorem smeared_or_shift {w : Nat} {a : Nat} {v k : UInt32} (h : Smeared w a v.toNat)
    (hk : k.toNat = w) (hw : w < 32) : Smeared (w + w) a (v ||| v >>> k).toNat := by
  have hshift : k.toNat % 32 = w := by omega
  rw [UInt32.toNat_or, UInt32.toNat_shiftRight, hshift]
  exact h.double

/-- What the cascade makes of a number: all positions below its highest bit are set. -/
theorem toNat_nextPowerOfTwo {v : UInt32} (hlt : 2 < v.toNat) (hle : v.toNat ≤ 2 ^ 31) :
    (nextPowerOfTwo v).toNat = 2 ^ (v.toNat - 1).size := by
  have htwo : 2 ≤ v := UInt32.le_iff_toNat_le.mpr (Nat.le_of_lt hlt)
  have hone : 1 ≤ v := UInt32.le_trans (by decide) htwo
  have hnot : ¬ v ≤ 2 := fun h => absurd (UInt32.le_iff_toNat_le.mp h) (Nat.not_le.mpr hlt)
  have hpred : (v - 1).toNat = v.toNat - 1 := UInt32.toNat_sub_of_le _ _ hone
  rw [nextPowerOfTwo, if_neg hnot, ← hpred]
  have h1 := Smeared.one (v - 1).toNat
  have h2 := smeared_or_shift (k := 1) h1 rfl (by decide)
  have h4 := smeared_or_shift (k := 2) h2 rfl (by decide)
  have h8 := smeared_or_shift (k := 4) h4 rfl (by decide)
  have h16 := smeared_or_shift (k := 8) h8 rfl (by decide)
  have h32 := smeared_or_shift (k := 16) h16 rfl (by decide)
  have hall := h32.eq_two_pow_sub_one (UInt32.toNat_lt _)
  have hsize : (v - 1).toNat.size ≤ 31 := Nat.size_le.mpr (by omega)
  have hpow : 2 ^ (v - 1).toNat.size ≤ 2 ^ 31 := Nat.pow_le_pow_right (by decide) hsize
  -- all bits are set, but not the topmost one: adding one does not overflow
  rw [UInt32.toNat_add, hall]
  show (2 ^ (v - 1).toNat.size - 1 + 1) % 2 ^ 32 = _
  rw [Nat.sub_add_cancel (Nat.two_pow_pos _)]
  exact Nat.mod_eq_of_lt (Nat.lt_of_le_of_lt hpow (by decide))

/-- **The least power of two**: up to `2 ^ 31` no bit is lost. -/
theorem leastPowerOfTwo_nextPowerOfTwo (v : UInt32) (h : v.toNat ≤ 2 ^ 31) :
    LeastPowerOfTwo (max v.toNat 2) (nextPowerOfTwo v).toNat := by
  rcases Nat.lt_or_ge 2 v.toNat with hlt | hge
  · rw [toNat_nextPowerOfTwo hlt h, Nat.max_eq_left (Nat.le_of_lt hlt)]
    refine ⟨⟨_, rfl⟩, ?_, fun k hk => ?_⟩
    · have hsize := Nat.lt_size_self (v.toNat - 1)
      omega
    · exact lt_two_pow_iff_size.mp (by omega)
  · have hsmall : v ≤ 2 := UInt32.le_iff_toNat_le.mpr hge
    rw [nextPowerOfTwo, if_pos hsmall, Nat.max_eq_right hge]
    exact ⟨⟨1, rfl⟩, Nat.le_refl _, fun k hk => hk⟩

end LimbWorker
