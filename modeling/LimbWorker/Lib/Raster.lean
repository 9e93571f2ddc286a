import Mathlib.Algebra.Order.Group.Abs
import Mathlib.Algebra.Order.Group.Unbundled.Int
import Mathlib.Algebra.Order.Ring.Int
import Mathlib.Tactic.Ring

/-!
# Rasters

Row-major addresses, and reading beyond the border of an image by reflection. A band of an image that
is reflected at its own ends shows the same pixels as the whole image does, wherever the end of the band
is an end of the image or is not reached.
-/

namespace LimbWorker.Lib

/-! ## Row-major addresses -/

/-- A row-major address tells its row and its column. -/
theorem mul_add_inj {a a' b b' n : Int} (hb : 0 ≤ b ∧ b < n) (hb' : 0 ≤ b' ∧ b' < n)
    (h : a * n + b = a' * n + b') : a = a' ∧ b = b' := by
  have hmod : ∀ c d : Int, 0 ≤ d ∧ d < n → (c * n + d) % n = d := by
    intro c d hd
    rw [Int.add_comm, Int.add_mul_emod_self_right, Int.emod_eq_of_lt hd.1 hd.2]
  have heq : b = b' := by
    rw [← hmod a b hb, h, hmod a' b' hb']
  refine ⟨?_, heq⟩
  have hmul : a * n = a' * n := by omega
  exact Int.eq_of_mul_eq_mul_right (by omega) hmul

/-- The address of a pixel lies below the number of pixels, just when its row is one of the rows. -/
theorem mul_add_lt_iff {a b m n : Int} (hb : 0 ≤ b ∧ b < n) : a * n + b < m * n ↔ a < m := by
  constructor
  · intro h
    by_contra hle
    have hmul : m * n ≤ a * n := Int.mul_le_mul_of_nonneg_right (by omega) (by omega)
    omega
  · intro h
    have hmul : (a + 1) * n ≤ m * n := Int.mul_le_mul_of_nonneg_right (by omega) (by omega)
    rw [Int.add_mul, Int.one_mul] at hmul
    omega

theorem mul_add_nonneg_iff {a b n : Int} (hb : 0 ≤ b ∧ b < n) : 0 ≤ a * n + b ↔ 0 ≤ a := by
  have hlt := mul_add_lt_iff (a := a) (m := 0) hb
  rw [Int.zero_mul] at hlt
  omega

/-- The address of a pixel lies in a plane just when its row is one of the rows. -/
theorem plane_mem_iff {w h y x : Int} (hx : 0 ≤ x ∧ x < w) :
    (0 ≤ y * w + x ∧ y * w + x < w * h) ↔ 0 ≤ y ∧ y < h := by
  rw [Int.mul_comm w, mul_add_nonneg_iff hx, mul_add_lt_iff hx]

/-- So does that of a byte of the pixel, in an image whose pixels have `c` bytes. -/
theorem interleaved_mem_iff {w h c y x k : Int} (hx : 0 ≤ x ∧ x < w) (hk : 0 ≤ k ∧ k < c) :
    (0 ≤ (y * w + x) * c + k ∧ (y * w + x) * c + k < w * h * c) ↔ 0 ≤ y ∧ y < h := by
  rw [mul_add_nonneg_iff hk, mul_add_lt_iff hk, plane_mem_iff hx]

/-- Every address below the number of pixels is that of a row and a column. -/
theorem exists_mul_add {a m n : Int} (hn : 0 < n) (ha : 0 ≤ a ∧ a < m * n) :
    ∃ q r, (0 ≤ q ∧ q < m) ∧ (0 ≤ r ∧ r < n) ∧ q * n + r = a := by
  have hr : 0 ≤ a % n ∧ a % n < n := ⟨Int.emod_nonneg a (by omega), Int.emod_lt_of_pos a hn⟩
  have hsplit : a / n * n + a % n = a := Int.ediv_mul_add_emod a n
  refine ⟨a / n, a % n, ?_, hr, hsplit⟩
  rw [← mul_add_nonneg_iff hr, ← mul_add_lt_iff hr, hsplit]
  exact ha

/-! ## Reflection -/

/-- The pixel that stands for position `t` in a row of `n` pixels, the ends not repeated. -/
def reflect (n t : Int) : Int := (n - 1) - |(|t|) - (n - 1)|

/-- A position beyond an end by less than the length is reflected into the row. -/
theorem reflect_mem {n t : Int} (ht : |t| ≤ 2 * (n - 1)) : 0 ≤ reflect n t ∧ reflect n t < n := by
  unfold reflect
  rcases abs_cases t with ⟨h₁, h₂⟩ | ⟨h₁, h₂⟩ <;>
    rcases abs_cases (|t| - (n - 1)) with ⟨h₃, h₄⟩ | ⟨h₃, h₄⟩ <;> omega

/-- Positions further out are not. -/
theorem reflect_mem_iff {n t : Int} : (0 ≤ reflect n t ∧ reflect n t < n) ↔ |t| ≤ 2 * (n - 1) := by
  refine ⟨fun h => ?_, reflect_mem⟩
  obtain ⟨hnonneg, -⟩ := h
  unfold reflect at hnonneg
  have habs := abs_nonneg t
  rcases abs_cases (|t| - (n - 1)) with ⟨h₁, h₂⟩ | ⟨h₁, h₂⟩ <;> omega

/-- A position in the row stands for itself. -/
theorem reflect_of_mem {n t : Int} (ht : 0 ≤ t ∧ t < n) : reflect n t = t := by
  unfold reflect
  rcases abs_cases t with ⟨h₁, h₂⟩ | ⟨h₁, h₂⟩ <;>
    rcases abs_cases (|t| - (n - 1)) with ⟨h₃, h₄⟩ | ⟨h₃, h₄⟩ <;> omega

/-- **A band shows what the image shows**: reflecting in the rows `a, …, b - 1` gives the same pixel as
reflecting in all `n` rows, if each end of the band that is not an end of the image is out of reach. -/
theorem reflect_band {n a b t : Int} (ha : 0 ≤ a) (hb : b ≤ n) (hstart : a = 0 ∨ a ≤ t)
    (hend : b = n ∨ |t| < b) : a + reflect (b - a) (t - a) = reflect n t := by
  unfold reflect
  rcases abs_cases t with ⟨h₁, h₂⟩ | ⟨h₁, h₂⟩ <;>
    rcases abs_cases (t - a) with ⟨h₃, h₄⟩ | ⟨h₃, h₄⟩ <;>
      rcases abs_cases (|t - a| - (b - a - 1)) with ⟨h₅, h₆⟩ | ⟨h₅, h₆⟩ <;>
        rcases abs_cases (|t| - (n - 1)) with ⟨h₇, h₈⟩ | ⟨h₇, h₈⟩ <;> omega

end LimbWorker.Lib
