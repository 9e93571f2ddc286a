import Mathlib.Algebra.Order.Ring.Int
import Mathlib.Tactic.Linarith

/-!
# Expressions of a 32-bit `int`

C and shader languages compute in `int`: every operation is cut down to 32 bits before the next one uses its
result, and only the last result is converted to something wider. `IntExpr` is such an expression as it is
written. `exact` is its value as an integer, `value` what is computed, and the two agree where no intermediate
result wraps (`value_of_noWrap`).

In a product of positive factors the whole is larger than its parts, so that nothing wraps as soon as the whole
fits: these are the expressions with `PartsFit`.
-/

namespace LimbWorker.Lib

/-! ## The values of an `int` -/

/-- What an `int` holds of `x`. -/
def int32 (x : Int) : Int := x.bmod (2 ^ 32)

/-- `x` is a value of an `int`. -/
def IsInt32 (x : Int) : Prop := -2 ^ 31 ≤ x ∧ x < 2 ^ 31

instance : DecidablePred IsInt32 := fun _ => inferInstanceAs (Decidable (_ ∧ _))

/-- Conversion to a 64-bit unsigned integer. -/
def uint64 (x : Int) : Nat := (x % 2 ^ 64).toNat

variable {x y : Int}

theorem isInt32_int32 (x : Int) : IsInt32 (int32 x) := by
  have hle := Int.le_bmod (x := x) (m := 2 ^ 32) (by decide)
  have hlt := Int.bmod_lt (x := x) (m := 2 ^ 32) (by decide)
  unfold IsInt32 int32
  omega

/-- A value of an `int` is held as it is, and no other integer is. -/
theorem int32_eq_self_iff : int32 x = x ↔ IsInt32 x := by
  constructor
  · intro h
    exact h ▸ isInt32_int32 x
  · rintro ⟨hle, hlt⟩
    exact Int.bmod_eq_of_le (by omega) (by omega)

/-- Cutting down a factor first changes nothing. -/
@[simp] theorem int32_int32_mul (x y : Int) : int32 (int32 x * y) = int32 (x * y) := Int.bmod_mul_bmod

/-- From the lower half of the range on, an `int` holds what is left after division. -/
theorem int32_eq_emod (h : x % 2 ^ 32 < 2 ^ 31) : int32 x = x % 2 ^ 32 :=
  Int.bmod_eq_emod_of_lt (by omega)

/-- In the upper half, it holds a negative number. -/
theorem int32_neg (h : 2 ^ 31 ≤ x % 2 ^ 32) : int32 x < 0 := by
  have hlt := Int.emod_lt_of_pos x (show (0 : Int) < 2 ^ 32 by decide)
  have hself : int32 (x % 2 ^ 32) = int32 x := Int.emod_bmod x (2 ^ 32)
  have hwrapped : int32 (x % 2 ^ 32 - 2 ^ 32) = x % 2 ^ 32 - 2 ^ 32 :=
    int32_eq_self_iff.mpr ⟨by omega, by omega⟩
  have hshift : int32 (x % 2 ^ 32 - 2 ^ 32) = int32 (x % 2 ^ 32) := by
    have h := Int.sub_mul_bmod_self_right (x % 2 ^ 32) 1 (2 ^ 32)
    rw [Int.one_mul] at h
    exact h
  omega

theorem uint64_of_nonneg (h : 0 ≤ x) (hlt : x < 2 ^ 63) : (uint64 x : Int) = x := by
  unfold uint64
  omega

/-- A negative number becomes a very large one. -/
theorem le_uint64_of_neg (h : x < 0) (hle : -2 ^ 63 ≤ x) : 2 ^ 63 ≤ uint64 x := by
  unfold uint64
  omega

/-! ## Expressions -/

/-- An operation of an `int`; division cuts off towards zero. -/
inductive IntOp where
  | add
  | sub
  | mul
  | div
  | min
  | max
  deriving DecidableEq, Repr

/-- The operation on integers. -/
def IntOp.exact : IntOp → Int → Int → Int
  | .add, x, y => x + y
  | .sub, x, y => x - y
  | .mul, x, y => x * y
  | .div, x, y => x.tdiv y
  | .min, x, y => Min.min x y
  | .max, x, y => Max.max x y

/-- An expression over variables and literals that are values of an `int` already. -/
inductive IntExpr where
  | val (x : Int)
  | op (o : IntOp) (a b : IntExpr)
  deriving DecidableEq, Repr

namespace IntExpr

instance : Coe Int IntExpr := ⟨val⟩
instance {n : Nat} : OfNat IntExpr n := ⟨val n⟩
instance : Add IntExpr := ⟨op .add⟩
instance : Sub IntExpr := ⟨op .sub⟩
instance : Mul IntExpr := ⟨op .mul⟩
instance : Div IntExpr := ⟨op .div⟩
instance : Min IntExpr := ⟨op .min⟩
instance : Max IntExpr := ⟨op .max⟩

/-- The value as an integer. -/
def exact : IntExpr → Int
  | val x => x
  | op o a b => o.exact a.exact b.exact

/-- The value that is computed. -/
def value : IntExpr → Int
  | val x => x
  | op o a b => int32 (o.exact a.value b.value)

/-- No operation has a result that an `int` cannot hold. -/
def NoWrap : IntExpr → Prop
  | val _ => True
  | op o a b => a.NoWrap ∧ b.NoWrap ∧ IsInt32 (o.exact a.exact b.exact)

variable {a b : IntExpr}

@[simp] theorem exact_val (x : Int) : (val x).exact = x := rfl

/-- Where nothing wraps, the exact value is computed. -/
theorem value_of_noWrap (e : IntExpr) (h : e.NoWrap) : e.value = e.exact := by
  induction e with
  | val x => rfl
  | op o a b iha ihb =>
      obtain ⟨ha, hb, hfits⟩ := h
      rw [value, iha ha, ihb hb, int32_eq_self_iff.mpr hfits]
      rfl

/-- A product of values. -/
theorem value_mul_val (a : IntExpr) (x : Int) : (a * val x).value = int32 (a.value * x) := rfl

/-- Nothing wraps in the expression if its exact value fits. -/
def PartsFit (e : IntExpr) : Prop := IsInt32 e.exact → e.NoWrap

theorem partsFit_val (x : Int) : (val x).PartsFit := fun _ => trivial

/-- A product of positive expressions is at least as large as each of them. -/
theorem PartsFit.mul (ha : a.PartsFit) (hb : b.PartsFit) (hapos : 1 ≤ a.exact) (hbpos : 1 ≤ b.exact) :
    (a * b).PartsFit := by
  intro hfits
  have hlt : a.exact * b.exact < 2 ^ 31 := hfits.2
  have hale : a.exact ≤ a.exact * b.exact := le_mul_of_one_le_right (by omega) hbpos
  have hble : b.exact ≤ a.exact * b.exact := le_mul_of_one_le_left (by omega) hapos
  exact ⟨ha ⟨by omega, by omega⟩, hb ⟨by omega, by omega⟩, hfits⟩

/-- So is the product with a positive factor of one that may be zero. -/
theorem PartsFit.mul_val (ha : a.PartsFit) (hnonneg : 0 ≤ a.exact) (hx : 1 ≤ x) :
    (a * val x).PartsFit := by
  intro hfits
  have hlt : a.exact * x < 2 ^ 31 := hfits.2
  have hale : a.exact ≤ a.exact * x := le_mul_of_one_le_right hnonneg hx
  exact ⟨ha ⟨by omega, by omega⟩, trivial, hfits⟩

end IntExpr

end LimbWorker.Lib
