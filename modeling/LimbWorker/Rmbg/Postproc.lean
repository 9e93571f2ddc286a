import LimbWorker.Lib.Grid
import LimbWorker.Lib.IntExpr
import LimbWorker.Lib.Raster
import Mathlib.Algebra.Order.Floor.Ring

/-!
# `rmbg_postproc.comp`

The shader that puts the colour of a picture and the mask together. Its three addresses have three strides: the
channels of the input, the width of the mask and the channels of the output. They are computed in `int`.
-/

namespace LimbWorker.Rmbg

open Lib

/-- The push constants. -/
structure PostprocParameter where
  w : Int
  h : Int
  cstep : Int
  mask_w : Int
  mask_h : Int
  in_channels : Int
  channels : Int

namespace PostprocParameter

variable (p : PostprocParameter) (g : GridPoint)

/-- `index`. -/
def index : IntExpr := g.gy * p.w + g.gx

/-- Where a colour is read. -/
def colourIndex : IntExpr := p.index g * p.in_channels + g.gz

/-- Where the mask is read. -/
def maskIndex : IntExpr :=
  let mx : IntExpr := g.gx * p.mask_w / p.w
  let my : IntExpr := g.gy * p.mask_h / p.h
  my * p.mask_w + mx

/-- Where the result is stored. -/
def topIndex : IntExpr := p.index g * p.channels + g.gz

end PostprocParameter

variable {K : Type} [Field K] [LinearOrder K] [FloorRing K]

/-- `main`. `uint` is the conversion of the shading language. -/
def postproc (uint : Int → Nat) (p : PostprocParameter) (bottom_blob_data : Int → UInt8)
    (mask_blob_data : Int → K) (g : GridPoint) : List (Int × UInt8) :=
  if g.gx ≥ p.w ∨ g.gy ≥ p.h ∨ g.gz ≥ 4 then []
  else
    let v : Nat :=
      if g.gz = 3 then uint ⌊mask_blob_data (p.maskIndex g).value * (255 : Nat)⌋
      else (bottom_blob_data (p.colourIndex g).value).toNat
    [((p.topIndex g).value, UInt8.ofNat v)]

/-- **What an invocation stores**. -/
theorem mem_postproc {uint : Int → Nat} {p : PostprocParameter} {bottom : Int → UInt8} {mask : Int → K}
    {g : GridPoint} {a : Int} {b : UInt8} :
    (a, b) ∈ postproc uint p bottom mask g ↔
      (g.gx < p.w ∧ g.gy < p.h ∧ g.gz < 4) ∧ a = (p.topIndex g).value ∧
        b = UInt8.ofNat (if g.gz = 3 then uint ⌊mask (p.maskIndex g).value * (255 : Nat)⌋
          else (bottom (p.colourIndex g).value).toNat) := by
  unfold postproc
  split
  · next hout =>
    simp only [List.not_mem_nil, false_iff]
    omega
  · next hin =>
    have hbounds : g.gx < p.w ∧ g.gy < p.h ∧ g.gz < 4 := by omega
    simp [hbounds]

/-! ## Addresses that do not wrap -/

/-- The point belongs to a picture of these dimensions. -/
structure InPicture (w h : Int) (g : GridPoint) : Prop where
  gx : 0 ≤ g.gx ∧ g.gx < w
  gy : 0 ≤ g.gy ∧ g.gy < h
  gz : 0 ≤ g.gz ∧ g.gz < 4

theorem InPicture.mk' {w h x y k : Int} (hx : 0 ≤ x ∧ x < w) (hy : 0 ≤ y ∧ y < h)
    (hk : 0 ≤ k ∧ k < 4) : InPicture w h ⟨x, y, k⟩ := ⟨hx, hy, hk⟩

/-- A picture whose four channels can be counted by an `int`. -/
structure Countable (w h : Int) : Prop where
  w_pos : 1 ≤ w
  h_pos : 1 ≤ h
  bytes : 4 * (w * h) < 2 ^ 31

variable {p : PostprocParameter} {g : GridPoint}

/-- The row-major address of a pixel. -/
theorem index_spec (hsize : Countable p.w p.h) (hg : InPicture p.w p.h g) :
    (p.index g).NoWrap ∧ (p.index g).exact = g.gy * p.w + g.gx ∧
      0 ≤ (p.index g).exact ∧ (p.index g).exact < p.w * p.h := by
  have hw := hsize.w_pos
  have hbytes := hsize.bytes
  have hindex : 0 ≤ g.gy * p.w + g.gx ∧ g.gy * p.w + g.gx < p.w * p.h :=
    (plane_mem_iff hg.gx).mpr hg.gy
  have hrow : 0 ≤ g.gy * p.w := Int.mul_nonneg hg.gy.1 (by omega)
  refine ⟨⟨⟨trivial, trivial, ?_⟩, trivial, ?_⟩, rfl, hindex⟩
  · show IsInt32 (g.gy * p.w)
    exact ⟨by omega, by have := hg.gx.1; omega⟩
  · show IsInt32 (g.gy * p.w + g.gx)
    exact ⟨by omega, by omega⟩

/-- The address of a byte of a pixel, with up to four of them. -/
theorem interleaved_spec (hsize : Countable p.w p.h) (hg : InPicture p.w p.h g) {channels : Int}
    (hchannels : 1 ≤ channels ∧ channels ≤ 4) :
    (p.index g * channels + g.gz).NoWrap ∧
      (p.index g * channels + g.gz).value = (g.gy * p.w + g.gx) * channels + g.gz := by
  obtain ⟨hnoWrap, hexact, hnonneg, hlt⟩ := index_spec hsize hg
  have hbytes := hsize.bytes
  have hgz := hg.gz
  rw [hexact] at hnonneg hlt
  have hmul : 0 ≤ (g.gy * p.w + g.gx) * channels := Int.mul_nonneg hnonneg (by omega)
  have hle : (g.gy * p.w + g.gx) * channels ≤ (g.gy * p.w + g.gx) * 4 :=
    Int.mul_le_mul_of_nonneg_left hchannels.2 hnonneg
  have h : (p.index g * channels + g.gz).NoWrap := by
    refine ⟨⟨hnoWrap, trivial, ?_⟩, trivial, ?_⟩
    · show IsInt32 ((p.index g).exact * channels)
      rw [hexact]
      exact ⟨by omega, by omega⟩
    · show IsInt32 ((p.index g).exact * channels + g.gz)
      rw [hexact]
      exact ⟨by omega, by omega⟩
  exact ⟨h, IntExpr.value_of_noWrap _ h⟩

/-- Scaling a coordinate to the mask. -/
theorem scaled_spec {x n : Int} (hx : 0 ≤ x ∧ x < n) (hn : n ≤ 2 ^ 21) :
    (x * 1024 / n : IntExpr).NoWrap ∧ (x * 1024 / n : IntExpr).exact = x * 1024 / n ∧
      0 ≤ x * 1024 / n ∧ x * 1024 / n < 1024 := by
  have hdiv : (x * 1024).tdiv n = x * 1024 / n := Int.tdiv_eq_ediv_of_nonneg (by omega)
  have hnonneg : 0 ≤ x * 1024 / n := Int.ediv_nonneg (by omega) (by omega)
  have hlt : x * 1024 / n < 1024 := by
    rw [Int.ediv_lt_iff_lt_mul (by omega)]
    omega
  refine ⟨⟨⟨trivial, trivial, ?_⟩, trivial, ?_⟩, hdiv, hnonneg, hlt⟩
  · show IsInt32 (x * 1024)
    exact ⟨by omega, by omega⟩
  · show IsInt32 ((x * 1024).tdiv n)
    rw [hdiv]
    exact ⟨by omega, by omega⟩

/-- **Where the mask is read**, if scaling does not wrap. -/
theorem maskIndex_spec (hmask : p.mask_w = 1024 ∧ p.mask_h = 1024) (hg : InPicture p.w p.h g)
    (hw : p.w ≤ 2 ^ 21) (hh : p.h ≤ 2 ^ 21) :
    (p.maskIndex g).value = g.gy * 1024 / p.h * 1024 + g.gx * 1024 / p.w ∧
      0 ≤ (p.maskIndex g).value ∧ (p.maskIndex g).value < 1024 * 1024 := by
  obtain ⟨hx, hxexact, hx0, hx1⟩ := scaled_spec hg.gx hw
  obtain ⟨hy, hyexact, hy0, hy1⟩ := scaled_spec hg.gy hh
  have hexact : (p.maskIndex g).exact = g.gy * 1024 / p.h * 1024 + g.gx * 1024 / p.w := by
    show (g.gy * p.mask_h).tdiv p.h * p.mask_w + (g.gx * p.mask_w).tdiv p.w = _
    rw [hmask.1, hmask.2]
    exact congrArg₂ (fun y x => y * 1024 + x) hyexact hxexact
  have hnoWrap : (p.maskIndex g).NoWrap := by
    unfold PostprocParameter.maskIndex
    rw [hmask.1, hmask.2]
    refine ⟨⟨hy, trivial, ?_⟩, hx, ?_⟩
    · show IsInt32 ((g.gy * 1024 / p.h : IntExpr).exact * 1024)
      rw [hyexact]
      exact ⟨by omega, by omega⟩
    · show IsInt32 ((g.gy * 1024 / p.h : IntExpr).exact * 1024 + (g.gx * 1024 / p.w : IntExpr).exact)
      rw [hyexact, hxexact]
      exact ⟨by omega, by omega⟩
  rw [IntExpr.value_of_noWrap _ hnoWrap, hexact]
  exact ⟨rfl, by omega, by omega⟩

/-! ## Scaling that wraps -/

/-- At coordinate `2 ^ 21` the product with the size of the mask wraps. -/
theorem scaled_wrapped {n : Int} (hn : 2 ^ 21 < n) (hlt : n < 2 ^ 31) :
    -1024 ≤ (((2 ^ 21 : Int) : IntExpr) * 1024 / n : IntExpr).value ∧
      (((2 ^ 21 : Int) : IntExpr) * 1024 / n : IntExpr).value < 0 := by
  have hwrapped : int32 (2 ^ 21 * 1024) = -2 ^ 31 := by decide
  have hquotient : (-2 ^ 31 : Int).tdiv n = -(2 ^ 31 / n) := by
    rw [Int.neg_tdiv, Int.tdiv_eq_ediv_of_nonneg (by decide)]
  have hle : 2 ^ 31 / n ≤ 1024 := Int.ediv_le_of_le_mul (by omega) (by omega)
  have hpos : 1 ≤ 2 ^ 31 / n := (Int.le_ediv_iff_mul_le (by omega)).mpr (by omega)
  show -1024 ≤ int32 ((int32 (2 ^ 21 * 1024)).tdiv n) ∧ int32 ((int32 (2 ^ 21 * 1024)).tdiv n) < 0
  rw [hwrapped, hquotient, int32_eq_self_iff.mpr ⟨by omega, by omega⟩]
  omega

/-- Coordinate `0` is scaled to `0`. -/
theorem scaled_zero (n : Int) : (((0 : Int) : IntExpr) * 1024 / n : IntExpr).value = 0 := by
  show int32 ((int32 (0 * 1024)).tdiv n) = 0
  rw [Int.zero_mul, show int32 0 = 0 from rfl, Int.zero_tdiv]
  rfl

/-- In a picture that is too wide, the mask is read in front of its first row. -/
theorem maskIndex_of_wide (hmask : p.mask_w = 1024 ∧ p.mask_h = 1024) (hw : 2 ^ 21 < p.w)
    (hlt : p.w < 2 ^ 31) : (p.maskIndex ⟨2 ^ 21, 0, 3⟩).value < 0 := by
  obtain ⟨hle, hneg⟩ := scaled_wrapped hw hlt
  have hzero := scaled_zero p.h
  unfold PostprocParameter.maskIndex
  rw [hmask.1, hmask.2]
  show int32 (int32 ((((0 : Int) : IntExpr) * 1024 / p.h : IntExpr).value * 1024) +
    (((2 ^ 21 : Int) : IntExpr) * 1024 / p.w : IntExpr).value) < 0
  rw [hzero, Int.zero_mul, show int32 0 = 0 from rfl, Int.zero_add,
    int32_eq_self_iff.mpr ⟨by omega, by omega⟩]
  exact hneg

/-- In one that is too high, too. -/
theorem maskIndex_of_high (hmask : p.mask_w = 1024 ∧ p.mask_h = 1024) (hh : 2 ^ 21 < p.h)
    (hlt : p.h < 2 ^ 31) : (p.maskIndex ⟨0, 2 ^ 21, 3⟩).value < 0 := by
  obtain ⟨hle, hneg⟩ := scaled_wrapped hh hlt
  have hzero := scaled_zero p.w
  unfold PostprocParameter.maskIndex
  rw [hmask.1, hmask.2]
  show int32 (int32 ((((2 ^ 21 : Int) : IntExpr) * 1024 / p.h : IntExpr).value * 1024) +
    (((0 : Int) : IntExpr) * 1024 / p.w : IntExpr).value) < 0
  rw [hzero, Int.add_zero, int32_eq_self_iff.mpr (isInt32_int32 _),
    int32_eq_self_iff.mpr ⟨by omega, by omega⟩]
  omega

end LimbWorker.Rmbg
