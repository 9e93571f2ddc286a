import LimbWorker.Lib.Grid
import LimbWorker.Lib.Raster
import Mathlib.Algebra.Order.Floor.Ring
import Mathlib.Algebra.Field.Defs

/-!
# The shaders

`realesrgan_preproc.comp` and `realesrgan_postproc.comp`, compiled with `NCNN_int8_storage`, one
invocation at a time. An invocation reads its input buffers and gives the stores that it performs.
Values are those of an ordered field: there is no rounding to 16 or 32 bits.
-/

namespace LimbWorker.Realesrgan

open Lib

/-! ## `realesrgan_preproc.comp` -/

/-- The push constants of the preprocessing. -/
structure PreprocParameter where
  w : Int
  h : Int
  cstep : Int
  outw : Int
  outh : Int
  outcstep : Int
  pad_top : Int
  pad_left : Int
  crop_x : Int
  crop_y : Int
  channels : Int
  alphaw : Int
  alphah : Int

/-- The buffers that the preprocessing writes. -/
inductive PreprocBlob where
  | top
  | alpha
  deriving DecidableEq, Repr

/-- The byte of a pixel that a colour channel, or the alpha channel, is kept in. -/
def byteOf (bgr gz : Int) : Int := if bgr = 1 ∧ gz ≠ 3 then 2 - gz else gz

/-- The channels of a pixel have bytes of their own. -/
theorem byteOf_inj (bgr : Int) {gz gz' : Int} (hgz : 0 ≤ gz ∧ gz < 4) (hgz' : 0 ≤ gz' ∧ gz' < 4)
    (h : byteOf bgr gz = byteOf bgr gz') : gz = gz' := by
  unfold byteOf at h
  split at h <;> split at h <;> omega

/-- They are bytes of the pixel. -/
theorem byteOf_mem (bgr : Int) {gz channels : Int} (hchannels : channels = 3 ∨ channels = 4)
    (hgz : 0 ≤ gz ∧ gz < channels) : 0 ≤ byteOf bgr gz ∧ byteOf bgr gz < channels := by
  unfold byteOf
  split <;> omega

section

variable {K : Type} [Field K]

/-- `v * norm_val`. -/
def normalise (v : K) : K :=
  let norm_val : K := 1 / 255
  v * norm_val

/-- `v * denorm_val`. -/
def denormalise (v : K) : K :=
  let denorm_val : K := 255
  v * denorm_val

/-- `main` of the preprocessing. -/
def preproc (bgr : Int) (p : PreprocParameter) (bottom_blob_data : Int → UInt8) (g : GridPoint) :
    List ((PreprocBlob × Int) × K) :=
  let gx := g.gx
  let gy := g.gy
  let gz := g.gz
  if gx ≥ p.outw ∨ gy ≥ p.outh ∨ gz ≥ p.channels then []
  else
    let x := |gx + p.crop_x - p.pad_left|
    let y := |gy + p.crop_y - p.pad_top|
    let x := (p.w - 1) - |x - (p.w - 1)|
    let y := (p.h - 1) - |y - (p.h - 1)|
    let v_offset := y * p.w + x
    let v : K := (bottom_blob_data (v_offset * p.channels + byteOf bgr gz)).toNat
    if gz = 3 then
      let gx := gx - p.pad_left
      let gy := gy - p.pad_top
      if gx ≥ 0 ∧ gx < p.alphaw ∧ gy ≥ 0 ∧ gy < p.alphah then
        [((.alpha, gy * p.alphaw + gx), v)]
      else []
    else
      [((.top, gz * p.outcstep + gy * p.outw + gx), normalise v)]

/-- **What an invocation stores in the tile image**: the pixel that the reflection gives. -/
theorem mem_preproc_top {bgr : Int} {p : PreprocParameter} {data : Int → UInt8} {g : GridPoint}
    {a : Int} {v : K} :
    ((.top, a), v) ∈ preproc bgr p data g ↔
      (g.gx < p.outw ∧ g.gy < p.outh ∧ g.gz < p.channels) ∧ g.gz ≠ 3 ∧
        a = g.gz * p.outcstep + g.gy * p.outw + g.gx ∧
        v = normalise ((data ((reflect p.h (g.gy + p.crop_y - p.pad_top) * p.w +
          reflect p.w (g.gx + p.crop_x - p.pad_left)) * p.channels + byteOf bgr g.gz)).toNat : K) := by
  unfold preproc
  dsimp only
  split
  · next hout =>
    simp only [List.not_mem_nil, false_iff]
    omega
  · next hin =>
    have hbounds : g.gx < p.outw ∧ g.gy < p.outh ∧ g.gz < p.channels := by omega
    split
    · next hgz =>
      split <;> simp [hgz]
    · next hgz =>
      simp [hbounds, hgz, reflect]

end

/-! ## `realesrgan_postproc.comp` -/

/-- The push constants of the postprocessing. -/
structure PostprocParameter where
  w : Int
  h : Int
  cstep : Int
  outw : Int
  outh : Int
  outcstep : Int
  offset_x : Int
  gx_max : Int
  crop_x : Int
  crop_y : Int
  channels : Int
  alphaw : Int
  alphah : Int

section

variable {K : Type} [Field K] [LinearOrder K] [FloorRing K]

/-- How a value becomes a byte. `uint` is the conversion of the shading language. -/
def quantise (uint : Int → Nat) (v : K) : UInt8 :=
  let clip_eps : K := 1 / 2
  let v := v + clip_eps
  let v32 := min (max (uint ⌊v⌋) 0) 255
  UInt8.ofNat v32

/-- `v + clip_eps`. -/
def clip (v : K) : K :=
  let clip_eps : K := 1 / 2
  v + clip_eps

/-- `main` of the postprocessing. -/
def postproc (uint : Int → Nat) (bgr : Int) (p : PostprocParameter)
    (bottom_blob_data alpha_blob_data : Int → K) (g : GridPoint) : List (Int × UInt8) :=
  let gx := g.gx
  let gy := g.gy
  let gz := g.gz
  if gx ≥ p.gx_max ∨ gy ≥ p.outh ∨ gz ≥ p.channels then []
  else
    let v : K :=
      if gz = 3 then alpha_blob_data (gy * p.alphaw + gx)
      else denormalise
        (bottom_blob_data (gz * p.cstep + (gy + p.crop_y) * p.w + gx + p.crop_x))
    let v_offset := gy * p.outw + gx + p.offset_x
    [(v_offset * p.channels + byteOf bgr gz, quantise uint v)]

/-- **What an invocation stores in the band**: the byte of its channel. -/
theorem mem_postproc {uint : Int → Nat} {bgr : Int} {p : PostprocParameter}
    {bottom alpha : Int → K} {g : GridPoint} {a : Int} {b : UInt8} :
    (a, b) ∈ postproc uint bgr p bottom alpha g ↔
      (g.gx < p.gx_max ∧ g.gy < p.outh ∧ g.gz < p.channels) ∧
        a = (g.gy * p.outw + g.gx + p.offset_x) * p.channels + byteOf bgr g.gz ∧
        b = quantise uint (if g.gz = 3 then alpha (g.gy * p.alphaw + g.gx)
          else denormalise (bottom (g.gz * p.cstep + (g.gy + p.crop_y) * p.w + g.gx + p.crop_x))) := by
  unfold postproc
  dsimp only
  split
  · next hout =>
    simp only [List.not_mem_nil, false_iff]
    omega
  · next hin =>
    have hbounds : g.gx < p.gx_max ∧ g.gy < p.outh ∧ g.gz < p.channels := by omega
    simp [hbounds]

end

end LimbWorker.Realesrgan
