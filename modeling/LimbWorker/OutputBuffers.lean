import LimbWorker.Lib.IntExpr
import LimbWorker.Realesrgan.Processor

/-!
# The sizes and offsets of `process_image`

Every processor allocates the picture that it returns, and Real-ESRGAN points into the input and the output
picture band by band. All of that is computed in `int` and widened afterwards. Each processor here is the list of
those expressions as they are written; `buffers_exact_iff` says for which pictures none of them wraps.
-/

namespace LimbWorker

open Lib Realesrgan

/-- The dimensions that a processor reports, the number of elements it allocates, and the byte offsets that it
adds to the pointers of its input and its output. -/
structure BufferExprs where
  w : IntExpr
  h : IntExpr
  c : IntExpr
  size : IntExpr
  offsets : List IntExpr

/-- As many bytes are allocated as the reported picture has, and every offset is its exact value; nothing wraps on
the way. -/
structure BufferExprs.Exact (buffers : BufferExprs) : Prop where
  noWrap : buffers.w.NoWrap ∧ buffers.h.NoWrap ∧ buffers.c.NoWrap ∧ buffers.size.NoWrap
  allocated : (uint64 buffers.size.value : Int) = buffers.w.value * buffers.h.value * buffers.c.value
  offsets : ∀ offset ∈ buffers.offsets, offset.NoWrap ∧ offset.value = offset.exact

/-! ## The processors -/

/-- `LoopbackProcessor::process_image`. -/
def loopbackBuffers (inimage : ImageInfo) : BufferExprs where
  w := inimage.w
  h := inimage.h
  c := inimage.c
  size := inimage.w * inimage.h * inimage.c
  offsets := []

/-- The offsets of band `yi` in `RealesrganProcessor::process_image`: of the rows that are uploaded, and of those
that are downloaded. -/
def bandOffsets {K : Type} (this : RealesrganProcessor K) (inimage : ImageInfo)
    (yi : Int) : List IntExpr :=
  let in_tile_y0 : IntExpr := max (yi * this.tilesize - this.prepadding) 0
  [in_tile_y0 * inimage.w * inimage.c,
   yi * this.scale * this.tilesize * inimage.w * this.scale * inimage.c]

/-- `RealesrganProcessor::process_image`. -/
def realesrganBuffers {K : Type} (this : RealesrganProcessor K) (inimage : ImageInfo) : BufferExprs where
  w := inimage.w * 4
  h := inimage.h * 4
  c := inimage.c
  size := (inimage.w * 4 : IntExpr) * (inimage.h * 4 : IntExpr) * inimage.c
  offsets := (List.range (this.ytiles inimage).toNat).flatMap fun (yi : Nat) =>
    bandOffsets this inimage yi

/-- `RmbgProcessor::process_image`. -/
def rmbgBuffers (inimage : ImageInfo) : BufferExprs where
  w := inimage.w
  h := inimage.h
  c := 4
  size := inimage.w * inimage.h * 4
  offsets := []

/-- The processors. -/
inductive Processor (K : Type) where
  | Loopback
  | Realesrgan (net : Network K)
  | Rmbg

namespace Processor

variable {K : Type}

/-- What `process_image` computes. -/
def buffers (inimage : ImageInfo) : Processor K → BufferExprs
  | Loopback => loopbackBuffers inimage
  | Realesrgan net => realesrganBuffers (.new net) inimage
  | Rmbg => rmbgBuffers inimage

/-- Pictures whose output can be counted by an `int`. -/
def Countable (inimage : ImageInfo) : Processor K → Prop
  | Loopback => True
  | Realesrgan _ => 16 * (inimage.w * inimage.h * inimage.c) < 2 ^ 31
  | Rmbg => 4 * (inimage.w * inimage.h) < 2 ^ 31

end Processor

/-- The offsets of a band are those of `Processor.lean`, which takes sizes as exact integers. -/
theorem bandOffsets_eq {K : Type} [Field K] [LinearOrder K] [FloorRing K] (this : RealesrganProcessor K)
    (inimage : ImageInfo) (yi : Nat) :
    ∃ upload download : IntExpr, bandOffsets this inimage yi = [upload, download] ∧
      (∀ device, ∃ rows, this.in_gpu device inimage yi =
        .upload inimage.w rows inimage.c upload.exact inimage.data (device.bandMemory yi)) ∧
      ∀ device bgr data, this.processBand device bgr inimage data yi =
        (this.processTiles device bgr inimage yi (this.xtiles inimage).toNat).download inimage.c
          download.exact data :=
  ⟨_, _, rfl, fun _ => ⟨_, rfl⟩, fun _ _ _ => rfl⟩

/-! ## Nothing wraps in a picture that can be counted -/

variable {K : Type} {inimage : ImageInfo}

/-- Allocating a product that does not wrap gives as many bytes as it says. -/
theorem allocated_of_noWrap {size : IntExpr} (h : size.NoWrap) (hfits : IsInt32 size.exact)
    (hnonneg : 0 ≤ size.exact) : (uint64 size.value : Int) = size.exact := by
  rw [size.value_of_noWrap h]
  exact uint64_of_nonneg hnonneg (by unfold IsInt32 at hfits; omega)

/-- The pictures of positive size. -/
structure Proper (inimage : ImageInfo) : Prop where
  w : 1 ≤ inimage.w
  h : 1 ≤ inimage.h
  c : 1 ≤ inimage.c

variable (himage : Proper inimage)

include himage

theorem Proper.bytes_pos : 1 ≤ inimage.w * inimage.h * inimage.c := by
  have hwh : 0 < inimage.w * inimage.h :=
    Int.mul_pos (Int.lt_of_add_one_le himage.w) (Int.lt_of_add_one_le himage.h)
  have h := Int.mul_pos hwh (Int.lt_of_add_one_le himage.c)
  omega

/-- The number of bytes of a picture: three positive factors. -/
theorem partsFit_bytes : (inimage.w * inimage.h * inimage.c : IntExpr).PartsFit := by
  have hw := himage.w
  have hh := himage.h
  have hwh : 0 ≤ inimage.w * inimage.h := Int.mul_nonneg (by omega) (by omega)
  exact (IntExpr.PartsFit.mul_val (IntExpr.partsFit_val inimage.w) (by simp; omega) hh).mul_val hwh
    himage.c

theorem loopback_exact (hbytes : inimage.w * inimage.h * inimage.c < 2 ^ 31) :
    (loopbackBuffers inimage).Exact := by
  have hpos := himage.bytes_pos
  have hfits : IsInt32 (inimage.w * inimage.h * inimage.c) := ⟨by omega, hbytes⟩
  have hnoWrap := partsFit_bytes himage hfits
  refine ⟨⟨trivial, trivial, trivial, hnoWrap⟩, ?_, fun offset h => absurd h List.not_mem_nil⟩
  exact allocated_of_noWrap hnoWrap hfits (by show 0 ≤ inimage.w * inimage.h * inimage.c; omega)

/-- The bytes of the picture that RMBG makes. -/
theorem rmbg_exact_iff :
    (rmbgBuffers inimage).Exact ↔ 4 * (inimage.w * inimage.h) < 2 ^ 31 := by
  have hw := himage.w
  have hh := himage.h
  have hwh : 0 < inimage.w * inimage.h := Int.mul_pos (by omega) (by omega)
  have hexact : (rmbgBuffers inimage).size.exact = inimage.w * inimage.h * 4 := rfl
  constructor
  · intro h
    have hfits : IsInt32 (inimage.w * inimage.h * 4) := h.noWrap.2.2.2.2.2
    have hlt := hfits.2
    omega
  · intro h
    have hfits : IsInt32 (inimage.w * inimage.h * 4) := ⟨by omega, by omega⟩
    have hnoWrap : (rmbgBuffers inimage).size.NoWrap :=
      (IntExpr.PartsFit.mul_val (IntExpr.partsFit_val inimage.w) (by simp; omega) hh).mul_val
        hwh.le (show (1 : Int) ≤ 4 by decide) hfits
    refine ⟨⟨trivial, trivial, trivial, hnoWrap⟩, ?_, fun offset h => absurd h List.not_mem_nil⟩
    exact allocated_of_noWrap hnoWrap hfits (by omega)

/-- The bytes of the picture that Real-ESRGAN makes. -/
theorem realesrgan_size (this : RealesrganProcessor K) :
    (realesrganBuffers this inimage).size.exact = 16 * (inimage.w * inimage.h * inimage.c) ∧
      (realesrganBuffers this inimage).size.PartsFit := by
  have hw := himage.w
  have hh := himage.h
  refine ⟨?_, ?_⟩
  · show inimage.w * 4 * (inimage.h * 4) * inimage.c = _
    ring
  · have hw4 : 1 ≤ inimage.w * 4 := by omega
    have hh4 : 1 ≤ inimage.h * 4 := by omega
    have hwide : ((inimage.w : IntExpr) * 4).PartsFit :=
      (IntExpr.partsFit_val inimage.w).mul_val (by simp; omega) (show (1 : Int) ≤ 4 by decide)
    have hhigh : ((inimage.h : IntExpr) * 4).PartsFit :=
      (IntExpr.partsFit_val inimage.h).mul_val (by simp; omega) (show (1 : Int) ≤ 4 by decide)
    have hwh : 0 ≤ inimage.w * 4 * (inimage.h * 4) := Int.mul_nonneg (by omega) (by omega)
    exact (hwide.mul hhigh hw4 hh4).mul_val hwh himage.c

/-- The first row of a band is a row of the picture, so its offset is at most the number of bytes. -/
theorem row_offset_le {y : Int} (hy : 0 ≤ y) (hle : y ≤ inimage.h) :
    0 ≤ y * inimage.w * inimage.c ∧
      y * inimage.w * inimage.c ≤ inimage.w * inimage.h * inimage.c := by
  have hw := himage.w
  have hc := himage.c
  have hyw : 0 ≤ y * inimage.w := Int.mul_nonneg hy (by omega)
  have hrow : y * inimage.w ≤ inimage.h * inimage.w := Int.mul_le_mul_of_nonneg_right hle (by omega)
  rw [Int.mul_comm inimage.w]
  exact ⟨Int.mul_nonneg hyw (by omega), Int.mul_le_mul_of_nonneg_right hrow (by omega)⟩

/-- **The offsets of a band** do not wrap in a picture that can be counted after enlarging. -/
theorem bandOffsets_noWrap (net : Network K)
    (hbytes : 16 * (inimage.w * inimage.h * inimage.c) < 2 ^ 31) {yi : Int} (hyi : 0 ≤ yi)
    (hband : yi * 200 ≤ inimage.h) :
    ∀ offset ∈ bandOffsets (.new net) inimage yi, offset.NoWrap := by
  have hw := himage.w
  have hc := himage.c
  -- a row index is at most the number of bytes
  have hh : inimage.h ≤ inimage.w * inimage.h * inimage.c := by
    have hrow : 1 * inimage.h ≤ inimage.w * inimage.h :=
      Int.mul_le_mul_of_nonneg_right hw (by have := himage.h; omega)
    have hwh : inimage.w * inimage.h * 1 ≤ inimage.w * inimage.h * inimage.c :=
      Int.mul_le_mul_of_nonneg_left hc (by have := himage.h; omega)
    omega
  intro offset hoffset
  rcases List.mem_cons.mp hoffset with rfl | hoffset
  · -- where the upload starts
    have hy0 : (max (yi * 200 - 10 : IntExpr) 0).NoWrap := by
      refine ⟨⟨⟨trivial, trivial, ?_⟩, trivial, ?_⟩, trivial, ?_⟩
      · show IsInt32 (yi * 200)
        exact ⟨by omega, by omega⟩
      · show IsInt32 (yi * 200 - 10)
        exact ⟨by omega, by omega⟩
      · show IsInt32 (max (yi * 200 - 10) 0)
        exact ⟨by omega, by omega⟩
    have hrange := row_offset_le himage (y := max (yi * 200 - 10) 0) (by omega) (by omega)
    have hnonneg : 0 ≤ max (yi * 200 - 10) 0 := Int.le_max_right _ _
    have hrow : 0 ≤ max (yi * 200 - 10) 0 * inimage.w := Int.mul_nonneg hnonneg (by omega)
    -- each factor makes the product larger, so the parts fit if the whole does
    have hparts : (max (yi * 200 - 10 : IntExpr) 0 * inimage.w * inimage.c).PartsFit :=
      (IntExpr.PartsFit.mul_val (fun _ => hy0) hnonneg hw).mul_val hrow hc
    exact hparts ⟨by show -2 ^ 31 ≤ max (yi * 200 - 10) 0 * inimage.w * inimage.c; omega,
      by show max (yi * 200 - 10) 0 * inimage.w * inimage.c < 2 ^ 31; omega⟩
  · -- where the download starts
    rw [List.mem_singleton.mp hoffset]
    have hrange := row_offset_le himage (y := yi * 200) (by omega) hband
    have hwhole : yi * 4 * 200 * inimage.w * 4 * inimage.c = 16 * (yi * 200 * inimage.w * inimage.c) := by
      ring
    have hrow : 0 ≤ yi * 4 * 200 * inimage.w := Int.mul_nonneg (by omega) (by omega)
    have hparts : (yi * 4 * 200 * inimage.w * 4 * inimage.c : IntExpr).PartsFit :=
      (((((IntExpr.partsFit_val yi).mul_val hyi (show (1 : Int) ≤ 4 by decide)).mul_val
        (by show 0 ≤ yi * 4; omega) (show (1 : Int) ≤ 200 by decide)).mul_val
        (by show 0 ≤ yi * 4 * 200; omega) hw).mul_val hrow (show (1 : Int) ≤ 4 by decide)).mul_val
        (by show 0 ≤ yi * 4 * 200 * inimage.w * 4; omega) hc
    exact hparts ⟨by show -2 ^ 31 ≤ yi * 4 * 200 * inimage.w * 4 * inimage.c; omega,
      by show yi * 4 * 200 * inimage.w * 4 * inimage.c < 2 ^ 31; omega⟩

theorem realesrgan_exact_iff (net : Network K) :
    (realesrganBuffers (.new net) inimage).Exact ↔
      16 * (inimage.w * inimage.h * inimage.c) < 2 ^ 31 := by
  have hpos := himage.bytes_pos
  obtain ⟨hsize, hparts⟩ := realesrgan_size himage (RealesrganProcessor.new net)
  constructor
  · intro h
    have hfits : IsInt32 (realesrganBuffers (.new net) inimage).size.exact := h.noWrap.2.2.2.2.2
    rw [hsize] at hfits
    exact hfits.2
  · intro h
    have hfits : IsInt32 (realesrganBuffers (.new net) inimage).size.exact := by
      rw [hsize]
      exact ⟨by omega, h⟩
    -- the size is the largest of all expressions, so the others fit too
    have hnoWrap := hparts hfits
    refine ⟨⟨hnoWrap.1.1, hnoWrap.1.2.1, trivial, hnoWrap⟩, ?_, fun offset hoffset => ?_⟩
    · have hw : (realesrganBuffers (.new net) inimage).w.value = inimage.w * 4 :=
        IntExpr.value_of_noWrap _ hnoWrap.1.1
      have hh : (realesrganBuffers (.new net) inimage).h.value = inimage.h * 4 :=
        IntExpr.value_of_noWrap _ hnoWrap.1.2.1
      rw [allocated_of_noWrap hnoWrap hfits (by omega), hw, hh]
      rfl
    · obtain ⟨yi, hyi, hmem⟩ := List.mem_flatMap.mp hoffset
      have hband : (yi : Int) * 200 ≤ inimage.h := by
        have hlt : yi < ((inimage.h + 200 - 1) / 200).toNat := List.mem_range.mp hyi
        omega
      have hoffsetNoWrap := bandOffsets_noWrap himage net h (Int.natCast_nonneg yi) hband offset hmem
      exact ⟨hoffsetNoWrap, offset.value_of_noWrap hoffsetNoWrap⟩

omit himage

/-- **Which pictures are counted without wrapping**: with Loopback all of them; with Real-ESRGAN and RMBG exactly
those whose output has fewer than `2^31` bytes. -/
theorem buffers_exact_iff (processor : Processor K) (inimage : ImageInfo) (himage : Proper inimage)
    (hbytes : inimage.w * inimage.h * inimage.c < 2 ^ 31) :
    (processor.buffers inimage).Exact ↔ processor.Countable inimage := by
  cases processor with
  | Loopback => exact iff_of_true (loopback_exact himage hbytes) trivial
  | Realesrgan net => exact realesrgan_exact_iff himage net
  | Rmbg => exact rmbg_exact_iff himage

/-- A photograph of 96 megapixels. -/
def photograph : ImageInfo := ⟨12000, 8000, 3, fun _ => 0⟩

/-- Any network. -/
def identity : Network Int := ⟨id⟩

/-- Its own bytes can be counted, those of its enlargement cannot. -/
theorem photograph_not_exact :
    photograph.w * photograph.h * photograph.c < 2 ^ 31 ∧
      ¬ ((Processor.Realesrgan identity).buffers photograph).Exact := by
  refine ⟨by decide, fun h => ?_⟩
  exact absurd h.noWrap.2.2.2.2.2 (by decide)

/-- The background of the same photograph can be removed. -/
theorem photograph_rmbg_iff :
    ((Processor.Rmbg : Processor Int).buffers photograph).Exact ↔
      (Processor.Rmbg : Processor Int).Countable photograph :=
  buffers_exact_iff .Rmbg photograph ⟨by decide, by decide, by decide⟩ (by decide)

end LimbWorker
