import LimbWorker.Realesrgan.Tta

/-!
# What the preprocessing reads

An invocation reads one element of the uploaded band: the reflected position of its point. Two reflections
are enough when what hangs over the band is shorter than the band. The band is at least eleven rows high
unless it is the whole of a low image, and it is as wide as the image, so the reads stay inside just when
the image is larger than the prepadding, in both directions.
-/

namespace LimbWorker.Realesrgan

open Lib

section

variable {K V : Type} [Field K] {S : Storage K V}
  {tops : PreprocParameter → Int → Int → Int → List (Fin 8 × Int)} {p : PreprocParameter}
  {g : GridPoint} {image : ImageInfo} {bgr : Int}

/-! ## The element that is read -/

/-- `x` after the two reflections. -/
def sourceX (p : PreprocParameter) (g : GridPoint) : Int :=
  let x := |g.gx + p.crop_x - p.pad_left|
  (p.w - 1) - |x - (p.w - 1)|

/-- `y` after the two reflections. -/
def sourceY (p : PreprocParameter) (g : GridPoint) : Int :=
  let y := |g.gy + p.crop_y - p.pad_top|
  (p.h - 1) - |y - (p.h - 1)|

/-- The index into `bottom_blob_data`. -/
def sourceIndex (S : Storage K V) (p : PreprocParameter) (g : GridPoint) : Int :=
  S.cell p.w p.cstep p.channels g.gz (sourceY p g) (sourceX p g)

/-- **Nothing else is read**: of two bands with the same element there, an invocation makes the same. -/
theorem preprocMain_congr {data data' : Int → V}
    (hdata : data (sourceIndex S p g) = data' (sourceIndex S p g)) :
    preprocMain S tops p data g = preprocMain S tops p data' g := by
  unfold sourceIndex sourceX sourceY at hdata
  unfold preprocMain
  dsimp only at hdata ⊢
  rw [hdata]

/-- The number of elements of an image with 8-bit storage. -/
def interleavedElements (m : VkMat V) (channels : Int) : Int := m.w * m.h * channels

/-- The number of elements of an image without it: a plane may be longer than its pixels. -/
def planarElements (m : VkMat V) (channels : Int) : Int := channels * m.cstep

namespace FullProcessor

/-- All reads of the preprocessing, for every tile, stay inside the band. -/
def PreprocReadsInside (this : FullProcessor K) (machine : Machine K V) (S : Storage K V)
    (elements : VkMat V → Int → Int) (image : ImageInfo) : Prop :=
  ∀ yi xi : Nat, yi < this.toRealesrganProcessor.ytiles image →
    xi < this.toRealesrganProcessor.xtiles image →
      let in_gpu := this.in_gpu machine S image yi
      let p := this.preprocConstants machine S image yi xi
      ∀ g ∈ grid p.outw p.outh p.channels,
        (0 ≤ sourceX p g ∧ sourceX p g < in_gpu.w) ∧ (0 ≤ sourceY p g ∧ sourceY p g < in_gpu.h) ∧
          0 ≤ sourceIndex S p g ∧ sourceIndex S p g < elements in_gpu image.c

/-! ## Large images -/

variable {net : Network K} {tta : Bool} {machine : Machine K V} {yi xi : Nat}

theorem in_gpu_w (hS : S.Lawful bgr) (hc : image.c = 3 ∨ image.c = 4) :
    ((new net tta).in_gpu machine S image yi).w = image.w := hS.upload_w hc

theorem in_gpu_h (hS : S.Lawful bgr) (hc : image.c = 3 ∨ image.c = 4) :
    ((new net tta).in_gpu machine S image yi).h =
      min (((yi : Int) + 1) * 200 + 10) image.h - max ((yi : Int) * 200 - 10) 0 := hS.upload_h hc

/-- The position that an invocation reads, for an image larger than the prepadding. -/
theorem source_mem (hS : S.Lawful bgr) (hw : 10 < image.w) (hh : 10 < image.h)
    (hc : image.c = 3 ∨ image.c = 4) (hyi : yi * 200 < image.h)
    (hgx : 0 ≤ g.gx ∧ g.gx < min (((xi : Int) + 1) * 200) image.w + 10 - (xi * 200 - 10))
    (hgy : 0 ≤ g.gy ∧ g.gy < min (((yi : Int) + 1) * 200) image.h + 10 - (yi * 200 - 10)) :
    let in_gpu := (new net tta).in_gpu machine S image yi
    let p := (new net tta).preprocConstants machine S image yi xi
    (0 ≤ sourceX p g ∧ sourceX p g < in_gpu.w) ∧ 0 ≤ sourceY p g ∧ sourceY p g < in_gpu.h := by
  intro in_gpu p
  have hcolumn := RealesrganProcessor.reflect_column hw hgx
  have hrow := (RealesrganProcessor.reflect_row hh hyi hgy).1
  have hx : sourceX p g = reflect in_gpu.w (g.gx + xi * 200 - 10) := rfl
  have hy : sourceY p g = reflect in_gpu.h (g.gy + min ((yi : Int) * 200) 10 - 10) := rfl
  rw [hx, hy, in_gpu_w hS hc, in_gpu_h hS hc]
  exact ⟨hcolumn, hrow⟩

/-! ## Small images -/

/-- The last column of the first tile is reflected to a column of the image just when the image is wider
than the prepadding. -/
theorem wide_of_sourceX (hS : S.Lawful bgr) (hc : image.c = 3 ∨ image.c = 4) {gy : Int}
    (h : 0 ≤ sourceX ((new net tta).preprocConstants machine S image 0 0) ⟨image.w + 19, gy, 0⟩ ∧
      sourceX ((new net tta).preprocConstants machine S image 0 0) ⟨image.w + 19, gy, 0⟩ <
        ((new net tta).in_gpu machine S image 0).w) : 10 < image.w := by
  change 0 ≤ reflect ((new net tta).in_gpu machine S image 0).w (image.w + 19 + 0 * 200 - 10) ∧
    reflect ((new net tta).in_gpu machine S image 0).w (image.w + 19 + 0 * 200 - 10) < _ at h
  rw [reflect_mem_iff, in_gpu_w hS hc] at h
  have habs := le_abs_self (image.w + 19 + 0 * 200 - 10)
  omega

/-- So is the last row, just when the image is higher. -/
theorem high_of_sourceY (hS : S.Lawful bgr) (hc : image.c = 3 ∨ image.c = 4) {gx : Int}
    (h : 0 ≤ sourceY ((new net tta).preprocConstants machine S image 0 0) ⟨gx, image.h + 19, 0⟩ ∧
      sourceY ((new net tta).preprocConstants machine S image 0 0) ⟨gx, image.h + 19, 0⟩ <
        ((new net tta).in_gpu machine S image 0).h) : 10 < image.h := by
  change 0 ≤ reflect ((new net tta).in_gpu machine S image 0).h
      (image.h + 19 + min (((0 : Nat) : Int) * 200) 10 - 10) ∧
    reflect ((new net tta).in_gpu machine S image 0).h
      (image.h + 19 + min (((0 : Nat) : Int) * 200) 10 - 10) < _ at h
  rw [reflect_mem_iff, in_gpu_h hS hc] at h
  have habs := le_abs_self (image.h + 19 + min (((0 : Nat) : Int) * 200) 10 - 10)
  omega

omit [Field K] in
/-- Small images have one tile, with these points. -/
theorem point_mem_grid {gx gy : Int} (hc : image.c = 3 ∨ image.c = 4)
    (hgx : 0 ≤ gx ∧ gx < min 200 image.w + 20) (hgy : 0 ≤ gy ∧ gy < min 200 image.h + 20) :
    let p := (new net tta).preprocConstants machine S image 0 0
    (⟨gx, gy, 0⟩ : GridPoint) ∈ grid p.outw p.outh p.channels := by
  intro p
  have houtw : p.outw = min ((((0 : Nat) : Int) + 1) * 200) image.w + 10 - (((0 : Nat) : Int) * 200 - 10) :=
    rfl
  have houth : p.outh = min ((((0 : Nat) : Int) + 1) * 200) image.h + 10 - (((0 : Nat) : Int) * 200 - 10) :=
    rfl
  have hchannels : p.channels = image.c := rfl
  rw [mem_grid, houtw, houth, hchannels]
  dsimp only
  omega

/-! ## Which images are read inside -/

/-- In either storage mode, given that the elements of the pixels are elements of the image. -/
theorem preprocReadsInside_iff (hS : S.Lawful bgr) {elements : VkMat V → Int → Int}
    (hcell : ∀ (yi : Nat) {gz y x : Int},
      let m := (new net tta).in_gpu machine S image yi
      0 ≤ gz ∧ gz < image.c → 0 ≤ y ∧ y < m.h → 0 ≤ x ∧ x < m.w →
        0 ≤ S.cell m.w m.cstep image.c gz y x ∧ S.cell m.w m.cstep image.c gz y x < elements m image.c)
    (hw : 1 ≤ image.w) (hh : 1 ≤ image.h) (hc : image.c = 3 ∨ image.c = 4) :
    (new net tta).PreprocReadsInside machine S elements image ↔ 10 < image.w ∧ 10 < image.h := by
  constructor
  · intro h
    have hxtiles : ((0 : Nat) : Int) < (image.w + 200 - 1) / 200 := by omega
    have hytiles : ((0 : Nat) : Int) < (image.h + 200 - 1) / 200 := by omega
    constructor
    · by_contra hsmall
      -- the last column of the padded tile reads the furthest pixel
      have hpoint := h 0 0 hytiles hxtiles ⟨image.w + 19, 0, 0⟩
        (point_mem_grid hc (by omega) (by omega))
      exact hsmall (wide_of_sourceX hS hc hpoint.1)
    · by_contra hsmall
      -- the last row does
      have hpoint := h 0 0 hytiles hxtiles ⟨0, image.h + 19, 0⟩
        (point_mem_grid hc (by omega) (by omega))
      exact hsmall (high_of_sourceY hS hc hpoint.2.1)
  · rintro ⟨hw', hh'⟩ yi xi hyi hxi in_gpu p g hg
    change (yi : Int) < (image.h + 200 - 1) / 200 at hyi
    obtain ⟨hgx, hgy, hgz⟩ := mem_grid.mp hg
    obtain ⟨hx, hy⟩ := source_mem hS hw' hh' hc (by omega) hgx hgy
    exact ⟨hx, hy, hcell yi hgz hy hx⟩

variable [LinearOrder K] [FloorRing K]

/-- **Which images are read inside**: in both storage modes, with and without TTA, those that are larger than
the prepadding. -/
theorem preproc_reads_inside_iff (net : Network K) (tta : Bool) (gpu : Gpu K) (bicubic : Bicubic K)
    (bgr : Int) (image : ImageInfo) (hw : 1 ≤ image.w) (hh : 1 ≤ image.h)
    (hc : image.c = 3 ∨ image.c = 4) :
    (∀ run : Schedule K UInt8, (new net tta).PreprocReadsInside ⟨gpu, bicubic, run⟩
        (.int8 gpu.uint bgr) interleavedElements image ↔ 10 < image.w ∧ 10 < image.h) ∧
      ∀ run : Schedule K K, (new net tta).PreprocReadsInside ⟨gpu, bicubic, run⟩
        (.float gpu.bandCstep bgr) planarElements image ↔ 10 < image.w ∧ 10 < image.h := by
  constructor
  · intro run
    apply preprocReadsInside_iff (Storage.lawful_int8 gpu.uint bgr) _ hw hh hc
    intro yi gz y x m hgz hy hx
    have hbyte := byteOf_mem bgr hc hgz
    show 0 ≤ (y * m.w + x) * image.c + byteOf bgr gz ∧
      (y * m.w + x) * image.c + byteOf bgr gz < m.w * m.h * image.c
    exact (interleaved_mem_iff hx hbyte).mpr hy
  · intro run
    have hS := Storage.lawful_float (K := K) gpu.le_bandCstep bgr
    apply preprocReadsInside_iff hS _ hw hh hc
    intro yi gz y x m hgz hy hx
    have hcstep : m.cstep = gpu.bandCstep m.w m.h := by
      rw [in_gpu_w hS hc, in_gpu_h hS hc]
      show (Storage.from_pixels _ _ _ _ _ _ _ _).cstep = _
      rw [Storage.from_pixels, if_pos hc]
      rfl
    have hplane := Storage.plane_mem (gpu.le_bandCstep m.w m.h) hy hx
    rw [← hcstep] at hplane
    show 0 ≤ gz * m.cstep + y * m.w + x ∧ gz * m.cstep + y * m.w + x < image.c * m.cstep
    rw [Int.add_assoc, mul_add_nonneg_iff ⟨hplane.1, hplane.2.2⟩, mul_add_lt_iff ⟨hplane.1, hplane.2.2⟩]
    exact hgz

/-- An icon of ten by ten pixels. -/
def icon : ImageInfo := ⟨10, 10, 4, fun _ => 0⟩

/-- Of an icon, an element before the first one is read. -/
theorem icon_reads_outside : ¬ (new nearest.toNetwork false).PreprocReadsInside
    ⟨packedGpu, blackBicubic, plainSchedule 0⟩ (.int8 packedGpu.uint 0) interleavedElements icon := by
  intro h
  have hpoint := h 0 0 (by decide) (by decide) ⟨29, 10, 0⟩
    (point_mem_grid (.inr rfl) (by decide) (by decide))
  exact absurd hpoint.2.2.1 (by decide)

/-- An image of one pixel more each way is read inside. -/
theorem reads_inside_eleven :
    (new nearest.toNetwork false).PreprocReadsInside ⟨packedGpu, blackBicubic, plainSchedule 0⟩
        (.int8 packedGpu.uint 0) interleavedElements ⟨11, 11, 4, fun _ => 0⟩ ↔
      10 < (11 : Int) ∧ 10 < (11 : Int) :=
  (preproc_reads_inside_iff nearest.toNetwork false packedGpu blackBicubic 0 ⟨11, 11, 4, fun _ => 0⟩
    (by decide) (by decide) (.inr rfl)).1 (plainSchedule 0)

end FullProcessor

end

end LimbWorker.Realesrgan
