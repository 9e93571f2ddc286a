import LimbWorker.Realesrgan.Tiles
import Mathlib.Algebra.BigOperators.Group.List.Basic
import Mathlib.Data.Rat.Floor

/-!
# TTA and symmetric networks

A network that commutes with the symmetries of the rectangle gives the same value for a point under each
of them, so the mean over the eight is that value and TTA does not change the picture
(`process_image_tta`). It rests on the addresses of the two shaders: the one at which the postprocessing
reads a tile image for a point lies in the square that the network makes of the address at which the
preprocessing stored the pixel (`tta_addresses`).
-/

namespace LimbWorker.Realesrgan

open Lib

/-! ## Symmetric networks -/

/-- A network that commutes with the symmetries. -/
structure SymmetricNetwork (K : Type) extends TileNetwork K where
  extract_transform : ∀ (σ : Symmetry) (f : Planes K),
    (extract (f.transform σ)).Same ((extract f).transform σ)

section

variable {K : Type} (net : SymmetricNetwork K) {f : Planes K} {c y x : Int}

/-- What the network gives where a symmetry takes a point is what it gives for the point. -/
theorem SymmetricNetwork.value_row_column (σ : Symmetry) (hc : 0 ≤ c ∧ c < 3)
    (hy : 0 ≤ y ∧ y < 4 * f.h) (hx : 0 ≤ x ∧ x < 4 * f.w) :
    (net.extract (f.transform σ)).value c (σ.row (4 * f.w) (4 * f.h) y x)
        (σ.column (4 * f.w) (4 * f.h) y x) = (net.extract f).value c y x := by
  have hw : (net.extract (f.transform σ)).w = σ.width (4 * f.w) (4 * f.h) :=
    (net.extract_w _).trans Symmetry.width_mul.symm
  have hh : (net.extract (f.transform σ)).h = σ.height (4 * f.w) (4 * f.h) :=
    (net.extract_h _).trans Symmetry.height_mul.symm
  have hrow := Symmetry.row_mem (σ := σ) hy hx
  have hcolumn := Symmetry.column_mem (σ := σ) hy hx
  rw [(net.extract_transform σ f).value c _ _ hc (hh ▸ hrow) (hw ▸ hcolumn), ← net.extract_w f,
    ← net.extract_h f, Planes.value_transform]

variable [Field K] [LinearOrder K] [IsStrictOrderedRing K]

/-- **The mean is the value**: with a symmetric network a colour value does not depend on TTA. -/
theorem SymmetricNetwork.windowColour_tta (hc : 0 ≤ c ∧ c < 3) (hy : 0 ≤ y ∧ y < 4 * f.h)
    (hx : 0 ≤ x ∧ x < 4 * f.w) :
    windowColour net.toNetwork true f c y x = windowColour net.toNetwork false f c y x := by
  let v := (net.extract f).value c y x
  have hvalues : ((List.finRange 8).map fun ti =>
      let σ := symmetryOf ti
      (net.extract (f.transform σ)).value c (σ.row (4 * f.w) (4 * f.h) y x)
        (σ.column (4 * f.w) (4 * f.h) y x)) = List.replicate 8 v := by
    rw [List.eq_replicate_iff]
    refine ⟨rfl, fun b hb => ?_⟩
    obtain ⟨ti, -, rfl⟩ := List.mem_map.mp hb
    exact net.value_row_column _ hc hy hx
  calc windowColour net.toNetwork true f c y x
      = mean (List.replicate 8 v) := congrArg mean hvalues
    _ = 8 * v * (1 / 8) := by rw [mean, List.sum_replicate, nsmul_eq_mul, Nat.cast_ofNat]
    _ = v := by field_simp

end

/-! ## Addresses -/

/-- Address `a` is that of channel `gz`, row `r` and column `s` of an image. -/
structure VkMat.At {V : Type} (m : VkMat V) (gz r s a : Int) : Prop where
  row : 0 ≤ r ∧ r < m.h
  column : 0 ≤ s ∧ s < m.w
  address : a = gz * m.cstep + r * m.w + s

section

variable {K V : Type} [Field K]

theorem lookup_preprocTtaTops (p : PreprocParameter) (gz gy gx : Int) : ∀ ti : Fin 8,
    (preprocTtaTops p gz gy gx).lookup ti =
      some ((symmetryOf ti).address (gz * p.outcstep) p.outw p.outh gy gx)
  | 0 => rfl
  | 1 => rfl
  | 2 => rfl
  | 3 => rfl
  | 4 => rfl
  | 5 => rfl
  | 6 => rfl
  | 7 => rfl

theorem lookup_postprocTtaBottoms (p : PostprocParameter) (gz gy gx : Int) : ∀ ti : Fin 8,
    (postprocTtaBottoms p gz gy gx).lookup ti =
      some ((symmetryOf ti).address (gz * p.cstep) p.w p.h (gy + p.crop_y) (gx + p.crop_x))
  | 0 => rfl
  | 1 => rfl
  | 2 => rfl
  | 3 => rfl
  | 4 => rfl
  | 5 => rfl
  | 6 => rfl
  | 7 => rfl

/-- The postprocessing with TTA reads what the preprocessing stored: for an output point of a tile it reads
every tile image in the square that the network makes of the pixel of that tile image which the
preprocessing stored for the pixel under the point. -/
def ReadsWhatWasStored (net : Network K) (machine : Machine K V) (S : Storage K V) (image : ImageInfo)
    (yi xi : Nat) : Prop :=
  let this := FullProcessor.new net true
  let p := this.preprocConstants machine S image yi xi
  let q := this.postprocConstants machine S image yi xi (this.out_gpu machine S image yi)
  ∀ g ∈ grid q.gx_max q.outh q.channels, ∀ ti : Fin 8, ∃ a b r s : Int,
    (preprocTtaTops p g.gz ((g.gy + q.crop_y) / 4) ((g.gx + q.crop_x) / 4)).lookup ti = some a ∧
    (postprocTtaBottoms q g.gz g.gy g.gx).lookup ti = some b ∧
    (this.inTile machine S image yi xi ti).At g.gz (r / 4) (s / 4) a ∧
    (this.outTile machine S image yi xi ti).At g.gz r s b

/-- **The addresses of the two shaders fit**, for tiles of all shapes. -/
theorem tta_addresses (net : TileNetwork K) (machine : Machine K V) {S : Storage K V} {bgr : Int}
    (image : ImageInfo) (hS : S.Lawful bgr) (yi xi : Nat) :
    ReadsWhatWasStored net.toNetwork machine S image yi xi := by
  unfold ReadsWhatWasStored
  intro this p q g hg ti
  let f : Planes K := window bgr image yi xi
  let σ := symmetryOf ti
  let sy := g.gy + 40
  let sx := g.gx + 40
  obtain ⟨htile_w, htile_h, htile_cstep⟩ := FullProcessor.inTile_sizes net.toNetwork true machine S image
    yi xi ti
  obtain ⟨hout_w, hout_h, hout_cstep⟩ := FullProcessor.outTile_sizes net true machine S bgr image yi xi ti
  obtain ⟨hq_w, hq_h, hq_cstep⟩ := FullProcessor.outTile_sizes net true machine S bgr image yi xi 0
  obtain ⟨hgx, hgy, -⟩ := mem_grid.mp hg
  -- with its padding the tile image is large enough for what is read
  have hbounds : (0 ≤ sy ∧ sy < 4 * f.h) ∧ 0 ≤ sx ∧ sx < 4 * f.w := by
    have hw : (this.out_gpu machine S image yi).w = image.w * 4 := FullProcessor.out_gpu_w hS
    have hh : (this.out_gpu machine S image yi).h =
      (min (((yi : Int) + 1) * 200) image.h - max ((yi : Int) * 200) 0) * 4 := FullProcessor.out_gpu_h hS
    have hgx_max : g.gx < min (200 * 4) ((this.out_gpu machine S image yi).w - xi * 200 * 4) := hgx.2
    have houth : g.gy < (this.out_gpu machine S image yi).h := hgy.2
    have hf_w : f.w = min (((xi : Int) + 1) * 200) image.w + 10 - (xi * 200 - 10) := rfl
    have hf_h : f.h = min (((yi : Int) + 1) * 200) image.h + 10 - (yi * 200 - 10) := rfl
    omega
  obtain ⟨hsy, hsx⟩ := hbounds
  -- the symmetry maps the tile image into itself
  have hrow := Symmetry.row_mem (σ := σ) hsy hsx
  have hcolumn := Symmetry.column_mem (σ := σ) hsy hsx
  have hpixel_y : 0 ≤ sy / 4 ∧ sy / 4 < f.h := by omega
  have hpixel_x : 0 ≤ sx / 4 ∧ sx / 4 < f.w := by omega
  have hrow_pixel := Symmetry.row_mem (σ := σ) hpixel_y hpixel_x
  have hcolumn_pixel := Symmetry.column_mem (σ := σ) hpixel_y hpixel_x
  refine ⟨_, _, σ.row (4 * f.w) (4 * f.h) sy sx, σ.column (4 * f.w) (4 * f.h) sy sx,
    lookup_preprocTtaTops p _ _ _ ti, lookup_postprocTtaBottoms q _ _ _ ti, ?_, ?_⟩
  · -- where the pixel was stored
    rw [Symmetry.row_ediv (by decide), Symmetry.column_ediv (by decide)]
    refine ⟨htile_h ▸ hrow_pixel, htile_w ▸ hcolumn_pixel, ?_⟩
    rw [htile_w, htile_cstep]
    rfl
  · -- where the square is read
    refine ⟨hout_h ▸ hrow, hout_w ▸ hcolumn, ?_⟩
    show σ.address (g.gz * (this.outTile machine S image yi xi 0).cstep)
      (this.outTile machine S image yi xi 0).w (this.outTile machine S image yi xi 0).h sy sx = _
    rw [hout_w, hout_cstep, hq_w, hq_h, hq_cstep]
    rfl

end

/-! ## The output -/

section

variable {K : Type} [Field K] [LinearOrder K] [IsStrictOrderedRing K]

/-- With a symmetric network the value of a place does not depend on TTA. -/
theorem SymmetricNetwork.placeValue_tta (net : SymmetricNetwork K) (bicubic : Bicubic K) (bgr : Int)
    {image : ImageInfo} (hc : image.c = 3 ∨ image.c = 4) {q : GridPoint}
    (hq : FullProcessor.InOutput image q) :
    placeValue net.toNetwork bicubic true bgr image q =
      placeValue net.toNetwork bicubic false bgr image q := by
  obtain ⟨hgz, hgy, hgx⟩ := hq
  unfold placeValue windowValue
  by_cases halpha : q.gz = 3
  · dsimp only
    rw [if_pos halpha, if_pos halpha]
  · dsimp only
    rw [if_neg halpha, if_neg halpha, net.windowColour_tta (by omega)]
    · simp only [window]
      omega
    · simp only [window]
      omega

namespace FullProcessor

/-- **TTA does not change the picture** in either storage mode, whatever the runs differ in. -/
theorem samePicture_tta {V : Type} {S : Storage K V} {bgr : Int} (hS : S.Lawful bgr)
    (net : SymmetricNetwork K) (gpu : Gpu K) (bicubic : Bicubic K) (run run' : Schedule K V)
    (image : ImageInfo) (hw : 10 < image.w) (hh : 10 < image.h) (hc : image.c = 3 ∨ image.c = 4) :
    ((new net.toNetwork true).process_image ⟨gpu, bicubic, run⟩ S image).2.1.SamePicture
      ((new net.toNetwork false).process_image ⟨gpu, bicubic, run'⟩ S image).2.1 := by
  rw [samePicture_iff bgr (by omega) hc]
  intro q hq
  rw [process_image_place net.toTileNetwork true _ hS hw hh hc hq,
    process_image_place net.toTileNetwork false _ hS hw hh hc hq]
  exact congrArg (fun v => S.fetch (S.store v)) (net.placeValue_tta bicubic bgr hc hq)

variable [FloorRing K]

/-- **TTA agrees with the plain path on symmetric networks**: the pictures are the same in both storage
modes, and the addresses of the two shaders fit. -/
theorem process_image_tta (net : SymmetricNetwork K) (gpu : Gpu K) (bicubic : Bicubic K) (bgr : Int)
    (image : ImageInfo) (hw : 10 < image.w) (hh : 10 < image.h) (hc : image.c = 3 ∨ image.c = 4) :
    (∀ run run' : Schedule K UInt8,
      let S := Storage.int8 gpu.uint bgr
      ((new net.toNetwork true).process_image ⟨gpu, bicubic, run⟩ S image).2.1.SamePicture
        ((new net.toNetwork false).process_image ⟨gpu, bicubic, run'⟩ S image).2.1) ∧
    (∀ run run' : Schedule K K,
      let S := Storage.float gpu.bandCstep bgr
      ((new net.toNetwork true).process_image ⟨gpu, bicubic, run⟩ S image).2.1.SamePicture
        ((new net.toNetwork false).process_image ⟨gpu, bicubic, run'⟩ S image).2.1) ∧
    (∀ (run : Schedule K UInt8) (yi xi : Nat), ReadsWhatWasStored net.toNetwork ⟨gpu, bicubic, run⟩
      (.int8 gpu.uint bgr) image yi xi) ∧
    ∀ (run : Schedule K K) (yi xi : Nat), ReadsWhatWasStored net.toNetwork ⟨gpu, bicubic, run⟩
      (.float gpu.bandCstep bgr) image yi xi := by
  have hint8 := Storage.lawful_int8 (K := K) gpu.uint bgr
  have hfloat := Storage.lawful_float (K := K) gpu.le_bandCstep bgr
  refine ⟨fun run run' => ?_, fun run run' => ?_, fun run yi xi => ?_, fun run yi xi => ?_⟩
  · exact samePicture_tta hint8 net gpu bicubic run run' image hw hh hc
  · exact samePicture_tta hfloat net gpu bicubic run run' image hw hh hc
  · exact tta_addresses net.toTileNetwork _ image hint8 yi xi
  · exact tta_addresses net.toTileNetwork _ image hfloat yi xi

/-! ## An instance -/

/-- A GPU that packs its planes and converts negative numbers to zero. -/
def packedGpu : Gpu ℚ where
  cstep := RealesrganProcessor.plainDevice.cstep
  le_cstep := RealesrganProcessor.plainDevice.le_cstep
  cstep_comm := Int.mul_comm
  bandCstep := RealesrganProcessor.plainDevice.cstep
  le_bandCstep := RealesrganProcessor.plainDevice.le_cstep
  uint := RealesrganProcessor.plainDevice.uint
  uint_of_nonneg := RealesrganProcessor.plainDevice.uint_of_nonneg

/-- A run that takes its grids row by row and finds the same value in all memory. -/
def plainSchedule {K V : Type} [Field K] (v : V) : Schedule K V where
  order := id
  perm := fun points => .refl points
  imageMemory := fun _ => 0
  bandMemory := fun _ _ => v
  tileMemory := fun _ _ _ => 0
  outTileMemory := fun _ _ _ _ => 0

/-- An enlarging that gives black. -/
def blackBicubic : Bicubic ℚ where
  forward := fun scale m => ⟨scale * m.w, scale * m.h, 0, fun _ => 0⟩
  forward_w := fun _ _ => rfl
  forward_h := fun _ _ => rfl
  forward_congr := fun _ _ _ _ _ _ _ _ _ _ => rfl

/-- Repeating every pixel commutes with the symmetries. -/
def nearest : SymmetricNetwork ℚ where
  extract := RealesrganProcessor.repeatPixels.extract
  extract_w := RealesrganProcessor.repeatPixels.extract_w
  extract_h := RealesrganProcessor.repeatPixels.extract_h
  extract_same := fun f g h => by
    refine ⟨congrArg (4 * ·) h.w, congrArg (4 * ·) h.h, fun c y x hc hy hx => ?_⟩
    change 0 ≤ y ∧ y < 4 * f.h at hy
    change 0 ≤ x ∧ x < 4 * f.w at hx
    exact h.value c _ _ hc (by omega) (by omega)
  extract_transform := fun σ f => by
    refine ⟨Symmetry.width_mul.symm, Symmetry.height_mul.symm, fun c y x _ _ _ => ?_⟩
    show f.value c (σ.sourceRow f.w f.h (y / 4) (x / 4)) (σ.sourceColumn f.w f.h (y / 4) (x / 4)) =
      f.value c (σ.sourceRow (4 * f.w) (4 * f.h) y x / 4) (σ.sourceColumn (4 * f.w) (4 * f.h) y x / 4)
    rw [Symmetry.sourceRow_ediv (by decide), Symmetry.sourceColumn_ediv (by decide)]

/-- An image of 205 by 11 pixels: none of its tiles is square. -/
theorem process_image_tta_nearest :
    let machine : Machine ℚ UInt8 := ⟨packedGpu, blackBicubic, plainSchedule 0⟩
    let image : ImageInfo := ⟨205, 11, 3, fun i => i.toNat.toUInt8⟩
    let S := Storage.int8 packedGpu.uint 1
    ((new nearest.toNetwork true).process_image machine S image).2.1.SamePicture
      ((new nearest.toNetwork false).process_image machine S image).2.1 :=
  (process_image_tta nearest packedGpu blackBicubic 1 ⟨205, 11, 3, fun i => i.toNat.toUInt8⟩ (by decide)
    (by decide) (.inl rfl)).1 (plainSchedule 0) (plainSchedule 0)

end FullProcessor

end

end LimbWorker.Realesrgan
