import LimbWorker.Realesrgan.Tta

/-!
# The two storage modes

Float storage truncates and saturates when the picture is downloaded; 8-bit storage converts to an
unsigned integer first and clamps then. The two agree as long as the conversion is defined, that is, when
what is stored is at least zero and less than `2 ^ 32`. Below zero the clamp comes too late: what the
conversion gives is up to the GPU. So the modes show the same picture on every GPU just when the network
and the enlarging of the alpha channel stay in that range (`process_image_storage_iff`).
-/

namespace LimbWorker.Realesrgan

open Lib

variable {K : Type} [Field K] [LinearOrder K] [FloorRing K]

/-! ## Rounding -/

/-- What can be converted to an unsigned integer once it is rounded. -/
def Convertible (v : K) : Prop := 0 ≤ clip v ∧ clip v < 4294967296

theorem convertible_iff_floor {v : K} :
    Convertible v ↔ 0 ≤ ⌊clip v⌋ ∧ ⌊clip v⌋ < 4294967296 := by
  rw [Convertible, Int.floor_nonneg, Int.floor_lt, Int.cast_ofNat]

/-- Float storage saturates. -/
theorem saturate_eq (v : K) :
    Storage.saturate v = UInt8.ofNat (if ⌊v⌋ < 0 then 0 else min ⌊v⌋.toNat 255) := by
  unfold Storage.saturate Storage.truncate
  congr 1
  split
  · next hv =>
    have hfloor : 0 ≤ ⌊v⌋ := Int.floor_nonneg.mpr hv
    rw [if_neg (by omega)]
    omega
  · next hv =>
    have hfloor : ⌊v⌋ < 0 := Int.floor_lt_zero.mpr (by rwa [not_le] at hv)
    have hceil : ⌈v⌉ ≤ 0 := Int.ceil_le.mpr (by rw [Int.cast_zero]; exact (not_le.mp hv).le)
    rw [if_pos hfloor]
    omega

/-- Where the conversion is defined the two modes round to the same byte. -/
theorem toByte_eq_saturate (gpu : Gpu K) {v : K} (hfloor : 0 ≤ ⌊v⌋ ∧ ⌊v⌋ < 4294967296) :
    Storage.toByte gpu.uint v = Storage.saturate v := by
  rw [saturate_eq, if_neg (by omega), Storage.toByte, gpu.uint_of_nonneg _ hfloor.1 hfloor.2,
    Nat.max_zero]

/-- A GPU that converts negative numbers to 255 and large ones to 0. -/
def adverseGpu : Gpu K where
  cstep := FullProcessor.packedGpu.cstep
  le_cstep := FullProcessor.packedGpu.le_cstep
  cstep_comm := FullProcessor.packedGpu.cstep_comm
  bandCstep := FullProcessor.packedGpu.bandCstep
  le_bandCstep := FullProcessor.packedGpu.le_bandCstep
  uint := fun n => if n < 0 then 255 else if n < 4294967296 then n.toNat else 0
  uint_of_nonneg := fun n hn hlt => by rw [if_neg (by omega), if_pos hlt]

/-- On that GPU the modes part wherever the conversion is undefined. -/
theorem toByte_adverseGpu_iff {v : K} :
    Storage.toByte (adverseGpu (K := K)).uint v = Storage.saturate v ↔
      0 ≤ ⌊v⌋ ∧ ⌊v⌋ < 4294967296 := by
  refine ⟨fun h => ?_, toByte_eq_saturate _⟩
  by_contra hrange
  rw [saturate_eq] at h
  unfold Storage.toByte adverseGpu at h
  by_cases hneg : ⌊v⌋ < 0
  · -- white here, black there
    simp only [hneg, if_true] at h
    exact absurd h (by decide)
  · -- black here, white there
    have hlarge : ¬ ⌊v⌋ < 4294967296 := by omega
    have hmin : min ⌊v⌋.toNat 255 = 255 := by omega
    simp only [hneg, hlarge, if_false, hmin] at h
    exact absurd h (by decide)

/-! ## What is converted -/

/-- The numbers that the postprocessing with 8-bit storage converts, tile by tile and point by point. -/
def FullProcessor.conversions (this : FullProcessor K) (machine : Machine K UInt8) (bgr : Int)
    (inimage : ImageInfo) : List Int :=
  let S := Storage.int8 machine.gpu.uint bgr
  (List.range (this.toRealesrganProcessor.ytiles inimage).toNat).flatMap fun yi =>
    (List.range (this.toRealesrganProcessor.xtiles inimage).toNat).flatMap fun xi =>
      let p := this.postprocConstants machine S inimage yi xi (this.out_gpu machine S inimage yi)
      (machine.run.order (grid p.gx_max p.outh p.channels)).map fun g =>
        ⌊postprocValue this.colour p (fun ti => (this.outTile machine S inimage yi xi ti).data)
          (this.outAlphaTile machine S inimage yi xi).data g⌋

/-- Both storage modes give the same picture on every GPU, and no negative number is converted. -/
structure StoresAgree (net : Network K) (bicubic : Bicubic K) (tta : Bool) (bgr : Int)
    (image : ImageInfo) : Prop where
  same : ∀ (gpu : Gpu K) (run : Schedule K UInt8) (run' : Schedule K K),
    let this := FullProcessor.new net tta
    (this.process_image ⟨gpu, bicubic, run⟩ (.int8 gpu.uint bgr) image).2.1.SamePicture
      (this.process_image ⟨gpu, bicubic, run'⟩ (.float gpu.bandCstep bgr) image).2.1
  nonneg : ∀ (gpu : Gpu K) (run : Schedule K UInt8),
    ∀ t ∈ (FullProcessor.new net tta).conversions ⟨gpu, bicubic, run⟩ bgr image, 0 ≤ t

/-- What the network and the enlarging of the alpha channel give for the tiles of an image can be
converted. The outer 40 rows and columns of what the network gives are cut off. -/
structure OutputsConvertible (net : Network K) (bicubic : Bicubic K) (tta : Bool) (bgr : Int)
    (image : ImageInfo) : Prop where
  colour : ∀ yi xi : Nat, yi * 200 < image.h → xi * 200 < image.w →
    let f : Planes K := window bgr image yi xi
    ∀ c sy sx : Int, (0 ≤ c ∧ c < 3) → (40 ≤ sy ∧ sy < 4 * f.h - 40) → (40 ≤ sx ∧ sx < 4 * f.w - 40) →
      Convertible (denormalise (windowColour net tta f c sy sx))
  alpha : image.c = 4 → ∀ yi xi : Nat, yi * 200 < image.h → xi * 200 < image.w →
    let f : VkMat K := alphaWindow image yi xi
    ∀ y x : Int, (0 ≤ y ∧ y < 4 * f.h) → (0 ≤ x ∧ x < 4 * f.w) →
      Convertible ((bicubic.forward 4 f).data (y * (4 * f.w) + x))

namespace FullProcessor

variable {net : TileNetwork K} {bicubic : Bicubic K} {tta : Bool} {bgr : Int} {image : ImageInfo}

/-- What is converted are the values of the points of the tiles. -/
theorem mem_conversions (gpu : Gpu K) (run : Schedule K UInt8) (hw : 10 < image.w) (hh : 10 < image.h)
    (hc : image.c = 3 ∨ image.c = 4) {t : Int} :
    t ∈ (new net.toNetwork tta).conversions ⟨gpu, bicubic, run⟩ bgr image ↔
      ∃ yi xi c y x, TilePoint image yi xi c y x ∧
        ⌊windowValue net.toNetwork bicubic tta bgr image yi xi c y x⌋ = t := by
  have hS := Storage.lawful_int8 (K := K) gpu.uint bgr
  let machine : Machine K UInt8 := ⟨gpu, bicubic, run⟩
  have hgrid : ∀ (yi xi : Nat) (g : GridPoint),
      let this := new net.toNetwork tta
      let S := Storage.int8 gpu.uint bgr
      let p := this.postprocConstants machine S image yi xi (this.out_gpu machine S image yi)
      g ∈ run.order (grid p.gx_max p.outh p.channels) ↔
        (0 ≤ g.gx ∧ g.gx < min (200 * 4) (image.w * 4 - xi * 200 * 4)) ∧
          (0 ≤ g.gy ∧ g.gy < (min (((yi : Int) + 1) * 200) image.h - max ((yi : Int) * 200) 0) * 4) ∧
          0 ≤ g.gz ∧ g.gz < image.c := fun yi xi g => mem_order_grid run.perm
  -- what the shader converts at a point is the value of the window
  have hvalue : ∀ {yi xi : Nat} {c y x : Int}, TilePoint image yi xi c y x →
      (new net.toNetwork tta).tileValue machine (.int8 gpu.uint bgr) image yi xi c y x =
        windowValue net.toNetwork bicubic tta bgr image yi xi c y x :=
    fun h => tileValue_eq hS hw hh hc (by have := h.row; omega) h.channel h.row h.column
  constructor
  · intro ht
    obtain ⟨yi, -, ht⟩ := List.mem_flatMap.mp ht
    obtain ⟨xi, -, ht⟩ := List.mem_flatMap.mp ht
    obtain ⟨g, hg, rfl⟩ := List.mem_map.mp ht
    obtain ⟨hgx, hgy, hgz⟩ := (hgrid yi xi g).mp hg
    have hpoint : TilePoint image yi xi g.gz g.gy g.gx := ⟨hgz, by omega, by omega⟩
    exact ⟨yi, xi, g.gz, g.gy, g.gx, hpoint, congrArg Int.floor (hvalue hpoint).symm⟩
  · rintro ⟨yi, xi, c, y, x, hpoint, rfl⟩
    obtain ⟨hchannel, hrow, hcolumn⟩ := hpoint
    -- a point of a tile belongs to a tile of the loops
    have hyi : yi < ((image.h + 200 - 1) / 200).toNat := by omega
    have hxi : xi < ((image.w + 200 - 1) / 200).toNat := by omega
    refine List.mem_flatMap.mpr ⟨yi, List.mem_range.mpr hyi, ?_⟩
    refine List.mem_flatMap.mpr ⟨xi, List.mem_range.mpr hxi, ?_⟩
    refine List.mem_map.mpr ⟨⟨x, y, c⟩, (hgrid yi xi _).mpr ⟨?_, ?_, hchannel⟩, ?_⟩
    · dsimp only
      omega
    · dsimp only
      omega
    · exact congrArg Int.floor (hvalue ⟨hchannel, hrow, hcolumn⟩)

/-- The condition, point by point. -/
theorem outputsConvertible_iff (net : Network K) (hc : image.c = 3 ∨ image.c = 4) :
    OutputsConvertible net bicubic tta bgr image ↔ ∀ yi xi c y x, TilePoint image yi xi c y x →
      0 ≤ ⌊windowValue net bicubic tta bgr image yi xi c y x⌋ ∧
        ⌊windowValue net bicubic tta bgr image yi xi c y x⌋ < 4294967296 := by
  have halpha : ∀ (yi xi : Nat) (y x : Int), windowValue net bicubic tta bgr image yi xi 3 y x =
      clip ((bicubic.forward 4 (alphaWindow image yi xi)).data
        (y * (4 * (alphaWindow image yi xi : VkMat K).w) + x)) := fun _ _ _ _ => rfl
  have hcolour : ∀ {c : Int}, c ≠ 3 → ∀ (yi xi : Nat) (y x : Int),
      windowValue net bicubic tta bgr image yi xi c y x =
        clip (denormalise (windowColour net tta (window bgr image yi xi) c (y + 40) (x + 40))) :=
    fun hne yi xi y x => congrArg clip (if_neg hne)
  constructor
  · rintro ⟨hcolours, halphas⟩ yi xi c y x ⟨hchannel, hrow, hcolumn⟩
    have hyi : yi * 200 < image.h := by omega
    have hxi : xi * 200 < image.w := by omega
    -- the fourth channel comes from the bicubic resize, the others from the network
    by_cases hthree : c = 3
    · subst hthree
      rw [halpha, ← convertible_iff_floor]
      exact halphas (by omega) yi xi hyi hxi y x hrow hcolumn
    · rw [hcolour hthree, ← convertible_iff_floor]
      apply hcolours yi xi hyi hxi c _ _ (by omega)
      · simp only [window]
        omega
      · simp only [window]
        omega
  · intro h
    refine ⟨?_, ?_⟩
    · intro yi xi hyi hxi f c sy sx hcolours hsy hsx
      have hf_w : f.w = min (((xi : Int) + 1) * 200) image.w + 10 - (xi * 200 - 10) := rfl
      have hf_h : f.h = min (((yi : Int) + 1) * 200) image.h + 10 - (yi * 200 - 10) := rfl
      -- the padding of the window is 40 pixels of the output
      have hpoint := h yi xi c (sy - 40) (sx - 40) ⟨by omega, by omega, by omega⟩
      rwa [hcolour (by omega), ← convertible_iff_floor, Int.sub_add_cancel, Int.sub_add_cancel] at hpoint
    · intro hfour yi xi hyi hxi f y x hy hx
      have hpoint := h yi xi 3 y x ⟨by omega, hy, hx⟩
      rwa [halpha, ← convertible_iff_floor] at hpoint

/-- The two pictures agree just when every value rounds to the same byte in both modes. -/
theorem samePicture_storage_iff (gpu : Gpu K) (run : Schedule K UInt8) (run' : Schedule K K)
    (hw : 10 < image.w) (hh : 10 < image.h) (hc : image.c = 3 ∨ image.c = 4) :
    let this := new net.toNetwork tta
    (this.process_image ⟨gpu, bicubic, run⟩ (.int8 gpu.uint bgr) image).2.1.SamePicture
        (this.process_image ⟨gpu, bicubic, run'⟩ (.float gpu.bandCstep bgr) image).2.1 ↔
      ∀ yi xi c y x, TilePoint image yi xi c y x →
        let v := windowValue net.toNetwork bicubic tta bgr image yi xi c y x
        Storage.toByte gpu.uint v = Storage.saturate v := by
  intro this
  have hint8 := Storage.lawful_int8 (K := K) gpu.uint bgr
  have hfloat := Storage.lawful_float (K := K) gpu.le_bandCstep bgr
  rw [← forall_place, samePicture_iff bgr (by omega) hc]
  apply forall₂_congr
  intro q hq
  rw [process_image_place net tta _ hint8 hw hh hc hq, process_image_place net tta _ hfloat hw hh hc hq]
  rfl

/-- **When both storage modes give the same picture**: just when what the network and the enlarging of the
alpha channel give can be converted. -/
theorem process_image_storage_iff (net : TileNetwork K) (bicubic : Bicubic K) (tta : Bool) (bgr : Int)
    (image : ImageInfo) (hw : 10 < image.w) (hh : 10 < image.h) (hc : image.c = 3 ∨ image.c = 4) :
    StoresAgree net.toNetwork bicubic tta bgr image ↔
      OutputsConvertible net.toNetwork bicubic tta bgr image := by
  rw [outputsConvertible_iff net.toNetwork hc]
  constructor
  · intro h yi xi c y x hpoint
    -- one GPU is enough to see that the condition is needed
    have hsame := (samePicture_storage_iff _ _ _ hw hh hc).mp
      (h.same adverseGpu (plainSchedule 0) (plainSchedule 0))
    exact toByte_adverseGpu_iff.mp (hsame yi xi c y x hpoint)
  · intro h
    refine ⟨fun gpu run run' => ?_, fun gpu run t ht => ?_⟩
    · apply (samePicture_storage_iff gpu run run' hw hh hc).mpr
      exact fun yi xi c y x hpoint => toByte_eq_saturate gpu (h yi xi c y x hpoint)
    · obtain ⟨yi, xi, c, y, x, hpoint, rfl⟩ := (mem_conversions gpu run hw hh hc).mp ht
      exact (h yi xi c y x hpoint).1

/-! ## Instances -/

/-- A pixel that the network passes on can be converted. -/
theorem convertible_pixel (b : UInt8) : Convertible (denormalise (normalise (b.toNat : ℚ))) := by
  have hexact : denormalise (normalise (b.toNat : ℚ)) = b.toNat := by
    unfold denormalise normalise
    ring
  have hlt : (b.toNat : ℚ) < 256 := by
    exact_mod_cast b.toNat_lt
  have hnonneg : (0 : ℚ) ≤ b.toNat := Nat.cast_nonneg _
  rw [hexact, Convertible, clip]
  constructor <;> linarith

/-- With a network that repeats pixels the two modes agree. -/
theorem process_image_storage_nearest :
    StoresAgree nearest.toNetwork blackBicubic false 1 ⟨205, 11, 3, fun i => i.toNat.toUInt8⟩ :=
  (process_image_storage_iff nearest.toTileNetwork blackBicubic false 1
    ⟨205, 11, 3, fun i => i.toNat.toUInt8⟩ (by decide) (by decide) (.inl rfl)).mpr
    { colour := by
        intro yi xi _ _ f c sy sx _ _ _
        exact convertible_pixel _
      alpha := fun hfour => absurd hfour (by decide) }

/-- A network all of whose values are below zero. -/
def dark : TileNetwork ℚ where
  extract := fun f => ⟨4 * f.w, 4 * f.h, fun _ _ _ => -1⟩
  extract_w := fun _ => rfl
  extract_h := fun _ => rfl
  extract_same := fun _ _ h => ⟨congrArg (4 * ·) h.w, congrArg (4 * ·) h.h, fun _ _ _ _ _ _ => rfl⟩

/-- With that network the modes do not agree: what is black in one may be white in the other. -/
theorem dark_not_storesAgree :
    ¬ StoresAgree dark.toNetwork blackBicubic false 1 ⟨11, 11, 3, fun _ => 0⟩ := by
  intro h
  have hsame := (samePicture_storage_iff _ _ _ (by decide) (by decide) (.inl rfl)).mp
    (h.same adverseGpu (plainSchedule 0) (plainSchedule 0)) 0 0 0 0 0 ⟨by decide, by decide, by decide⟩
  have hfloor := (toByte_adverseGpu_iff.mp hsame).1
  rw [Int.floor_nonneg] at hfloor
  have hvalue : windowValue dark.toNetwork blackBicubic false 1 ⟨11, 11, 3, fun _ => 0⟩ 0 0 0 0 0 =
      -1 * 255 + 1 / 2 := rfl
  rw [hvalue] at hfloor
  exact absurd hfloor (by norm_num)

end FullProcessor

end LimbWorker.Realesrgan
