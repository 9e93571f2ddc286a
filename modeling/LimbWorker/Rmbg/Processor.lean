import LimbWorker.Realesrgan.Tiling
import LimbWorker.Rmbg.Postproc
import Mathlib.Data.Rat.Floor

/-!
# `RmbgProcessor::process_image`

The picture is brought to the size that the network takes, the network gives a mask, and the shader puts the
colours of the picture and the mask together. ncnn and the network are parameters: a resize that reads the pixels
of the type it is told, and a session that gives a mask or throws.

`keepsPicture_iff` says for which pictures nothing is read out of bounds and the result is the picture with the
mask as its alpha channel.
-/

namespace LimbWorker.Rmbg

open Lib Realesrgan

/-! ## ncnn and the network -/

/-- The pixel types that the code passes. -/
inductive PixelType where
  | PIXEL_RGB
  | PIXEL_RGBA2RGB
  deriving DecidableEq, Repr

/-- The bytes of a pixel of the type. -/
def PixelType.bytes : PixelType → Int
  | PIXEL_RGB => 3
  | PIXEL_RGBA2RGB => 4

/-- `ncnn::Mat::from_pixels_resize`, with the bytes that it reads: they are bytes of the `w * h` pixels, and the
result depends on them only. -/
structure Resize (K : Type) where
  from_pixels_resize : (Int → UInt8) → PixelType → Int → Int → Int → Int → Planes K
  reads : PixelType → Int → Int → Int → Int → List Int
  reads_mem : ∀ type w h target_w target_h, ∀ i ∈ reads type w h target_w target_h,
    0 ≤ i ∧ i < w * h * type.bytes
  congr : ∀ pixels pixels' type w h target_w target_h,
    (∀ i ∈ reads type w h target_w target_h, pixels i = pixels' i) →
      from_pixels_resize pixels type w h target_w target_h =
        from_pixels_resize pixels' type w h target_w target_h

/-- What is left open by the device: the order in which a dispatch runs its points, what fresh memory holds, and
the conversion of numbers outside the range of an unsigned integer. -/
structure RmbgDevice where
  order : List GridPoint → List GridPoint
  perm : ∀ points, (order points).Perm points
  uint : Int → Nat
  uint_of_nonneg : ∀ n : Int, 0 ≤ n → n < 4294967296 → uint n = n.toNat
  inMemory : Int → UInt8
  outMemory : Int → UInt8
  imageMemory : Int → UInt8

/-- `RmbgProcessor`; the session gives the mask row by row, or throws. -/
structure RmbgProcessor (K : Type) where
  resize : Resize K
  session : Planes K → Option (Int → K)

/-- `ImageInfo` as it is returned; what is not set is `none`. -/
structure OutImage where
  w : Int
  h : Int
  c : Int
  size : Option Nat
  data : Option (Int → UInt8)

def kTargetWidth : Int := 1024

def kTargetHeight : Int := 1024

namespace RmbgProcessor

/-! ## The processor -/

section

variable {K : Type} [Field K] (this : RmbgProcessor K) (inimage : ImageInfo)

/-- `type`. -/
def type : PixelType := if inimage.c = 4 then .PIXEL_RGBA2RGB else .PIXEL_RGB

/-- `preprocessImage`. -/
def preprocessImage (pixels : Int → UInt8) (type : PixelType) (w h target_w target_h : Int) : Planes K :=
  let out := this.resize.from_pixels_resize pixels type w h target_w target_h
  let mean_val : K := ((255 : Nat) : K) / ((2 : Nat) : K)
  ⟨out.w, out.h, fun c y x => normalise (out.value c y x - mean_val)⟩

/-- `pImage`. -/
def pImage : Planes K :=
  this.preprocessImage inimage.data (type inimage) inimage.w inimage.h kTargetWidth kTargetHeight

end

/-- The push constants. -/
def postprocConstants (inimage : ImageInfo) : PostprocParameter where
  w := inimage.w
  h := inimage.h
  cstep := inimage.w * inimage.h
  mask_w := kTargetWidth
  mask_h := kTargetHeight
  in_channels := inimage.c
  channels := 4

/-- `datasize`. -/
def datasize (inimage : ImageInfo) : Nat := uint64 (inimage.w * inimage.h * 4 : IntExpr).value

variable {K : Type} [Field K] [LinearOrder K] [FloorRing K] (this : RmbgProcessor K)
  (device : RmbgDevice) (inimage : ImageInfo)

/-- `out_gpu`, after the dispatch. -/
def out_gpu (mask : Int → K) : VkMat UInt8 :=
  let in_gpu : VkMat UInt8 := .upload inimage.w inimage.h inimage.c 0 inimage.data device.inMemory
  let main := postproc device.uint (postprocConstants inimage) in_gpu.data mask
  ⟨inimage.w, inimage.h, inimage.w * inimage.h,
    dispatch main (device.order (grid inimage.w inimage.h 4)) device.outMemory⟩

/-- `process_image`. -/
def process_image : ReturnStatus × OutImage :=
  match this.session (this.pImage inimage) with
  | none => (.kAborted, ⟨inimage.w, inimage.h, 4, none, none⟩)
  | some mask =>
      (.kOk, ⟨inimage.w, inimage.h, 4, some (datasize inimage),
        some ((out_gpu device inimage mask).download 4 0 device.imageMemory)⟩)

/-! ## What it is for -/

/-- The colour of a pixel; that of a grey one is its first byte. -/
def colourOf (inimage : ImageInfo) (y x k : Int) : UInt8 :=
  inimage.data ((y * inimage.w + x) * inimage.c + if inimage.c < 3 then 0 else k)

/-- The element of the mask for a pixel. -/
def maskOf (mask : Int → K) (inimage : ImageInfo) (y x : Int) : K :=
  mask (y * 1024 / inimage.h * 1024 + x * 1024 / inimage.w)

/-- The result is the picture with the mask as its alpha channel, and nothing is read outside of the picture and
of the mask on the way. -/
structure KeepsPicture (mask : Int → K) : Prop where
  resizeReads : ∀ i ∈ this.resize.reads (type inimage) inimage.w inimage.h kTargetWidth kTargetHeight,
    0 ≤ i ∧ i < inimage.w * inimage.h * inimage.c
  colourReads : ∀ g, InPicture inimage.w inimage.h g → g.gz ≠ 3 →
    0 ≤ ((postprocConstants inimage).colourIndex g).value ∧
      ((postprocConstants inimage).colourIndex g).value < inimage.w * inimage.h * inimage.c
  maskReads : ∀ g, InPicture inimage.w inimage.h g → g.gz = 3 →
    0 ≤ ((postprocConstants inimage).maskIndex g).value ∧
      ((postprocConstants inimage).maskIndex g).value < 1024 * 1024
  image : ∃ size data, this.process_image device inimage =
      (.kOk, ⟨inimage.w, inimage.h, 4, some size, some data⟩) ∧
    (size : Int) = inimage.w * inimage.h * 4 ∧
    ∀ y x, (0 ≤ y ∧ y < inimage.h) → (0 ≤ x ∧ x < inimage.w) →
      (∀ k, 0 ≤ k ∧ k < 3 → data ((y * inimage.w + x) * 4 + k) = colourOf inimage y x k) ∧
      ((data ((y * inimage.w + x) * 4 + 3)).toNat : Int) = ⌊255 * maskOf mask inimage y x⌋

/-! ## When it is kept -/

/-- The pictures that the codecs deliver. -/
structure Delivered (inimage : ImageInfo) : Prop where
  w : 1 ≤ inimage.w ∧ inimage.w < 2 ^ 31
  h : 1 ≤ inimage.h ∧ inimage.h < 2 ^ 31
  c : 1 ≤ inimage.c ∧ inimage.c ≤ 4

variable {this device inimage} {mask : Int → K}

/-- The size that is reported is the size of the picture just if an `int` can count its bytes. -/
theorem datasize_eq_iff (himage : Delivered inimage) :
    (datasize inimage : Int) = inimage.w * inimage.h * 4 ↔ 4 * (inimage.w * inimage.h) < 2 ^ 31 := by
  have hpos : 0 < inimage.w * inimage.h :=
    Int.mul_pos (by have := himage.w; omega) (by have := himage.h; omega)
  have hle : inimage.w * inimage.h ≤ (2 ^ 31 - 1) * (2 ^ 31 - 1) :=
    Int.mul_le_mul (by have := himage.w; omega) (by have := himage.h; omega)
      (by have := himage.h; omega) (by decide)
  have hvalue : (inimage.w * inimage.h * 4 : IntExpr).value = int32 (inimage.w * inimage.h * 4) :=
    int32_int32_mul _ _
  have hrange := isInt32_int32 (inimage.w * inimage.h * 4)
  unfold IsInt32 at hrange
  unfold datasize
  rw [hvalue]
  constructor
  · intro h
    by_contra hlarge
    -- a wrapped size is too small, or negative
    rcases le_or_gt 0 (int32 (inimage.w * inimage.h * 4)) with hnonneg | hneg
    · have hsmall := uint64_of_nonneg hnonneg (by omega)
      omega
    · -- a negative size is converted to more than a picture can have
      unfold uint64 at h
      omega
  · intro h
    rw [int32_eq_self_iff.mpr ⟨by omega, by omega⟩]
    exact uint64_of_nonneg (by omega) (by omega)

/-- The bytes of the output after the dispatch, in a picture whose addresses do not wrap. -/
theorem data_out_gpu (hsize : Countable inimage.w inimage.h) {g : GridPoint}
    (hg : InPicture inimage.w inimage.h g) :
    (out_gpu device inimage mask).data ((g.gy * inimage.w + g.gx) * 4 + g.gz) =
      UInt8.ofNat (if g.gz = 3 then
          device.uint ⌊mask ((postprocConstants inimage).maskIndex g).value * (255 : Nat)⌋
        else ((VkMat.upload inimage.w inimage.h inimage.c 0 inimage.data device.inMemory).data
          ((postprocConstants inimage).colourIndex g).value).toNat) := by
  have htop : ∀ g, InPicture inimage.w inimage.h g →
      ((postprocConstants inimage).topIndex g).value = (g.gy * inimage.w + g.gx) * 4 + g.gz :=
    fun g hg => (interleaved_spec (p := postprocConstants inimage) hsize hg
      (show (1 : Int) ≤ 4 ∧ (4 : Int) ≤ 4 by decide)).2
  refine dispatch_of_mem ((mem_order_grid device.perm).mpr ⟨hg.gx, hg.gy, hg.gz⟩)
    (mem_postproc.mpr ⟨⟨hg.gx.2, hg.gy.2, hg.gz.2⟩, (htop g hg).symm, rfl⟩) fun q hq v hv => ?_
  obtain ⟨hqx, hqy, hqz⟩ := (mem_order_grid device.perm).mp hq
  obtain ⟨-, haddress, hv⟩ := mem_postproc.mp hv
  rw [htop q ⟨hqx, hqy, hqz⟩] at haddress
  -- a byte of the output has one point that stores it
  obtain ⟨hpixel, hz⟩ := mul_add_inj hg.gz hqz haddress
  obtain ⟨hy, hx⟩ := mul_add_inj hg.gx hqx hpixel
  have hqg : q = g := by
    obtain ⟨qx, qy, qz⟩ := q
    obtain ⟨gx, gy, gz⟩ := g
    simp_all
  rw [hv, hqg]

/-- The download copies all of them. -/
theorem download_out_gpu (data : Int → UInt8) {g : GridPoint} (hg : InPicture inimage.w inimage.h g) :
    (out_gpu device inimage mask).download 4 0 data ((g.gy * inimage.w + g.gx) * 4 + g.gz) =
      (out_gpu device inimage mask).data ((g.gy * inimage.w + g.gx) * 4 + g.gz) := by
  have hrange : 0 ≤ (g.gy * inimage.w + g.gx) * 4 + g.gz ∧
      (g.gy * inimage.w + g.gx) * 4 + g.gz < inimage.w * inimage.h * 4 :=
    (interleaved_mem_iff hg.gx hg.gz).mpr hg.gy
  unfold VkMat.download
  rw [Int.sub_zero]
  exact if_pos hrange

variable [IsStrictOrderedRing K]

/-- The value of the mask as a byte. -/
theorem alpha_byte (device : RmbgDevice) {m : K} (h0 : 0 ≤ m) (h1 : m ≤ 1) :
    ((UInt8.ofNat (device.uint ⌊m * (255 : Nat)⌋)).toNat : Int) = ⌊255 * m⌋ := by
  rw [Nat.cast_ofNat]
  have hnonneg : 0 ≤ ⌊m * 255⌋ := Int.floor_nonneg.mpr (mul_nonneg h0 (by norm_num))
  have hle : ⌊m * 255⌋ ≤ 255 := by
    have hreal : m * 255 ≤ ((255 : Int) : K) := by
      push_cast
      nlinarith
    exact Int.cast_le.mp ((Int.floor_le _).trans hreal)
  rw [device.uint_of_nonneg _ hnonneg (by omega), UInt8.toNat_ofNat', mul_comm m, Nat.mod_eq_of_lt]
  · rw [mul_comm m] at hnonneg
    omega
  · rw [mul_comm m] at hle
    omega

/-- The pictures whose addresses do not wrap and whose pixels have the bytes that the code takes them to have. -/
structure Supported (inimage : ImageInfo) : Prop where
  c : inimage.c = 3 ∨ inimage.c = 4
  w : inimage.w ≤ 2 ^ 21
  h : inimage.h ≤ 2 ^ 21
  bytes : 4 * (inimage.w * inimage.h) < 2 ^ 31

/-- **A supported picture is kept.** -/
theorem keepsPicture_of_supported (himage : Delivered inimage) (h : Supported inimage)
    (hsession : this.session (this.pImage inimage) = some mask)
    (hmask : ∀ i, 0 ≤ i ∧ i < 1024 * 1024 → 0 ≤ mask i ∧ mask i ≤ 1) :
    this.KeepsPicture device inimage mask := by
  have hsize : Countable inimage.w inimage.h := ⟨himage.w.1, himage.h.1, h.bytes⟩
  have hc := h.c
  -- below the limits the 32-bit indexes are the exact ones
  have hcolour : ∀ g, InPicture inimage.w inimage.h g →
      ((postprocConstants inimage).colourIndex g).value =
        (g.gy * inimage.w + g.gx) * inimage.c + g.gz := fun g hg =>
    (interleaved_spec (p := postprocConstants inimage) hsize hg
      (show 1 ≤ inimage.c ∧ inimage.c ≤ 4 by omega)).2
  have hmaskIndex : ∀ g, InPicture inimage.w inimage.h g →
      ((postprocConstants inimage).maskIndex g).value =
          g.gy * 1024 / inimage.h * 1024 + g.gx * 1024 / inimage.w ∧
        0 ≤ ((postprocConstants inimage).maskIndex g).value ∧
        ((postprocConstants inimage).maskIndex g).value < 1024 * 1024 := fun g hg =>
    maskIndex_spec (p := postprocConstants inimage) ⟨rfl, rfl⟩ hg h.w h.h
  have hinside : ∀ g, InPicture inimage.w inimage.h g → g.gz ≠ 3 →
      0 ≤ (g.gy * inimage.w + g.gx) * inimage.c + g.gz ∧
        (g.gy * inimage.w + g.gx) * inimage.c + g.gz < inimage.w * inimage.h * inimage.c := by
    intro g hg hgz
    have hbyte : 0 ≤ g.gz ∧ g.gz < inimage.c := by
      have := hg.gz
      omega
    exact (interleaved_mem_iff hg.gx hbyte).mpr hg.gy
  refine ⟨fun i hi => ?_, fun g hg hgz => ?_, fun g hg _ => (hmaskIndex g hg).2, ?_⟩
  · have hbytes : (type inimage).bytes = inimage.c := by
      unfold type
      rcases hc with hc | hc <;> rw [hc] <;> rfl
    rw [← hbytes]
    exact this.resize.reads_mem _ _ _ _ _ i hi
  · rw [hcolour g hg]
    exact hinside g hg hgz
  · refine ⟨datasize inimage, (out_gpu device inimage mask).download 4 0 device.imageMemory, ?_,
      (datasize_eq_iff himage).mpr h.bytes, fun y x hy hx => ⟨fun k hk => ?_, ?_⟩⟩
    · unfold process_image
      rw [hsession]
    · have hg := InPicture.mk' hx hy (show 0 ≤ k ∧ k < 4 by omega)
      -- a colour byte: the pixel of the picture itself
      have hk3 : k ≠ 3 := by omega
      have hc3 : ¬ inimage.c < 3 := by omega
      rw [download_out_gpu _ hg, data_out_gpu hsize hg, if_neg hk3, hcolour _ hg, UInt8.ofNat_toNat]
      unfold VkMat.upload colourOf
      rw [if_neg hc3]
      dsimp only
      rw [if_pos (hinside _ hg hk3), Int.zero_add]
    · have hg := InPicture.mk' hx hy (show 0 ≤ (3 : Int) ∧ (3 : Int) < 4 by decide)
      -- the alpha byte: the mask at the nearest place
      obtain ⟨hindex, hrange⟩ := hmaskIndex _ hg
      rw [download_out_gpu _ hg, data_out_gpu hsize hg, if_pos rfl]
      obtain ⟨h0, h1⟩ := hmask _ hrange
      rw [alpha_byte device h0 h1, hindex]
      rfl

omit [IsStrictOrderedRing K] in
/-- A picture that is kept is a supported one. -/
theorem supported_of_keepsPicture (himage : Delivered inimage) (h : this.KeepsPicture device inimage mask)
    (hsession : this.session (this.pImage inimage) = some mask) : Supported inimage := by
  have hbytes : 4 * (inimage.w * inimage.h) < 2 ^ 31 := by
    obtain ⟨size, data, hcall, hsize, -⟩ := h.image
    unfold process_image at hcall
    rw [hsession] at hcall
    cases hcall
    exact (datasize_eq_iff himage).mp hsize
  have hsize : Countable inimage.w inimage.h := ⟨himage.w.1, himage.h.1, hbytes⟩
  refine ⟨?_, ?_, ?_, hbytes⟩
  · -- the last colour byte of the last pixel lies in the picture
    by_contra hc
    have hx : 0 ≤ inimage.w - 1 ∧ inimage.w - 1 < inimage.w := by have := himage.w; omega
    have hy : 0 ≤ inimage.h - 1 ∧ inimage.h - 1 < inimage.h := by have := himage.h; omega
    have hlast := InPicture.mk' hx hy (show 0 ≤ (2 : Int) ∧ (2 : Int) < 4 by decide)
    have hread := (h.colourReads _ hlast (show (2 : Int) ≠ 3 by decide)).2
    have haddress := (interleaved_spec (p := postprocConstants inimage) hsize hlast himage.c).2
    have hindex : ((inimage.h - 1) * inimage.w + (inimage.w - 1)) * inimage.c =
        inimage.w * inimage.h * inimage.c - inimage.c := by ring
    unfold PostprocParameter.colourIndex at hread
    rw [show (postprocConstants inimage).in_channels = inimage.c from rfl, haddress] at hread
    dsimp only [postprocConstants] at hread
    rw [hindex] at hread
    have := himage.c
    omega
  · by_contra hw
    -- from a width of 2 ^ 21 on the mask index of some column is negative
    have hneg := maskIndex_of_wide (p := postprocConstants inimage) ⟨rfl, rfl⟩ (Int.not_le.mp hw)
      himage.w.2
    have hy : 0 ≤ (0 : Int) ∧ 0 < inimage.h := by have := himage.h; omega
    have hg := InPicture.mk' ⟨by decide, Int.not_le.mp hw⟩ hy
      (show 0 ≤ (3 : Int) ∧ (3 : Int) < 4 by decide)
    have hread := (h.maskReads _ hg rfl).1
    omega
  · by_contra hh
    -- so is that of some row
    have hneg := maskIndex_of_high (p := postprocConstants inimage) ⟨rfl, rfl⟩ (Int.not_le.mp hh)
      himage.h.2
    have hx : 0 ≤ (0 : Int) ∧ 0 < inimage.w := by have := himage.w; omega
    have hg := InPicture.mk' hx ⟨by decide, Int.not_le.mp hh⟩
      (show 0 ≤ (3 : Int) ∧ (3 : Int) < 4 by decide)
    have hread := (h.maskReads _ hg rfl).1
    omega

/-- **Which pictures are kept**: those with three or four channels, not more than `2 ^ 21` pixels wide or high, and
fewer than `2 ^ 29` pixels. -/
theorem keepsPicture_iff (this : RmbgProcessor K) (device : RmbgDevice) (inimage : ImageInfo)
    (mask : Int → K) (himage : Delivered inimage)
    (hsession : this.session (this.pImage inimage) = some mask)
    (hmask : ∀ i, 0 ≤ i ∧ i < 1024 * 1024 → 0 ≤ mask i ∧ mask i ≤ 1) :
    this.KeepsPicture device inimage mask ↔ Supported inimage :=
  ⟨fun h => supported_of_keepsPicture himage h hsession,
    fun h => keepsPicture_of_supported himage h hsession hmask⟩

/-! ## A grey pixel, and colours -/

/-- Each pixel of the result is one of the picture. -/
def nearestPixel : Resize ℚ where
  from_pixels_resize := fun pixels type w h target_w target_h =>
    ⟨target_w, target_h, fun c y x =>
      let i := (y * h / target_h * w + x * w / target_w) * type.bytes + c
      if 0 ≤ i ∧ i < w * h * type.bytes then (pixels i).toNat else 0⟩
  reads := fun type w h _ _ => (List.range (w * h * type.bytes).toNat).map Int.ofNat
  reads_mem := by
    intro type w h target_w target_h i hi
    obtain ⟨k, hk, rfl⟩ := List.mem_map.mp hi
    have hlt := List.mem_range.mp hk
    exact ⟨Int.natCast_nonneg k, by show (k : Int) < _; omega⟩
  congr := by
    intro pixels pixels' type w h target_w target_h hagree
    refine congrArg (Planes.mk target_w target_h) (funext fun c => funext fun y => funext fun x => ?_)
    dsimp only
    split
    · next hi =>
      rw [hagree _ (List.mem_map.mpr ⟨_, List.mem_range.mpr (by omega), Int.toNat_of_nonneg hi.1⟩)]
    · rfl

/-- A processor whose network takes half of everything for the foreground. -/
def half : RmbgProcessor ℚ := ⟨nearestPixel, fun _ => some fun _ => 1 / 2⟩

/-- A processor whose network takes for the foreground what is bright in the first channel. -/
def brightness : RmbgProcessor ℚ :=
  ⟨nearestPixel, fun planes => some fun i => max 0 (min 1 (planes.value 0 (i / 1024) (i % 1024) + 1 / 2))⟩

/-- A device that runs the points of a grid in their order. -/
def inOrder : RmbgDevice where
  order := RealesrganProcessor.plainDevice.order
  perm := RealesrganProcessor.plainDevice.perm
  uint := RealesrganProcessor.plainDevice.uint
  uint_of_nonneg := RealesrganProcessor.plainDevice.uint_of_nonneg
  inMemory := fun _ => 0
  outMemory := fun _ => 0
  imageMemory := fun _ => 0

/-- A grey picture of one pixel. -/
def greyPixel : ImageInfo := ⟨1, 1, 1, fun i => if i = 0 then 200 else 100⟩

/-- The byte after the last one is read. -/
theorem grey_pixel_not_kept : Delivered greyPixel ∧ ¬ half.KeepsPicture inOrder greyPixel fun _ => 1 / 2 := by
  refine ⟨⟨by decide, by decide, by decide⟩, fun h => ?_⟩
  have hg := InPicture.mk' (show 0 ≤ (0 : Int) ∧ (0 : Int) < 1 by decide)
    (show 0 ≤ (0 : Int) ∧ (0 : Int) < 1 by decide) (show 0 ≤ (2 : Int) ∧ (2 : Int) < 4 by decide)
  have hread := (h.colourReads _ hg (by decide)).2
  exact absurd hread (by decide)

/-- Three rows of five coloured pixels, which grow brighter. -/
def gradient : ImageInfo := ⟨5, 3, 3, fun i => (17 * i).toNat.toUInt8⟩

/-- They are kept, with a mask that is different from pixel to pixel. -/
theorem gradient_kept_iff :
    ∃ mask, brightness.session (brightness.pImage gradient) = some mask ∧
      mask 0 = 0 ∧ mask 205 = 1 / 5 ∧ mask (1024 * 342) = 1 ∧
      (brightness.KeepsPicture inOrder gradient mask ↔ Supported gradient) := by
  refine ⟨_, rfl, by decide +kernel, by decide +kernel, by decide +kernel, ?_⟩
  exact keepsPicture_iff brightness inOrder gradient _ ⟨by decide, by decide, by decide⟩ rfl
    fun _ _ => ⟨le_max_left _ _, max_le zero_le_one (min_le_left _ _)⟩

end RmbgProcessor

end LimbWorker.Rmbg
