import LimbWorker.Lib.Symmetry
import LimbWorker.Realesrgan.Processor

/-!
# Storage modes

With 8-bit storage the images on the device are interleaved bytes: they are copied as they are, and the
shaders pick the byte of a channel and round. Without it they are planes of floats: `from_pixels` and
`to_pixels` convert on the host. A `Storage` is what the two modes decide; `int8` and `float` are the two.
In both an element has its own cell, what is loaded of an uploaded pixel is its byte, and what is
downloaded is what was stored.

Conversion between floats and bytes is exact; `to_pixels` truncates and saturates.
-/

namespace LimbWorker.Realesrgan

open Lib

/-- A channel number and the byte it is kept in are exchanged by the same rule. -/
theorem byteOf_byteOf (bgr : Int) {gz : Int} (hgz : 0 ≤ gz ∧ gz < 4) :
    byteOf bgr (byteOf bgr gz) = gz := by
  unfold byteOf
  by_cases h : bgr = 1 ∧ gz ≠ 3
  · rw [if_pos h, if_pos ⟨h.1, by omega⟩]
    omega
  · rw [if_neg h, if_neg h]

/-- What the storage mode decides. `cell` is the address of channel `gz`, row `y` and column `x` in an
image; `memory` is what lies in a new image. -/
structure Storage (K V : Type) where
  cell (w cstep channels gz y x : Int) : Int
  load : V → K
  store : K → V
  fetch : V → UInt8
  upload (w h channels start : Int) (pixels : Int → UInt8) (memory : Int → V) : VkMat V
  create (w h : Int) (memory : Int → V) : VkMat V
  download (m : VkMat V) (channels start : Int) (data : Int → UInt8) : Int → UInt8

namespace Storage

variable {K V : Type} [Field K]

/-- What both modes promise. -/
structure Lawful (S : Storage K V) (bgr : Int) : Prop where
  cell_inj : ∀ {w h cstep channels gz y x gz' y' x' : Int}, w * h ≤ cstep →
    (channels = 3 ∨ channels = 4) → (0 ≤ gz ∧ gz < channels) → (0 ≤ gz' ∧ gz' < channels) →
    (0 ≤ y ∧ y < h) → (0 ≤ y' ∧ y' < h) → (0 ≤ x ∧ x < w) → (0 ≤ x' ∧ x' < w) →
    S.cell w cstep channels gz y x = S.cell w cstep channels gz' y' x' → gz = gz' ∧ y = y' ∧ x = x'
  upload_w : ∀ {w h channels start : Int} {pixels memory}, (channels = 3 ∨ channels = 4) →
    (S.upload w h channels start pixels memory).w = w
  upload_h : ∀ {w h channels start : Int} {pixels memory}, (channels = 3 ∨ channels = 4) →
    (S.upload w h channels start pixels memory).h = h
  load_upload : ∀ {w h channels y0 gz y x : Int} {pixels memory}, (channels = 3 ∨ channels = 4) →
    (0 ≤ gz ∧ gz < channels) → (0 ≤ y ∧ y < h) → (0 ≤ x ∧ x < w) →
    let m := S.upload w h channels (y0 * w * channels) pixels memory
    S.load (m.data (S.cell w m.cstep channels gz y x)) =
      ((pixels (((y0 + y) * w + x) * channels + byteOf bgr gz)).toNat : K)
  create_w : ∀ {w h : Int} {memory}, (S.create w h memory).w = w
  create_h : ∀ {w h : Int} {memory}, (S.create w h memory).h = h
  le_cstep : ∀ {w h : Int} {memory}, w * h ≤ (S.create w h memory).cstep
  download_of_mem : ∀ {m : VkMat V} {channels y0 gz y x : Int} {data : Int → UInt8},
    (channels = 3 ∨ channels = 4) → (0 ≤ gz ∧ gz < channels) → (0 ≤ y ∧ y < m.h) → (0 ≤ x ∧ x < m.w) →
    S.download m channels (y0 * m.w * channels) data
        (((y0 + y) * m.w + x) * channels + byteOf bgr gz) =
      S.fetch (m.data (S.cell m.w m.cstep channels gz y x))
  download_of_not_mem : ∀ {m : VkMat V} {channels y0 gz y x : Int} {data : Int → UInt8},
    (channels = 3 ∨ channels = 4) → (0 ≤ gz ∧ gz < channels) → ¬ (y0 ≤ y ∧ y < y0 + m.h) →
    (0 ≤ x ∧ x < m.w) →
    S.download m channels (y0 * m.w * channels) data ((y * m.w + x) * channels + byteOf bgr gz) =
      data ((y * m.w + x) * channels + byteOf bgr gz)

/-! ## Bands in the image -/

/-- A byte of the image lies in the band from row `y0` on just when its row does. -/
theorem mem_band_iff {w h channels y0 y x k : Int} (hx : 0 ≤ x ∧ x < w) (hk : 0 ≤ k ∧ k < channels) :
    (0 ≤ (y * w + x) * channels + k - y0 * w * channels ∧
        (y * w + x) * channels + k - y0 * w * channels < w * h * channels) ↔
      y0 ≤ y ∧ y < y0 + h := by
  have hindex : (y * w + x) * channels + k - y0 * w * channels =
      ((y - y0) * w + x) * channels + k := by ring
  rw [hindex, interleaved_mem_iff hx hk]
  omega

/-! ## 8-bit storage -/

variable [LinearOrder K] [FloorRing K]

/-- `uint8_t(clamp(uint(floor(v)), 0, 255))`; `uint` is the conversion of the shading language. -/
def toByte (uint : Int → Nat) (v : K) : UInt8 := UInt8.ofNat (min (max (uint ⌊v⌋) 0) 255)

/-- With 8-bit storage. -/
def int8 (uint : Int → Nat) (bgr : Int) : Storage K UInt8 where
  cell := fun w _ channels gz y x => (y * w + x) * channels + byteOf bgr gz
  load := fun b => b.toNat
  store := toByte uint
  fetch := id
  upload := fun w h channels start pixels memory => .upload w h channels start pixels memory
  create := fun w h memory => ⟨w, h, w * h, memory⟩
  download := fun m channels start data => m.download channels start data

theorem lawful_int8 (uint : Int → Nat) (bgr : Int) : (int8 uint bgr : Storage K UInt8).Lawful bgr where
  cell_inj := by
    intro w h cstep channels gz y x gz' y' x' _ hc hgz hgz' hy hy' hx hx' heq
    obtain ⟨hoffset, hbyte⟩ := mul_add_inj (byteOf_mem bgr hc hgz) (byteOf_mem bgr hc hgz') heq
    obtain ⟨hrow, hcolumn⟩ := mul_add_inj hx hx' hoffset
    exact ⟨byteOf_inj bgr (by omega) (by omega) hbyte, hrow, hcolumn⟩
  upload_w := fun _ => rfl
  upload_h := fun _ => rfl
  load_upload := by
    intro w h channels y0 gz y x pixels memory hc hgz hy hx m
    exact congrArg (fun b : UInt8 => (b.toNat : K))
      (VkMat.data_upload hy hx (byteOf_mem bgr hc hgz))
  create_w := rfl
  create_h := rfl
  le_cstep := Int.le_refl _
  download_of_mem := fun hc hgz hy hx => VkMat.download_of_mem hy hx (byteOf_mem bgr hc hgz)
  download_of_not_mem := by
    intro m channels y0 gz y x data hc hgz hrow hx
    show VkMat.download m channels _ data _ = _
    unfold VkMat.download
    rw [if_neg]
    rwa [mem_band_iff hx (byteOf_mem bgr hc hgz)]

/-! ## Float storage -/

/-- The conversion of a float to an integer drops the fraction. -/
def truncate (v : K) : Int := if 0 ≤ v then ⌊v⌋ else ⌈v⌉

/-- `SATURATE_CAST_UCHAR`. -/
def saturate (v : K) : UInt8 := UInt8.ofNat (min (max (truncate v) 0) 255).toNat

/-- `Mat::from_pixels`, from `pixels + start` on: every channel in a plane of its own. -/
def from_pixels (cstep : Int → Int → Int) (bgr w h channels start : Int) (pixels : Int → UInt8)
    (memory : Int → K) : VkMat K :=
  if channels = 3 ∨ channels = 4 then
    { w := w
      h := h
      cstep := cstep w h
      data := fun i =>
        let gz := i / cstep w h
        let offset := i % cstep w h
        if 0 ≤ gz ∧ gz < channels ∧ offset < w * h then
          (pixels (start + offset * channels + byteOf bgr gz)).toNat
        else memory i }
  else .null

/-- `Mat::to_pixels`, to `data + start`. -/
def to_pixels (bgr : Int) (m : VkMat K) (channels start : Int) (data : Int → UInt8) : Int → UInt8 :=
  -- for other numbers of channels nothing is written
  if channels = 3 ∨ channels = 4 then fun i =>
    let offset := i - start
    if 0 ≤ offset ∧ offset < m.w * m.h * channels then
      saturate (m.data (byteOf bgr (offset % channels) * m.cstep + offset / channels))
    else data i
  else data

/-- Without 8-bit storage. On the platform whose pixels are stored blue first (`bgr`), the pixel types of
`from_pixels` and `to_pixels` swap the colours. -/
def float (cstep : Int → Int → Int) (bgr : Int) : Storage K K where
  cell := fun w cstep _ gz y x => gz * cstep + y * w + x
  load := id
  store := id
  fetch := saturate
  upload := from_pixels cstep bgr
  create := fun w h memory => ⟨w, h, cstep w h, memory⟩
  download := to_pixels bgr

omit [Field K] [LinearOrder K] [FloorRing K] in
/-- The row and the column of an element of a plane. -/
theorem plane_mem {w h cstep y x : Int} (hcstep : w * h ≤ cstep) (hy : 0 ≤ y ∧ y < h)
    (hx : 0 ≤ x ∧ x < w) : 0 ≤ y * w + x ∧ y * w + x < w * h ∧ y * w + x < cstep := by
  obtain ⟨hnonneg, hlt⟩ := (plane_mem_iff hx).mpr hy
  exact ⟨hnonneg, hlt, by omega⟩

theorem lawful_float {cstep : Int → Int → Int} (hcstep : ∀ w h, w * h ≤ cstep w h) (bgr : Int) :
    (float cstep bgr : Storage K K).Lawful bgr where
  cell_inj := by
    intro w h cstep channels gz y x gz' y' x' hcstep _ hgz hgz' hy hy' hx hx' heq
    have hplane := plane_mem hcstep hy hx
    have hplane' := plane_mem hcstep hy' hx'
    -- a cell is a plane and an offset in it, and an offset is a row and a column: two divisions with rest
    have hassoc : gz * cstep + (y * w + x) = gz' * cstep + (y' * w + x') := by
      rw [← Int.add_assoc, ← Int.add_assoc]
      exact heq
    obtain ⟨hz, hoffset⟩ := mul_add_inj ⟨hplane.1, hplane.2.2⟩ ⟨hplane'.1, hplane'.2.2⟩ hassoc
    exact ⟨hz, mul_add_inj hx hx' hoffset⟩
  upload_w := by
    intro w h channels start pixels memory hc
    show (from_pixels _ _ _ _ _ _ _ _).w = w
    rw [from_pixels, if_pos hc]
  upload_h := by
    intro w h channels start pixels memory hc
    show (from_pixels _ _ _ _ _ _ _ _).h = h
    rw [from_pixels, if_pos hc]
  load_upload := by
    intro w h channels y0 gz y x pixels memory hc hgz hy hx m
    have hplane := plane_mem (hcstep w h) hy hx
    have hassoc : gz * cstep w h + y * w + x = y * w + x + gz * cstep w h := by omega
    show (from_pixels cstep bgr w h channels _ pixels memory).data (gz * m.cstep + y * w + x) = _
    have hm : m.cstep = cstep w h := by
      show (from_pixels _ _ _ _ _ _ _ _).cstep = _
      rw [from_pixels, if_pos hc]
    rw [hm, hassoc, from_pixels, if_pos hc]
    dsimp only
    -- the rest by `cstep` is the offset in the plane, the quotient the plane
    rw [Int.add_mul_emod_self_right, Int.emod_eq_of_lt hplane.1 hplane.2.2,
      Int.add_mul_ediv_right _ _ (by omega), Int.ediv_eq_zero_of_lt hplane.1 hplane.2.2, Int.zero_add,
      if_pos ⟨hgz.1, hgz.2, hplane.2.1⟩]
    congr 3
    ring
  create_w := rfl
  create_h := rfl
  le_cstep := hcstep _ _
  download_of_mem := by
    intro m channels y0 gz y x data hc hgz hy hx
    have hbyte := byteOf_mem bgr hc hgz
    have hindex : ((y0 + y) * m.w + x) * channels + byteOf bgr gz - y0 * m.w * channels =
        byteOf bgr gz + (y * m.w + x) * channels := by ring
    have hrange : 0 ≤ ((y0 + y) * m.w + x) * channels + byteOf bgr gz - y0 * m.w * channels ∧
        ((y0 + y) * m.w + x) * channels + byteOf bgr gz - y0 * m.w * channels <
          m.w * m.h * channels := (mem_band_iff hx hbyte).mpr (by omega)
    show to_pixels bgr m channels _ data _ = saturate (m.data (gz * m.cstep + y * m.w + x))
    rw [to_pixels, if_pos hc]
    dsimp only
    -- the rest by `channels` is the byte of the pixel, the quotient the pixel
    rw [if_pos hrange, hindex, Int.add_mul_emod_self_right, Int.emod_eq_of_lt hbyte.1 hbyte.2,
      Int.add_mul_ediv_right _ _ (by omega), Int.ediv_eq_zero_of_lt hbyte.1 hbyte.2, Int.zero_add,
      byteOf_byteOf bgr (by omega), Int.add_assoc]
  download_of_not_mem := by
    intro m channels y0 gz y x data hc hgz hrow hx
    show to_pixels bgr m channels _ data _ = _
    rw [to_pixels, if_pos hc]
    dsimp only
    -- a row above or below the band is outside of the bytes written
    rw [if_neg]
    rwa [mem_band_iff hx (byteOf_mem bgr hc hgz)]

end Storage

end LimbWorker.Realesrgan
