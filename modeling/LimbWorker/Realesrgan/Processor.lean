import LimbWorker.Realesrgan.Shaders
import LimbWorker.Utils.Basic

/-!
# `RealesrganProcessor::process_image`

The host side: bands of tile rows, tiles within a band, and the download of every band. This is the
path of a container as it is set up (no test-time augmentation, 8-bit storage); sizes are exact
integers.

What ncnn and the device decide is collected in `Device`: the order in which a dispatch runs the points
of its grid, the channel step of a new image, the contents of fresh memory, the conversion of numbers
outside the range of an unsigned integer, and the enlarging of the alpha channel. The network is any
function of planes.
-/

namespace LimbWorker.Realesrgan

open Lib

/-! ## Images -/

/-- `ImageInfo`; `data` is the memory behind the pointer. -/
structure ImageInfo where
  w : Int
  h : Int
  c : Int
  data : Int → UInt8

/-- An ncnn image, in the memory of the host or of the device. -/
structure VkMat (V : Type) where
  w : Int
  h : Int
  cstep : Int
  data : Int → V

/-- Planes of numbers, by channel, row and column. -/
structure Planes (K : Type) where
  w : Int
  h : Int
  value : Int → Int → Int → K

/-- `ncnn::Net` with its blobs "data" and "output". -/
structure Network (K : Type) where
  extract : Planes K → Planes K

/-- What is left open by ncnn and the device. Fresh memory belongs to a band, or to a tile of a band. -/
structure Device (K : Type) where
  order : List GridPoint → List GridPoint
  perm : ∀ points, (order points).Perm points
  cstep : Int → Int → Int
  le_cstep : ∀ w h, w * h ≤ cstep w h
  uint : Int → Nat
  uint_of_nonneg : ∀ n : Int, 0 ≤ n → n < 4294967296 → uint n = n.toNat
  imageMemory : Int → UInt8
  bandMemory : Nat → Int → UInt8
  tileMemory : Nat → Nat → PreprocBlob × Int → K
  outTileMemory : Nat → Nat → Int → K
  bicubic : Int → VkMat K → VkMat K

namespace VkMat

variable {V : Type}

/-- An image that was never created. -/
def null [Zero V] : VkMat V := ⟨0, 0, 0, fun _ => 0⟩

/-- The planes of an image on the device. -/
def toPlanes (m : VkMat V) : Planes V :=
  ⟨m.w, m.h, fun c y x => m.data (c * m.cstep + y * m.w + x)⟩

/-- Planes as an image on the device; `memory` is what lies between the planes. -/
def ofPlanes (cstep : Int) (memory : Int → V) (f : Planes V) : VkMat V where
  w := f.w
  h := f.h
  cstep := cstep
  data := fun i =>
    let offset := i % cstep
    if offset < f.w * f.h then f.value (i / cstep) (offset / f.w) (offset % f.w) else memory i

/-- `record_clone` to the device: the bytes of an interleaved image, from `pixeldata + start` on. -/
def upload (w h channels start : Int) (pixeldata memory : Int → UInt8) : VkMat UInt8 where
  w := w
  h := h
  cstep := w * h
  data := fun i => if 0 ≤ i ∧ i < w * h * channels then pixeldata (start + i) else memory i

/-- `record_clone` to the host: the bytes of an interleaved image, to `data + start`. -/
def download (m : VkMat UInt8) (channels start : Int) (data : Int → UInt8) : Int → UInt8 :=
  fun i =>
    if 0 ≤ i - start ∧ i - start < m.w * m.h * channels then m.data (i - start) else data i

/-- Planes are read back from their image. -/
theorem data_ofPlanes {cstep : Int} {memory : Int → V} {f : Planes V} {c y x : Int}
    (hcstep : f.w * f.h ≤ cstep) (hy : 0 ≤ y ∧ y < f.h) (hx : 0 ≤ x ∧ x < f.w) :
    (ofPlanes cstep memory f).data (c * cstep + (y * f.w + x)) = f.value c y x := by
  have hoffset : 0 ≤ y * f.w + x ∧ y * f.w + x < f.w * f.h :=
    (plane_mem_iff hx).mpr hy
  simp only [ofPlanes]
  rw [Int.add_comm (c * cstep), Int.add_mul_emod_self_right,
    Int.emod_eq_of_lt hoffset.1 (by omega), if_pos hoffset.2,
    Int.add_mul_ediv_right _ _ (by omega), Int.ediv_eq_zero_of_lt hoffset.1 (by omega),
    Int.add_comm (y * f.w), Int.add_mul_emod_self_right, Int.emod_eq_of_lt hx.1 hx.2,
    Int.add_mul_ediv_right _ _ (by omega), Int.ediv_eq_zero_of_lt hx.1 hx.2, Int.zero_add,
    Int.zero_add]

/-- An uploaded band shows the rows of the image from its first row on. -/
theorem data_upload {w h channels y0 : Int} {pixeldata memory : Int → UInt8} {y x k : Int}
    (hy : 0 ≤ y ∧ y < h) (hx : 0 ≤ x ∧ x < w) (hk : 0 ≤ k ∧ k < channels) :
    (upload w h channels (y0 * w * channels) pixeldata memory).data ((y * w + x) * channels + k) =
      pixeldata (((y0 + y) * w + x) * channels + k) := by
  have hrange : 0 ≤ (y * w + x) * channels + k ∧
      (y * w + x) * channels + k < w * h * channels :=
    (interleaved_mem_iff hx hk).mpr hy
  simp only [upload]
  rw [if_pos hrange]
  congr 1
  ring

/-- A downloaded band is found from its first row on. -/
theorem download_of_mem {m : VkMat UInt8} {channels y0 : Int} {data : Int → UInt8} {y x k : Int}
    (hy : 0 ≤ y ∧ y < m.h) (hx : 0 ≤ x ∧ x < m.w) (hk : 0 ≤ k ∧ k < channels) :
    m.download channels (y0 * m.w * channels) data (((y0 + y) * m.w + x) * channels + k) =
      m.data ((y * m.w + x) * channels + k) := by
  have hrange : 0 ≤ (y * m.w + x) * channels + k ∧
      (y * m.w + x) * channels + k < m.w * m.h * channels :=
    (interleaved_mem_iff hx hk).mpr hy
  have hindex : ((y0 + y) * m.w + x) * channels + k - y0 * m.w * channels =
      (y * m.w + x) * channels + k := by ring
  simp only [download]
  rw [hindex, if_pos hrange]

/-- The rows before a downloaded band stay as they are. -/
theorem download_of_lt {m : VkMat UInt8} {channels y0 : Int} {data : Int → UInt8} {y x k : Int}
    (hy : y < y0) (hx : 0 ≤ x ∧ x < m.w) (hk : 0 ≤ k ∧ k < channels) :
    m.download channels (y0 * m.w * channels) data ((y * m.w + x) * channels + k) =
      data ((y * m.w + x) * channels + k) := by
  have hindex : (y * m.w + x) * channels + k - y0 * m.w * channels =
      ((y - y0) * m.w + x) * channels + k := by ring
  simp only [download]
  rw [hindex, if_neg]
  rw [mul_add_nonneg_iff hk, mul_add_nonneg_iff hx]
  omega

end VkMat

/-! ## The processor -/

structure RealesrganProcessor (K : Type) where
  net : Network K
  scale : Int
  tilesize : Int
  prepadding : Int

namespace RealesrganProcessor

/-- The constructor. -/
def new {K : Type} (net : Network K) : RealesrganProcessor K := ⟨net, 4, 200, 10⟩

variable {K : Type} [Field K] [LinearOrder K] [FloorRing K]
variable (this : RealesrganProcessor K) (device : Device K) (bgr : Int) (inimage : ImageInfo)

/-- `xtiles`. -/
def xtiles : Int := (inimage.w + this.tilesize - 1) / this.tilesize

/-- `ytiles`. -/
def ytiles : Int := (inimage.h + this.tilesize - 1) / this.tilesize

/-- `in_gpu` of a band: its rows with the padding that the image has. -/
def in_gpu (yi : Nat) : VkMat UInt8 :=
  let in_tile_y0 := max (yi * this.tilesize - this.prepadding) 0
  let in_tile_y1 := min ((yi + 1) * this.tilesize + this.prepadding) inimage.h
  .upload inimage.w (in_tile_y1 - in_tile_y0) inimage.c (in_tile_y0 * inimage.w * inimage.c)
    inimage.data (device.bandMemory yi)

/-- `out_gpu` of a band, when it is created. -/
def out_gpu (yi : Nat) : VkMat UInt8 :=
  let out_tile_y0 := max (yi * this.tilesize) 0
  let out_tile_y1 := min ((yi + 1) * this.tilesize) inimage.h
  let w := inimage.w * this.scale
  let h := (out_tile_y1 - out_tile_y0) * this.scale
  ⟨w, h, w * h, device.bandMemory yi⟩

/-- The push constants of the preprocessing of a tile; the tile images are created with these sizes. -/
def preprocConstants (yi xi : Nat) (in_gpu : VkMat UInt8) : PreprocParameter :=
  let tile_w_nopad := min ((xi + 1) * this.tilesize) inimage.w - xi * this.tilesize
  let tile_h_nopad := min ((yi + 1) * this.tilesize) inimage.h - yi * this.tilesize
  let tile_x0 := xi * this.tilesize - this.prepadding
  let tile_x1 := min ((xi + 1) * this.tilesize) inimage.w + this.prepadding
  let tile_y0 := yi * this.tilesize - this.prepadding
  let tile_y1 := min ((yi + 1) * this.tilesize) inimage.h + this.prepadding
  { w := in_gpu.w
    h := in_gpu.h
    cstep := in_gpu.cstep
    outw := tile_x1 - tile_x0
    outh := tile_y1 - tile_y0
    outcstep := device.cstep (tile_x1 - tile_x0) (tile_y1 - tile_y0)
    pad_top := this.prepadding
    pad_left := this.prepadding
    crop_x := xi * this.tilesize
    crop_y := min (yi * this.tilesize) this.prepadding
    channels := inimage.c
    alphaw := if inimage.c = 4 then tile_w_nopad else 0
    alphah := if inimage.c = 4 then tile_h_nopad else 0 }

/-- The preprocessing of a tile: `in_tile_gpu` and `in_alpha_tile_gpu`. -/
def preprocTile (yi xi : Nat) (in_gpu : VkMat UInt8) : VkMat K × VkMat K :=
  let p := this.preprocConstants device inimage yi xi in_gpu
  let memory := dispatch (preproc bgr p in_gpu.data)
    (device.order (grid p.outw p.outh p.channels)) (device.tileMemory yi xi)
  (⟨p.outw, p.outh, p.outcstep, fun i => memory (.top, i)⟩,
    ⟨p.alphaw, p.alphah, device.cstep p.alphaw p.alphah, fun i => memory (.alpha, i)⟩)

/-- Running the network on a tile. -/
def extractTile (yi xi : Nat) (in_tile_gpu : VkMat K) : VkMat K :=
  let output := this.net.extract in_tile_gpu.toPlanes
  .ofPlanes (device.cstep output.w output.h) (device.outTileMemory yi xi) output

/-- Enlarging the alpha channel of a tile. -/
def alphaTile (in_alpha_tile_gpu : VkMat K) : VkMat K :=
  if inimage.c = 4 then
    if this.scale = 1 then in_alpha_tile_gpu
    else if this.scale = 2 ∨ this.scale = 3 ∨ this.scale = 4 then
      device.bicubic this.scale in_alpha_tile_gpu
    else .null
  else .null

/-- The push constants of the postprocessing of a tile. -/
def postprocConstants (xi : Nat) (out_tile_gpu out_alpha_tile_gpu : VkMat K)
    (out_gpu : VkMat UInt8) : PostprocParameter where
  w := out_tile_gpu.w
  h := out_tile_gpu.h
  cstep := out_tile_gpu.cstep
  outw := out_gpu.w
  outh := out_gpu.h
  outcstep := out_gpu.cstep
  offset_x := xi * this.tilesize * this.scale
  gx_max := min (this.tilesize * this.scale) (out_gpu.w - xi * this.tilesize * this.scale)
  crop_x := this.prepadding * this.scale
  crop_y := this.prepadding * this.scale
  channels := inimage.c
  alphaw := out_alpha_tile_gpu.w
  alphah := out_alpha_tile_gpu.h

/-- The postprocessing of a tile: `out_gpu` as it is left. -/
def postprocTile (xi : Nat) (out_tile_gpu out_alpha_tile_gpu : VkMat K) (out_gpu : VkMat UInt8) :
    VkMat UInt8 :=
  let p := this.postprocConstants inimage xi out_tile_gpu out_alpha_tile_gpu out_gpu
  let main := postproc device.uint bgr p out_tile_gpu.data out_alpha_tile_gpu.data
  { out_gpu with
    data := dispatch main (device.order (grid p.gx_max p.outh p.channels)) out_gpu.data }

/-- One tile. -/
def processTile (yi xi : Nat) (in_gpu out_gpu : VkMat UInt8) : VkMat UInt8 :=
  let (in_tile_gpu, in_alpha_tile_gpu) := this.preprocTile device bgr inimage yi xi in_gpu
  let out_tile_gpu := this.extractTile device yi xi in_tile_gpu
  let out_alpha_tile_gpu := this.alphaTile device inimage in_alpha_tile_gpu
  this.postprocTile device bgr inimage xi out_tile_gpu out_alpha_tile_gpu out_gpu

/-- The tiles of a band, up to number `n`. -/
def processTiles (yi : Nat) (n : Nat) : VkMat UInt8 :=
  (List.range n).foldl (fun out_gpu xi =>
    this.processTile device bgr inimage yi xi (this.in_gpu device inimage yi) out_gpu)
    (this.out_gpu device inimage yi)

/-- One band: all its tiles, and the download. -/
def processBand (data : Int → UInt8) (yi : Nat) : Int → UInt8 :=
  (this.processTiles device bgr inimage yi (this.xtiles inimage).toNat).download inimage.c
    (yi * this.scale * this.tilesize * inimage.w * this.scale * inimage.c) data

/-- `process_image`: the status, the output image and the values given to the progress callback. -/
def process_image : ReturnStatus × ImageInfo × List K :=
  let xtiles := this.xtiles inimage
  let ytiles := this.ytiles inimage
  let data := (List.range ytiles.toNat).foldl (this.processBand device bgr inimage)
    device.imageMemory
  let progress := (List.range ytiles.toNat).flatMap fun (yi : Nat) =>
    (List.range xtiles.toNat).map fun (xi : Nat) =>
      (((yi * xtiles + (xi + 1) : Int) : K) / ((ytiles * xtiles : Int) : K))
  (.kOk, ⟨inimage.w * 4, inimage.h * 4, inimage.c, data⟩, 0 :: progress)

end RealesrganProcessor

end LimbWorker.Realesrgan
