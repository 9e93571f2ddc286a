import LimbWorker.Realesrgan.Storage

/-!
# `process_image` in all its modes

The program with both storage modes and with or without test-time augmentation (TTA). With TTA the
preprocessing writes eight images of a tile, one for each symmetry of the rectangle; the network runs on
all of them, and the postprocessing takes their mean. Sizes and push constants are those of
`Processor.lean`, and the mode modelled there is one of the modes here (`process_image_int8`).

`Gpu` is what ncnn and the device fix once and for all, `Schedule` what may differ from run to run.
-/

namespace LimbWorker.Realesrgan

open Lib

/-- The images that the preprocessing of a tile writes. Without TTA the only tile image is number 0. -/
inductive TileBlob where
  | top (ti : Fin 8)
  | alpha
  deriving DecidableEq, Repr

/-- The blobs of `realesrgan_preproc.comp` among those of both preprocessings. -/
def PreprocBlob.toTileBlob : PreprocBlob → TileBlob
  | .top => .top 0
  | .alpha => .alpha

/-- What ncnn and the device fix: the channel steps of tile images and of bands, and the conversion of
numbers outside the range of an unsigned integer. -/
structure Gpu (K : Type) where
  cstep : Int → Int → Int
  le_cstep : ∀ w h, w * h ≤ cstep w h
  cstep_comm : ∀ w h, cstep w h = cstep h w
  bandCstep : Int → Int → Int
  le_bandCstep : ∀ w h, w * h ≤ bandCstep w h
  uint : Int → Nat
  uint_of_nonneg : ∀ n : Int, 0 ≤ n → n < 4294967296 → uint n = n.toNat

/-- The layer `Interp` for images of one channel: the size of its output, and that it depends on the
pixels only. -/
structure Bicubic (K : Type) where
  forward : Int → VkMat K → VkMat K
  forward_w : ∀ scale m, (forward scale m).w = scale * m.w
  forward_h : ∀ scale m, (forward scale m).h = scale * m.h
  forward_congr : ∀ scale m m', m.w = m'.w → m.h = m'.h →
    (∀ y x, (0 ≤ y ∧ y < m.h) → (0 ≤ x ∧ x < m.w) → m.data (y * m.w + x) = m'.data (y * m.w + x)) →
    ∀ y x, (0 ≤ y ∧ y < scale * m.h) → (0 ≤ x ∧ x < scale * m.w) →
      (forward scale m).data (y * (scale * m.w) + x) = (forward scale m').data (y * (scale * m.w) + x)

/-- What may differ from run to run: the order in which a dispatch runs the points of its grid, and what
lies in fresh memory. -/
structure Schedule (K V : Type) where
  order : List GridPoint → List GridPoint
  perm : ∀ points, (order points).Perm points
  imageMemory : Int → UInt8
  bandMemory : Nat → Int → V
  tileMemory : Nat → Nat → TileBlob × Int → K
  outTileMemory : Nat → Nat → Fin 8 → Int → K

/-- A machine that runs the program. -/
structure Machine (K V : Type) where
  gpu : Gpu K
  bicubic : Bicubic K
  run : Schedule K V

/-- The machine as a device of `Processor.lean`; `bandMemory` is the memory of its bands. -/
def Machine.device {K V : Type} (machine : Machine K V) (bandMemory : Nat → Int → UInt8) : Device K where
  order := machine.run.order
  perm := machine.run.perm
  cstep := machine.gpu.cstep
  le_cstep := machine.gpu.le_cstep
  uint := machine.gpu.uint
  uint_of_nonneg := machine.gpu.uint_of_nonneg
  imageMemory := machine.run.imageMemory
  bandMemory := bandMemory
  tileMemory := fun yi xi a => machine.run.tileMemory yi xi (a.1.toTileBlob, a.2)
  outTileMemory := fun yi xi => machine.run.outTileMemory yi xi 0
  bicubic := machine.bicubic.forward

/-- The sizes of an image: all that push constants are made of. -/
def VkMat.sizes {V : Type} (m : VkMat V) : VkMat UInt8 := ⟨m.w, m.h, m.cstep, fun _ => 0⟩

/-! ## Shaders -/

section Shaders

variable {K V : Type} [Field K]

/-- Where `realesrgan_preproc.comp` stores a colour value. -/
def preprocTops (p : PreprocParameter) (gz gy gx : Int) : List (Fin 8 × Int) :=
  [(0, gz * p.outcstep + gy * p.outw + gx)]

/-- Where `realesrgan_preproc_tta.comp` does. -/
def preprocTtaTops (p : PreprocParameter) (gz gy gx : Int) : List (Fin 8 × Int) :=
  let gzi := gz * p.outcstep
  [(0, gzi + gy * p.outw + gx),
   (1, gzi + gy * p.outw + (p.outw - 1 - gx)),
   (2, gzi + (p.outh - 1 - gy) * p.outw + (p.outw - 1 - gx)),
   (3, gzi + (p.outh - 1 - gy) * p.outw + gx),
   (4, gzi + gx * p.outh + gy),
   (5, gzi + gx * p.outh + (p.outh - 1 - gy)),
   (6, gzi + (p.outw - 1 - gx) * p.outh + (p.outh - 1 - gy)),
   (7, gzi + (p.outw - 1 - gx) * p.outh + gy)]

/-- `main` of both preprocessings. -/
def preprocMain (S : Storage K V) (tops : PreprocParameter → Int → Int → Int → List (Fin 8 × Int))
    (p : PreprocParameter) (bottom_blob_data : Int → V) (g : GridPoint) :
    List ((TileBlob × Int) × K) :=
  let gx := g.gx
  let gy := g.gy
  let gz := g.gz
  if gx ≥ p.outw ∨ gy ≥ p.outh ∨ gz ≥ p.channels then []
  else
    let x := |gx + p.crop_x - p.pad_left|
    let y := |gy + p.crop_y - p.pad_top|
    let x := (p.w - 1) - |x - (p.w - 1)|
    let y := (p.h - 1) - |y - (p.h - 1)|
    let v := S.load (bottom_blob_data (S.cell p.w p.cstep p.channels gz y x))
    if gz = 3 then
      -- the alpha channel has no padding and is not normalised
      let gx := gx - p.pad_left
      let gy := gy - p.pad_top
      if gx ≥ 0 ∧ gx < p.alphaw ∧ gy ≥ 0 ∧ gy < p.alphah then
        [((.alpha, gy * p.alphaw + gx), v)]
      else []
    else (tops p gz gy gx).map fun top => ((.top top.1, top.2), normalise v)

/-- The colour value that `realesrgan_postproc.comp` reads. -/
def postprocColour (p : PostprocParameter) (bottom_blob_data : Fin 8 → Int → K) (gz gy gx : Int) : K :=
  bottom_blob_data 0 (gz * p.cstep + (gy + p.crop_y) * p.w + gx + p.crop_x)

/-- Where `realesrgan_postproc.comp` reads it. -/
def postprocBottoms (p : PostprocParameter) (gz gy gx : Int) : List (Fin 8 × Int) :=
  [(0, gz * p.cstep + (gy + p.crop_y) * p.w + gx + p.crop_x)]

/-- Where `realesrgan_postproc_tta.comp` reads a colour value. -/
def postprocTtaBottoms (p : PostprocParameter) (gz gy gx : Int) : List (Fin 8 × Int) :=
  let gzi := gz * p.cstep
  let sy := gy + p.crop_y
  let sx := gx + p.crop_x
  [(0, gzi + sy * p.w + sx),
   (1, gzi + sy * p.w + (p.w - 1 - sx)),
   (2, gzi + (p.h - 1 - sy) * p.w + (p.w - 1 - sx)),
   (3, gzi + (p.h - 1 - sy) * p.w + sx),
   (4, gzi + sx * p.h + sy),
   (5, gzi + sx * p.h + (p.h - 1 - sy)),
   (6, gzi + (p.w - 1 - sx) * p.h + (p.h - 1 - sy)),
   (7, gzi + (p.w - 1 - sx) * p.h + sy)]

/-- The mean of eight values. -/
def mean (v : List K) : K := v.sum * (1 / 8)

/-- The colour value of `realesrgan_postproc_tta.comp`: the mean of what it reads. -/
def postprocTtaColour (p : PostprocParameter) (bottom_blob_data : Fin 8 → Int → K) (gz gy gx : Int) :
    K :=
  mean ((postprocTtaBottoms p gz gy gx).map fun bottom => bottom_blob_data bottom.1 bottom.2)

/-- What both postprocessings make of a point, before it becomes an element of the band. -/
def postprocValue (colour : PostprocParameter → (Fin 8 → Int → K) → Int → Int → Int → K)
    (p : PostprocParameter) (bottom_blob_data : Fin 8 → Int → K) (alpha_blob_data : Int → K)
    (g : GridPoint) : K :=
  let v :=
    if g.gz = 3 then alpha_blob_data (g.gy * p.alphaw + g.gx)
    else denormalise (colour p bottom_blob_data g.gz g.gy g.gx)
  clip v

/-- `main` of both postprocessings. -/
def postprocMain (S : Storage K V)
    (colour : PostprocParameter → (Fin 8 → Int → K) → Int → Int → Int → K) (p : PostprocParameter)
    (bottom_blob_data : Fin 8 → Int → K) (alpha_blob_data : Int → K) (g : GridPoint) : List (Int × V) :=
  if g.gx ≥ p.gx_max ∨ g.gy ≥ p.outh ∨ g.gz ≥ p.channels then []
  else
    [(S.cell p.outw p.outcstep p.channels g.gz g.gy (g.gx + p.offset_x),
      S.store (postprocValue colour p bottom_blob_data alpha_blob_data g))]

end Shaders

/-! ## The processor -/

/-- `RealesrganProcessor` with its mode. -/
structure FullProcessor (K : Type) extends RealesrganProcessor K where
  tta_mode : Bool

namespace FullProcessor

/-- The constructor. -/
def new {K : Type} (net : Network K) (tta_mode : Bool) : FullProcessor K := ⟨.new net, tta_mode⟩

variable {K V : Type} [Field K]
variable (this : FullProcessor K) (machine : Machine K V) (S : Storage K V) (inimage : ImageInfo)

/-- The tile images that the network is run on. -/
def Runs (ti : Fin 8) : Prop := this.tta_mode = true ∨ ti = 0

/-- The stores of the preprocessing pipeline. -/
def tops : PreprocParameter → Int → Int → Int → List (Fin 8 × Int) :=
  if this.tta_mode then preprocTtaTops else preprocTops

/-- The reads of the postprocessing pipeline. -/
def colour : PostprocParameter → (Fin 8 → Int → K) → Int → Int → Int → K :=
  if this.tta_mode then postprocTtaColour else postprocColour

/-- The elements that they are. -/
def bottoms : PostprocParameter → Int → Int → Int → List (Fin 8 × Int) :=
  if this.tta_mode then postprocTtaBottoms else postprocBottoms

/-- `in_gpu` of a band: its rows with the padding that the image has. -/
def in_gpu (yi : Nat) : VkMat V :=
  let in_tile_y0 := max (yi * this.tilesize - this.prepadding) 0
  let in_tile_y1 := min ((yi + 1) * this.tilesize + this.prepadding) inimage.h
  S.upload inimage.w (in_tile_y1 - in_tile_y0) inimage.c (in_tile_y0 * inimage.w * inimage.c)
    inimage.data (machine.run.bandMemory yi)

/-- `out_gpu` of a band, when it is created. -/
def out_gpu (yi : Nat) : VkMat V :=
  let out_tile_y0 := max (yi * this.tilesize) 0
  let out_tile_y1 := min ((yi + 1) * this.tilesize) inimage.h
  S.create (inimage.w * this.scale) ((out_tile_y1 - out_tile_y0) * this.scale)
    (machine.run.bandMemory yi)

/-- The push constants of the preprocessing of a tile. -/
def preprocConstants (yi xi : Nat) : PreprocParameter :=
  this.toRealesrganProcessor.preprocConstants (machine.device fun _ _ => 0) inimage yi xi
    (this.in_gpu machine S inimage yi).sizes

/-- What the preprocessing of a tile leaves in the tile images. -/
def preprocMemory (yi xi : Nat) : TileBlob × Int → K :=
  let p := this.preprocConstants machine S inimage yi xi
  dispatch (preprocMain S this.tops p (this.in_gpu machine S inimage yi).data)
    (machine.run.order (grid p.outw p.outh p.channels)) (machine.run.tileMemory yi xi)

/-- `in_tile_gpu[ti]`; the last four have the sides exchanged. -/
def inTile (yi xi : Nat) (ti : Fin 8) : VkMat K :=
  let p := this.preprocConstants machine S inimage yi xi
  let w := if ti < 4 then p.outw else p.outh
  let h := if ti < 4 then p.outh else p.outw
  ⟨w, h, machine.gpu.cstep w h, fun i => this.preprocMemory machine S inimage yi xi (.top ti, i)⟩

/-- `in_alpha_tile_gpu`. -/
def inAlphaTile (yi xi : Nat) : VkMat K :=
  let p := this.preprocConstants machine S inimage yi xi
  ⟨p.alphaw, p.alphah, machine.gpu.cstep p.alphaw p.alphah,
    fun i => this.preprocMemory machine S inimage yi xi (.alpha, i)⟩

/-- `out_tile_gpu[ti]`: the network runs on every tile image. -/
def outTile (yi xi : Nat) (ti : Fin 8) : VkMat K :=
  let output := this.net.extract (this.inTile machine S inimage yi xi ti).toPlanes
  .ofPlanes (machine.gpu.cstep output.w output.h) (machine.run.outTileMemory yi xi ti) output

/-- `out_alpha_tile_gpu`. -/
def outAlphaTile (yi xi : Nat) : VkMat K :=
  this.toRealesrganProcessor.alphaTile (machine.device fun _ _ => 0) inimage
    (this.inAlphaTile machine S inimage yi xi)

/-- The push constants of the postprocessing of a tile. -/
def postprocConstants (yi xi : Nat) (out_gpu : VkMat V) : PostprocParameter :=
  this.toRealesrganProcessor.postprocConstants inimage xi (this.outTile machine S inimage yi xi 0)
    (this.outAlphaTile machine S inimage yi xi) out_gpu.sizes

/-- One tile: `out_gpu` as it is left. -/
def processTile (yi : Nat) (out_gpu : VkMat V) (xi : Nat) : VkMat V :=
  let p := this.postprocConstants machine S inimage yi xi out_gpu
  let main := postprocMain S this.colour p (fun ti => (this.outTile machine S inimage yi xi ti).data)
    (this.outAlphaTile machine S inimage yi xi).data
  { out_gpu with
    data := dispatch main (machine.run.order (grid p.gx_max p.outh p.channels)) out_gpu.data }

/-- One band: all its tiles, and the download. -/
def processBand (data : Int → UInt8) (yi : Nat) : Int → UInt8 :=
  let xtiles := this.toRealesrganProcessor.xtiles inimage
  let out_gpu := (List.range xtiles.toNat).foldl (this.processTile machine S inimage yi)
    (this.out_gpu machine S inimage yi)
  S.download out_gpu inimage.c
    (yi * this.scale * this.tilesize * inimage.w * this.scale * inimage.c) data

/-- `process_image`: the status, the output image and the values given to the progress callback. -/
def process_image : ReturnStatus × ImageInfo × List K :=
  let xtiles := this.toRealesrganProcessor.xtiles inimage
  let ytiles := this.toRealesrganProcessor.ytiles inimage
  let data := (List.range ytiles.toNat).foldl (this.processBand machine S inimage)
    machine.run.imageMemory
  let progress := (List.range ytiles.toNat).flatMap fun (yi : Nat) =>
    (List.range xtiles.toNat).map fun (xi : Nat) =>
      (((yi * xtiles + (xi + 1) : Int) : K) / ((ytiles * xtiles : Int) : K))
  (.kOk, ⟨inimage.w * 4, inimage.h * 4, inimage.c, data⟩, 0 :: progress)

end FullProcessor

/-! ## The mode of `Processor.lean` -/

theorem toTileBlob_injective :
    Function.Injective fun a : PreprocBlob × Int => (a.1.toTileBlob, a.2) := by
  rintro ⟨b, i⟩ ⟨b', i'⟩ h
  cases b <;> cases b' <;> simp_all [PreprocBlob.toTileBlob]

variable {K : Type} [Field K] [LinearOrder K] [FloorRing K]

/-- With 8-bit storage and one tile image the preprocessing is `preproc`. -/
theorem preprocMain_int8 (uint : Int → Nat) (bgr : Int) (p : PreprocParameter) (data : Int → UInt8)
    (g : GridPoint) :
    preprocMain (.int8 uint bgr : Storage K UInt8) preprocTops p data g =
      (preproc bgr p data g).map fun s => ((s.1.1.toTileBlob, s.1.2), s.2) := by
  unfold preprocMain preproc
  dsimp only
  split
  · rfl
  · split
    · split <;> rfl
    · rfl

/-- So is the postprocessing. -/
theorem postprocMain_int8 (uint : Int → Nat) (bgr : Int) (p : PostprocParameter)
    (bottom : Fin 8 → Int → K) (alpha : Int → K) (g : GridPoint) :
    postprocMain (.int8 uint bgr : Storage K UInt8) postprocColour p bottom alpha g =
      postproc uint bgr p (bottom 0) alpha g := by
  unfold postprocMain postproc
  dsimp only
  split
  · rfl
  · have haddress : g.gy * p.outw + (g.gx + p.offset_x) = g.gy * p.outw + g.gx + p.offset_x := by
      omega
    show [((g.gy * p.outw + (g.gx + p.offset_x)) * p.channels + byteOf bgr g.gz, _)] = _
    rw [haddress]
    rfl

namespace FullProcessor

variable (this : RealesrganProcessor K) (machine : Machine K UInt8) (bgr : Int) (inimage : ImageInfo)

/-- The program in the mode of `Processor.lean`. -/
def plain : FullProcessor K := ⟨this, false⟩

/-- What the preprocessing of a tile leaves in this mode. -/
theorem preprocMemory_int8 (yi xi : Nat) (b : PreprocBlob) (i : Int) :
    let device := machine.device machine.run.bandMemory
    let p := this.preprocConstants device inimage yi xi (this.in_gpu device inimage yi)
    (plain this).preprocMemory machine (.int8 machine.gpu.uint bgr) inimage yi xi (b.toTileBlob, i) =
      dispatch (preproc bgr p (this.in_gpu device inimage yi).data)
        (device.order (grid p.outw p.outh p.channels)) (device.tileMemory yi xi) (b, i) := by
  intro device p
  exact dispatch_map toTileBlob_injective (preprocMain_int8 _ bgr p _) _ _ (b, i)

/-- The tile image in this mode. -/
theorem inTile_int8 (yi xi : Nat) :
    let device := machine.device machine.run.bandMemory
    ((plain this).inTile machine (.int8 machine.gpu.uint bgr) inimage yi xi 0,
        (plain this).inAlphaTile machine (.int8 machine.gpu.uint bgr) inimage yi xi) =
      this.preprocTile device bgr inimage yi xi (this.in_gpu device inimage yi) := by
  intro device
  let p := this.preprocConstants device inimage yi xi (this.in_gpu device inimage yi)
  refine Prod.ext ?_ ?_
  · exact congrArg (fun data => (⟨p.outw, p.outh, p.outcstep, data⟩ : VkMat K))
      (funext (preprocMemory_int8 this machine bgr inimage yi xi .top))
  · exact congrArg (fun data =>
        (⟨p.alphaw, p.alphah, device.cstep p.alphaw p.alphah, data⟩ : VkMat K))
      (funext (preprocMemory_int8 this machine bgr inimage yi xi .alpha))

/-- The postprocessing of a tile in this mode. -/
theorem postprocTile_int8 (xi : Nat) (tiles : Fin 8 → VkMat K) (alpha : VkMat K)
    (out_gpu : VkMat UInt8) :
    let p := this.postprocConstants inimage xi (tiles 0) alpha out_gpu.sizes
    let main := postprocMain (.int8 machine.gpu.uint bgr) (plain this).colour p
      (fun ti => (tiles ti).data) alpha.data
    { out_gpu with
      data := dispatch main (machine.run.order (grid p.gx_max p.outh p.channels)) out_gpu.data } =
      this.postprocTile (machine.device machine.run.bandMemory) bgr inimage xi (tiles 0) alpha out_gpu := by
  intro p main
  have hmain : main = postproc machine.gpu.uint bgr p (tiles 0).data alpha.data :=
    funext (postprocMain_int8 machine.gpu.uint bgr p (fun ti => (tiles ti).data) alpha.data)
  rw [hmain]
  rfl

/-- One tile in this mode. -/
theorem processTile_int8 (yi : Nat) (out_gpu : VkMat UInt8) (xi : Nat) :
    let device := machine.device machine.run.bandMemory
    (plain this).processTile machine (.int8 machine.gpu.uint bgr) inimage yi out_gpu xi =
      this.processTile device bgr inimage yi xi (this.in_gpu device inimage yi) out_gpu := by
  intro device
  have htile := inTile_int8 this machine bgr inimage yi xi
  have hout : (plain this).outTile machine (.int8 machine.gpu.uint bgr) inimage yi xi 0 =
      this.extractTile device yi xi
        (this.preprocTile device bgr inimage yi xi (this.in_gpu device inimage yi)).1 :=
    congrArg (fun tile : VkMat K × VkMat K => this.extractTile device yi xi tile.1) htile
  have halpha : (plain this).outAlphaTile machine (.int8 machine.gpu.uint bgr) inimage yi xi =
      this.alphaTile device inimage
        (this.preprocTile device bgr inimage yi xi (this.in_gpu device inimage yi)).2 :=
    congrArg (fun tile : VkMat K × VkMat K => this.alphaTile device inimage tile.2) htile
  refine (postprocTile_int8 this machine bgr inimage xi
    ((plain this).outTile machine (.int8 machine.gpu.uint bgr) inimage yi xi)
    ((plain this).outAlphaTile machine (.int8 machine.gpu.uint bgr) inimage yi xi) out_gpu).trans ?_
  rw [hout, halpha]
  rfl

/-- **The program of `Processor.lean`** is the one with 8-bit storage and without TTA. -/
theorem process_image_int8 :
    (plain this).process_image machine (.int8 machine.gpu.uint bgr) inimage =
      this.process_image (machine.device machine.run.bandMemory) bgr inimage := by
  have hband : (plain this).processBand machine (.int8 machine.gpu.uint bgr) inimage =
      this.processBand (machine.device machine.run.bandMemory) bgr inimage := by
    funext data yi
    have hstep : (plain this).processTile machine (.int8 machine.gpu.uint bgr) inimage yi =
        fun out_gpu xi => this.processTile (machine.device machine.run.bandMemory) bgr inimage yi xi
          (this.in_gpu (machine.device machine.run.bandMemory) inimage yi) out_gpu :=
      funext fun out_gpu => funext (processTile_int8 this machine bgr inimage yi out_gpu)
    unfold processBand
    rw [hstep]
    rfl
  unfold process_image
  rw [hband]
  rfl

end FullProcessor

end LimbWorker.Realesrgan
