import LimbWorker.Realesrgan.Modes

/-!
# Every byte comes from its tile

In all modes the output is put together in the same way: the tiles of a band fill its columns from left
to right, and the bands fill the rows of the image from top to bottom. A byte of the output is the value
that the postprocessing computes for one point of one tile, stored, downloaded, and not touched again.
Nothing about the network is needed here.
-/

namespace LimbWorker.Realesrgan

open Lib

section

variable {K V : Type} [Field K]

/-- **What an invocation stores in the band**, in all modes. -/
theorem mem_postprocMain {S : Storage K V}
    {colour : PostprocParameter → (Fin 8 → Int → K) → Int → Int → Int → K} {p : PostprocParameter}
    {bottom : Fin 8 → Int → K} {alpha : Int → K} {g : GridPoint} {a : Int} {v : V} :
    (a, v) ∈ postprocMain S colour p bottom alpha g ↔
      (g.gx < p.gx_max ∧ g.gy < p.outh ∧ g.gz < p.channels) ∧
        a = S.cell p.outw p.outcstep p.channels g.gz g.gy (g.gx + p.offset_x) ∧
        v = S.store (postprocValue colour p bottom alpha g) := by
  unfold postprocMain
  split
  · next hout =>
    simp only [List.not_mem_nil, false_iff]
    omega
  · next hin =>
    have hbounds : g.gx < p.gx_max ∧ g.gy < p.outh ∧ g.gz < p.channels := by omega
    simp [hbounds]

end

theorem VkMat.sizes_eq {V : Type} {m m' : VkMat V} (h : m.sizes = m'.sizes) :
    m.w = m'.w ∧ m.h = m'.h ∧ m.cstep = m'.cstep := by
  injection h with hw hh hcstep
  exact ⟨hw, hh, hcstep⟩

namespace FullProcessor

variable {K V : Type} [Field K] {net : Network K} {tta : Bool} {machine : Machine K V}
  {S : Storage K V} {bgr : Int} {image : ImageInfo} {yi xi : Nat}

/-- What the postprocessing makes of channel `c`, row `y` and column `x` of the enlarged tile. -/
def tileValue (this : FullProcessor K) (machine : Machine K V) (S : Storage K V) (inimage : ImageInfo)
    (yi xi : Nat) (c y x : Int) : K :=
  postprocValue this.colour
    (this.postprocConstants machine S inimage yi xi (this.out_gpu machine S inimage yi))
    (fun ti => (this.outTile machine S inimage yi xi ti).data)
    (this.outAlphaTile machine S inimage yi xi).data ⟨x, y, c⟩

/-- The value of channel `c`, row `y` and column `x` of the output. -/
def outputValue (this : FullProcessor K) (machine : Machine K V) (S : Storage K V) (inimage : ImageInfo)
    (c y x : Int) : K :=
  this.tileValue machine S inimage (y / 800).toNat (x / 800).toNat c (y % 800) (x % 800)

/-! ## The tiles of a band -/

theorem out_gpu_w (hS : S.Lawful bgr) :
    ((new net tta).out_gpu machine S image yi).w = image.w * 4 := hS.create_w

theorem out_gpu_h (hS : S.Lawful bgr) : ((new net tta).out_gpu machine S image yi).h =
    (min (((yi : Int) + 1) * 200) image.h - max ((yi : Int) * 200) 0) * 4 := hS.create_h

theorem out_gpu_cstep (hS : S.Lawful bgr) :
    ((new net tta).out_gpu machine S image yi).w * ((new net tta).out_gpu machine S image yi).h ≤
      ((new net tta).out_gpu machine S image yi).cstep := by
  rw [out_gpu_w hS, out_gpu_h hS]
  exact hS.le_cstep

/-- A place of the band: a channel, a row and a column. -/
def InBand (this : FullProcessor K) (machine : Machine K V) (S : Storage K V) (image : ImageInfo)
    (yi : Nat) (q : GridPoint) : Prop :=
  (0 ≤ q.gz ∧ q.gz < image.c) ∧ (0 ≤ q.gy ∧ q.gy < (this.out_gpu machine S image yi).h) ∧
    0 ≤ q.gx ∧ q.gx < (this.out_gpu machine S image yi).w

/-- An invocation that stores at a place is the one of its column. -/
theorem point_of_cell (hS : S.Lawful bgr) (hc : image.c = 3 ∨ image.c = 4) {out : VkMat V}
    (hout : out.sizes = ((new net tta).out_gpu machine S image yi).sizes) {q q' : GridPoint}
    (hq : (new net tta).InBand machine S image yi q)
    (hq' : (0 ≤ q'.gx ∧ q'.gx < min (200 * 4) (out.w - xi * 200 * 4)) ∧
      (0 ≤ q'.gy ∧ q'.gy < out.h) ∧ 0 ≤ q'.gz ∧ q'.gz < image.c)
    (hcell : S.cell out.w out.cstep image.c q.gz q.gy q.gx =
      S.cell out.w out.cstep image.c q'.gz q'.gy (q'.gx + xi * 200 * 4)) :
    q' = ⟨q.gx - xi * 800, q.gy, q.gz⟩ ∧ xi * 800 ≤ q.gx ∧ q.gx < xi * 800 + 800 := by
  obtain ⟨hw, hh, hcstep⟩ := VkMat.sizes_eq hout
  have hle : out.w * out.h ≤ out.cstep := by
    rw [hw, hh, hcstep]
    exact out_gpu_cstep hS
  obtain ⟨hgz, hgy, hgx⟩ := hq
  rw [← hh] at hgy
  rw [← hw] at hgx
  -- the column of the band is the column of the tile and its offset
  obtain ⟨hz, hy, hx⟩ := hS.cell_inj hle hc hgz hq'.2.2 hgy hq'.2.1 hgx (by omega) hcell
  obtain ⟨gx, gy, gz⟩ := q'
  dsimp only at hz hy hx hq'
  rw [GridPoint.mk.injEq]
  omega

/-- The places that a tile fills, and with what. -/
theorem processTile_own (hS : S.Lawful bgr) (hc : image.c = 3 ∨ image.c = 4) {out : VkMat V}
    (hout : out.sizes = ((new net tta).out_gpu machine S image yi).sizes) {q : GridPoint}
    (hq : (new net tta).InBand machine S image yi q) (hxi : (q.gx / 800).toNat = xi) :
    ((new net tta).processTile machine S image yi out xi).data
        (S.cell out.w out.cstep image.c q.gz q.gy q.gx) =
      S.store ((new net tta).tileValue machine S image yi xi q.gz q.gy (q.gx % 800)) := by
  let p := (new net tta).postprocConstants machine S image yi xi out
  obtain ⟨hw, hh, -⟩ := VkMat.sizes_eq hout
  obtain ⟨hgz, hgy, hgx⟩ := hq
  have hrow : 0 ≤ q.gy ∧ q.gy < out.h := hh ▸ hgy
  have hcolumn : q.gx - xi * 800 = q.gx % 800 := by omega
  have hinside : 0 ≤ q.gx % 800 ∧ q.gx % 800 < min (200 * 4) (out.w - xi * 200 * 4) := by
    rw [hw]
    omega
  have hp : p = (new net tta).postprocConstants machine S image yi xi
      ((new net tta).out_gpu machine S image yi) := by
    show RealesrganProcessor.postprocConstants _ _ _ _ _ out.sizes = _
    rw [hout]
    rfl
  have hvalue : (new net tta).tileValue machine S image yi xi q.gz q.gy (q.gx % 800) =
      postprocValue (new net tta).colour p
        (fun ti => ((new net tta).outTile machine S image yi xi ti).data)
        ((new net tta).outAlphaTile machine S image yi xi).data ⟨q.gx % 800, q.gy, q.gz⟩ := by
    rw [hp]
    rfl
  show dispatch (postprocMain S _ p _ _) (machine.run.order (grid p.gx_max p.outh p.channels)) out.data
    _ = _
  -- one point of the tile grid writes the cell, and every point that writes it agrees
  apply dispatch_of_mem (p := ⟨q.gx % 800, q.gy, q.gz⟩)
  · rw [mem_order_grid machine.run.perm]
    exact ⟨hinside, hrow, hgz⟩
  · rw [mem_postprocMain]
    refine ⟨⟨hinside.2, hrow.2, hgz.2⟩, ?_, by rw [hvalue]⟩
    have hoffset : q.gx % 800 + p.offset_x = q.gx := by
      show q.gx % 800 + xi * 200 * 4 = q.gx
      omega
    dsimp only
    rw [hoffset]
    rfl
  · intro q' hq' v hv
    rw [mem_order_grid machine.run.perm] at hq'
    rw [mem_postprocMain] at hv
    obtain ⟨rfl, -⟩ := point_of_cell hS hc hout ⟨hgz, hgy, hgx⟩ hq' hv.2.1
    rw [hv.2.2, hvalue, hcolumn]

/-- A tile leaves the places of other tiles alone. -/
theorem processTile_other (hS : S.Lawful bgr) (hc : image.c = 3 ∨ image.c = 4) {out : VkMat V}
    (hout : out.sizes = ((new net tta).out_gpu machine S image yi).sizes) {q : GridPoint}
    (hq : (new net tta).InBand machine S image yi q) (hxi : (q.gx / 800).toNat ≠ xi) :
    ((new net tta).processTile machine S image yi out xi).data
        (S.cell out.w out.cstep image.c q.gz q.gy q.gx) =
      out.data (S.cell out.w out.cstep image.c q.gz q.gy q.gx) := by
  apply dispatch_of_not_mem
  intro q' hq' v hv
  rw [mem_order_grid machine.run.perm] at hq'
  rw [mem_postprocMain] at hv
  -- whoever stores at the place has its column in the tile
  obtain ⟨-, hge, hlt⟩ := point_of_cell hS hc hout hq hq' hv.2.1
  have hgx := hq.2.2.1
  omega

variable (net tta machine yi) in
/-- **A band after its tiles**: every place holds the value of the tile it belongs to. -/
theorem band_filled (hS : S.Lawful bgr) (hc : image.c = 3 ∨ image.c = 4) (n : Nat) :
    let band := (List.range n).foldl ((new net tta).processTile machine S image yi)
      ((new net tta).out_gpu machine S image yi)
    band.sizes = ((new net tta).out_gpu machine S image yi).sizes ∧
      ∀ q, (new net tta).InBand machine S image yi q → (q.gx / 800).toNat < n →
        band.data (S.cell band.w band.cstep image.c q.gz q.gy q.gx) =
          S.store ((new net tta).tileValue machine S image yi (q.gx / 800).toNat q.gz q.gy
            (q.gx % 800)) := by
  apply foldl_range_fill
    (I := fun out : VkMat V => out.sizes = ((new net tta).out_gpu machine S image yi).sizes)
    (fun (out : VkMat V) (q : GridPoint) =>
      out.data (S.cell out.w out.cstep image.c q.gz q.gy q.gx))
    (fun q : GridPoint => (q.gx / 800).toNat)
    (fun q : GridPoint => S.store ((new net tta).tileValue machine S image yi (q.gx / 800).toNat
      q.gz q.gy (q.gx % 800)))
  · exact fun _ _ hout => hout
  · intro out xi q _ hout hq hi
    rw [hi]
    exact processTile_own hS hc hout hq hi
  · exact fun _ _ _ _ hout hq hi => processTile_other hS hc hout hq hi
  · rfl

/-! ## The bands of the image -/

/-- The address in the output image of channel `c`, row `y` and column `x`. -/
def outputAddress (bgr : Int) (image : ImageInfo) (q : GridPoint) : Int :=
  (q.gy * (image.w * 4) + q.gx) * image.c + byteOf bgr q.gz

/-- The byte that a place of the output gets. -/
def outputByte (this : FullProcessor K) (machine : Machine K V) (S : Storage K V) (image : ImageInfo)
    (q : GridPoint) : UInt8 :=
  S.fetch (S.store (this.outputValue machine S image q.gz q.gy q.gx))

/-- A place of the output image. -/
def InOutput (image : ImageInfo) (q : GridPoint) : Prop :=
  (0 ≤ q.gz ∧ q.gz < image.c) ∧ (0 ≤ q.gy ∧ q.gy < image.h * 4) ∧ 0 ≤ q.gx ∧ q.gx < image.w * 4

variable (net tta machine yi) in
/-- What `processBand` downloads: a band all of whose places are filled. -/
theorem processBand_eq (hS : S.Lawful bgr) (hc : image.c = 3 ∨ image.c = 4) (data : Int → UInt8) :
    ∃ band : VkMat V, band.w = image.w * 4 ∧
      band.h = (min (((yi : Int) + 1) * 200) image.h - max ((yi : Int) * 200) 0) * 4 ∧
      (new net tta).processBand machine S image data yi =
        S.download band image.c (yi * 800 * band.w * image.c) data ∧
      ∀ q, (new net tta).InBand machine S image yi q →
        band.data (S.cell band.w band.cstep image.c q.gz q.gy q.gx) =
          S.store ((new net tta).tileValue machine S image yi (q.gx / 800).toNat q.gz q.gy
            (q.gx % 800)) := by
  let xtiles := ((new net tta).toRealesrganProcessor.xtiles image).toNat
  let band := (List.range xtiles).foldl ((new net tta).processTile machine S image yi)
    ((new net tta).out_gpu machine S image yi)
  obtain ⟨hsizes, hfilled⟩ := band_filled net tta machine yi hS hc xtiles
  obtain ⟨hw, hh, -⟩ := VkMat.sizes_eq hsizes
  have hwidth : band.w = image.w * 4 := hw.trans (out_gpu_w hS)
  refine ⟨band, hwidth, hh.trans (out_gpu_h hS), ?_, fun q hq => hfilled q hq ?_⟩
  · show S.download band image.c (yi * 4 * 200 * image.w * 4 * image.c) data = _
    rw [hwidth]
    congr 1
    ring
  · -- the tiles reach the right border
    have hgx := hq.2.2
    rw [out_gpu_w hS] at hgx
    show _ < ((image.w + 200 - 1) / 200).toNat
    omega

/-- The bytes that a band fills, and with what. -/
theorem processBand_own (hS : S.Lawful bgr) (hc : image.c = 3 ∨ image.c = 4) {data : Int → UInt8}
    {q : GridPoint} (hq : InOutput image q) (hyi : (q.gy / 800).toNat = yi) :
    (new net tta).processBand machine S image data yi (outputAddress bgr image q) =
      (new net tta).outputByte machine S image q := by
  obtain ⟨band, hw, hh, hband, hfilled⟩ := processBand_eq net tta machine yi hS hc data
  obtain ⟨hgz, hgy, hgx⟩ := hq
  have hrow : 0 ≤ q.gy % 800 ∧ q.gy % 800 < band.h := by omega
  -- a row of the image is a row of its band
  have hplace : (new net tta).InBand machine S image yi ⟨q.gx, q.gy % 800, q.gz⟩ := by
    refine ⟨hgz, ?_, ?_⟩
    · rw [out_gpu_h hS, ← hh]
      exact hrow
    · rw [out_gpu_w hS]
      exact hgx
  have hsplit : q.gy = yi * 800 + q.gy % 800 := by omega
  have haddress : outputAddress bgr image q =
      ((yi * 800 + q.gy % 800) * band.w + q.gx) * image.c + byteOf bgr q.gz := by
    rw [← hsplit, hw]
    rfl
  rw [hband, haddress, hS.download_of_mem hc hgz hrow (hw ▸ hgx)]
  unfold outputByte outputValue
  rw [hyi]
  exact congrArg S.fetch (hfilled _ hplace)

/-- A band leaves the rows of other bands alone. -/
theorem processBand_other (hS : S.Lawful bgr) (hc : image.c = 3 ∨ image.c = 4) {data : Int → UInt8}
    {q : GridPoint} (hq : InOutput image q) (hyi : (q.gy / 800).toNat ≠ yi) :
    (new net tta).processBand machine S image data yi (outputAddress bgr image q) =
      data (outputAddress bgr image q) := by
  obtain ⟨band, hw, hh, hband, -⟩ := processBand_eq net tta machine yi hS hc data
  obtain ⟨hgz, hgy, hgx⟩ := hq
  have haddress : outputAddress bgr image q =
      (q.gy * band.w + q.gx) * image.c + byteOf bgr q.gz := by
    rw [hw]
    rfl
  rw [hband, haddress]
  exact hS.download_of_not_mem hc hgz (by omega) (hw ▸ hgx)

variable (net tta machine) in
/-- **Every byte of the output is that of its tile**, whatever the network is. -/
theorem process_image_byte (hS : S.Lawful bgr) (hc : image.c = 3 ∨ image.c = 4) {q : GridPoint}
    (hq : InOutput image q) :
    ((new net tta).process_image machine S image).2.1.data (outputAddress bgr image q) =
      (new net tta).outputByte machine S image q := by
  let ytiles := ((new net tta).toRealesrganProcessor.ytiles image).toNat
  have hfill : True ∧ ∀ q, InOutput image q → (q.gy / 800).toNat < ytiles →
      (List.range ytiles).foldl ((new net tta).processBand machine S image) machine.run.imageMemory
        (outputAddress bgr image q) = (new net tta).outputByte machine S image q := by
    apply foldl_range_fill (I := fun _ : Int → UInt8 => True)
      (fun (data : Int → UInt8) (q : GridPoint) => data (outputAddress bgr image q))
      (fun q : GridPoint => (q.gy / 800).toNat)
      (fun q : GridPoint => (new net tta).outputByte machine S image q)
    · exact fun _ _ h => h
    · exact fun _ _ _ _ _ hq hi => processBand_own hS hc hq hi
    · exact fun _ _ _ _ _ hq hi => processBand_other hS hc hq hi
    · trivial
  apply hfill.2 q hq
  -- the bands reach the lower border
  have hgy := hq.2.1
  show _ < ((image.h + 200 - 1) / 200).toNat
  omega

/-- Every byte of an output image is the byte of a place. -/
theorem exists_place (hw : 0 < image.w) (hc : image.c = 3 ∨ image.c = 4) (bgr : Int) {i : Int}
    (hi : 0 ≤ i ∧ i < image.w * 4 * (image.h * 4) * image.c) :
    ∃ q, InOutput image q ∧ outputAddress bgr image q = i := by
  have hchannels : 0 < image.c := by omega
  have hbyte : 0 ≤ i % image.c ∧ i % image.c < image.c :=
    ⟨Int.emod_nonneg _ (by omega), Int.emod_lt_of_pos _ hchannels⟩
  have hpixel : 0 ≤ i / image.c ∧ i / image.c < image.h * 4 * (image.w * 4) := by
    refine ⟨Int.ediv_nonneg hi.1 (by omega), Int.ediv_lt_of_lt_mul hchannels ?_⟩
    rw [Int.mul_comm (image.h * 4)]
    exact hi.2
  have hcolumn : 0 ≤ i / image.c % (image.w * 4) ∧ i / image.c % (image.w * 4) < image.w * 4 :=
    ⟨Int.emod_nonneg _ (by omega), Int.emod_lt_of_pos _ (by omega)⟩
  refine ⟨⟨i / image.c % (image.w * 4), i / image.c / (image.w * 4), byteOf bgr (i % image.c)⟩,
    ⟨byteOf_mem bgr hc hbyte, ⟨Int.ediv_nonneg hpixel.1 (by omega),
      Int.ediv_lt_of_lt_mul (by omega) hpixel.2⟩, hcolumn⟩, ?_⟩
  unfold outputAddress
  dsimp only
  rw [byteOf_byteOf bgr (by omega), Int.ediv_mul_add_emod, Int.ediv_mul_add_emod]

end FullProcessor

/-! ## The same picture -/

/-- Two images of the same sizes with the same bytes. -/
structure ImageInfo.SamePicture (a b : ImageInfo) : Prop where
  w : a.w = b.w
  h : a.h = b.h
  c : a.c = b.c
  data : ∀ i : Int, (0 ≤ i ∧ i < a.w * a.h * a.c) → a.data i = b.data i

namespace FullProcessor

/-- The bytes of the places lie in the output image. -/
theorem outputAddress_mem (bgr : Int) {image : ImageInfo} (hc : image.c = 3 ∨ image.c = 4)
    {q : GridPoint} (hq : InOutput image q) : 0 ≤ outputAddress bgr image q ∧
      outputAddress bgr image q < image.w * 4 * (image.h * 4) * image.c := by
  obtain ⟨hgz, hgy, hgx⟩ := hq
  exact (interleaved_mem_iff hgx (byteOf_mem bgr hc hgz)).mpr hgy

/-- Two outputs show the same picture just when the bytes of all places are the same. -/
theorem samePicture_iff {K V V' : Type} [Field K] (bgr : Int) {image : ImageInfo} (hw : 0 < image.w)
    (hc : image.c = 3 ∨ image.c = 4) {net net' : Network K} {tta tta' : Bool} {machine : Machine K V}
    {machine' : Machine K V'} {S : Storage K V} {S' : Storage K V'} :
    ((new net tta).process_image machine S image).2.1.SamePicture
        ((new net' tta').process_image machine' S' image).2.1 ↔
      ∀ q, InOutput image q →
        ((new net tta).process_image machine S image).2.1.data (outputAddress bgr image q) =
          ((new net' tta').process_image machine' S' image).2.1.data (outputAddress bgr image q) := by
  constructor
  · exact fun h q hq => h.data _ (outputAddress_mem bgr hc hq)
  · intro h
    refine ⟨rfl, rfl, rfl, fun i hi => ?_⟩
    obtain ⟨q, hq, rfl⟩ := exists_place hw hc bgr hi
    exact h q hq

end FullProcessor

end LimbWorker.Realesrgan
