import LimbWorker.Lib.OnceEach
import LimbWorker.Realesrgan.Tta

/-!
# Every byte of the output is written once

The tiles of a band fill its elements, each once and none beyond them, and the downloads of the bands follow
each other in the output image. Here this is read off from the stores themselves, for images of every size;
that the values are the right ones is the matter of `Tiles.lean`. The postprocessing reads the pixels of
its tile images only. Of the network nothing but the size of its output is used.
-/

namespace LimbWorker.Realesrgan

open Lib

/-- A network that enlarges by four. -/
structure EnlargingNetwork (K : Type) extends Network K where
  extract_w : ∀ f, (extract f).w = 4 * f.w
  extract_h : ∀ f, (extract f).h = 4 * f.h

section

variable {K V : Type} [Field K]

/-! ## What the postprocessing reads -/

/-- Where both postprocessings read the alpha channel. -/
def alphaIndex (p : PostprocParameter) (gy gx : Int) : Int := gy * p.alphaw + gx

namespace FullProcessor

/-- **Nothing else is read**: the colour value is made of these elements. -/
theorem colour_congr (this : FullProcessor K) {p : PostprocParameter} {bottom bottom' : Fin 8 → Int → K}
    {gz gy gx : Int} (h : ∀ b ∈ this.bottoms p gz gy gx, bottom b.1 b.2 = bottom' b.1 b.2) :
    this.colour p bottom gz gy gx = this.colour p bottom' gz gy gx := by
  unfold bottoms at h
  unfold colour
  split
  · next htta =>
    rw [if_pos htta] at h
    exact congrArg mean (List.map_congr_left h)
  · next htta =>
    rw [if_neg htta] at h
    exact h _ List.mem_cons_self

/-- An invocation of the postprocessing reads its colour elements, or its element of the alpha image. -/
theorem postprocMain_congr (this : FullProcessor K) {S : Storage K V} {p : PostprocParameter}
    {bottom bottom' : Fin 8 → Int → K} {alpha alpha' : Int → K} {g : GridPoint}
    (hcolour : g.gz ≠ 3 → ∀ b ∈ this.bottoms p g.gz g.gy g.gx, bottom b.1 b.2 = bottom' b.1 b.2)
    (halpha : g.gz = 3 → alpha (alphaIndex p g.gy g.gx) = alpha' (alphaIndex p g.gy g.gx)) :
    postprocMain S this.colour p bottom alpha g = postprocMain S this.colour p bottom' alpha' g := by
  have hvalue : postprocValue this.colour p bottom alpha g = postprocValue this.colour p bottom' alpha' g := by
    unfold postprocValue
    by_cases hgz : g.gz = 3
    · dsimp only
      rw [if_pos hgz, if_pos hgz]
      exact congrArg clip (halpha hgz)
    · dsimp only
      rw [if_neg hgz, if_neg hgz, this.colour_congr (hcolour hgz)]
  unfold postprocMain
  rw [hvalue]

/-- The push constants of the postprocessing of a tile. -/
def bandConstants (this : FullProcessor K) (machine : Machine K V) (S : Storage K V) (image : ImageInfo)
    (yi xi : Nat) : PostprocParameter :=
  this.postprocConstants machine S image yi xi (this.out_gpu machine S image yi)

/-- The points that it runs on. -/
def postprocPoints (this : FullProcessor K) (machine : Machine K V) (S : Storage K V) (image : ImageInfo)
    (yi xi : Nat) : List GridPoint :=
  let p := this.bandConstants machine S image yi xi
  grid p.gx_max p.outh p.channels

/-- The reads of a tile stay inside: colour elements in the plane of their channel, alpha elements in the
alpha image. -/
structure PostprocReadsInside (this : FullProcessor K) (machine : Machine K V) (S : Storage K V)
    (image : ImageInfo) (yi xi : Nat) : Prop where
  colour : ∀ g ∈ this.postprocPoints machine S image yi xi, g.gz ≠ 3 →
    ∀ b ∈ this.bottoms (this.bandConstants machine S image yi xi) g.gz g.gy g.gx,
      let tile := this.outTile machine S image yi xi b.1
      (0 ≤ g.gz ∧ g.gz < 3) ∧ 0 ≤ b.2 - g.gz * tile.cstep ∧ b.2 - g.gz * tile.cstep < tile.w * tile.h
  alpha : ∀ g ∈ this.postprocPoints machine S image yi xi, g.gz = 3 →
    let tile := this.outAlphaTile machine S image yi xi
    let index := alphaIndex (this.bandConstants machine S image yi xi) g.gy g.gx
    0 ≤ index ∧ index < tile.w * tile.h

omit [Field K] in
/-- Where the postprocessing reads, in both modes. -/
theorem mem_bottoms {net : Network K} {tta : Bool} {p : PostprocParameter} {gz gy gx : Int} {ti : Fin 8}
    {a : Int} : (ti, a) ∈ (new net tta).bottoms p gz gy gx ↔ (tta = true ∨ ti = 0) ∧
      a = (symmetryOf ti).address (gz * p.cstep) p.w p.h (gy + p.crop_y) (gx + p.crop_x) := by
  have hbottoms : (new net tta).bottoms p gz gy gx =
      if tta = true then (List.finRange 8).map fun ti =>
        (ti, (symmetryOf ti).address (gz * p.cstep) p.w p.h (gy + p.crop_y) (gx + p.crop_x))
      else [(0, (symmetryOf 0).address (gz * p.cstep) p.w p.h (gy + p.crop_y) (gx + p.crop_x))] := by
    cases tta with
    | true => exact postprocTtaBottoms_eq p gz gy gx
    | false =>
        show [((0 : Fin 8), gz * p.cstep + (gy + p.crop_y) * p.w + gx + p.crop_x)] = _
        rw [Int.add_assoc]
        rfl
  rw [hbottoms]
  exact mem_numbered

section

variable {net : Network K} {tta : Bool} {machine : Machine K V} {S : Storage K V} {bgr : Int}
  {image : ImageInfo} {yi xi : Nat} {g : GridPoint}

theorem mem_postprocPoints :
    let out_gpu := (new net tta).out_gpu machine S image yi
    g ∈ (new net tta).postprocPoints machine S image yi xi ↔
      (0 ≤ g.gx ∧ g.gx < min (200 * 4) (out_gpu.w - xi * 200 * 4)) ∧ (0 ≤ g.gy ∧ g.gy < out_gpu.h) ∧
        0 ≤ g.gz ∧ g.gz < image.c :=
  mem_grid

/-- The points of a tile are those of its enlarged pixels. -/
theorem point_mem_tile (hS : S.Lawful bgr) (hg : g ∈ (new net tta).postprocPoints machine S image yi xi) :
    (0 ≤ g.gx ∧ g.gx < 4 * (min (((xi : Int) + 1) * 200) image.w - xi * 200)) ∧
      (0 ≤ g.gy ∧ g.gy < 4 * (min (((yi : Int) + 1) * 200) image.h - yi * 200)) ∧
        0 ≤ g.gz ∧ g.gz < image.c := by
  obtain ⟨hgx, hgy, hgz⟩ := mem_postprocPoints.mp hg
  rw [out_gpu_w hS] at hgx
  rw [out_gpu_h hS] at hgy
  exact ⟨by omega, by omega, hgz⟩

/-- A colour element lies in the plane of its channel: the tile images are larger than the tile by the prepadding,
which the crop skips. -/
theorem colour_mem_tile (hw : ∀ f, (net.extract f).w = 4 * f.w) (hh : ∀ f, (net.extract f).h = 4 * f.h)
    (hS : S.Lawful bgr) (hg : g ∈ (new net tta).postprocPoints machine S image yi xi) {ti : Fin 8} {a : Int}
    (ha : (ti, a) ∈
      (new net tta).bottoms ((new net tta).bandConstants machine S image yi xi) g.gz g.gy g.gx) :
    let tile := (new net tta).outTile machine S image yi xi ti
    0 ≤ a - g.gz * tile.cstep ∧ a - g.gz * tile.cstep < tile.w * tile.h := by
  intro tile
  let p := (new net tta).bandConstants machine S image yi xi
  let f : Planes K := window 0 image yi xi
  have hf_w : f.w = min (((xi : Int) + 1) * 200) image.w + 10 - (xi * 200 - 10) := rfl
  have hf_h : f.h = min (((yi : Int) + 1) * 200) image.h + 10 - (yi * 200 - 10) := rfl
  obtain ⟨hgx, hgy, -⟩ := point_mem_tile hS hg
  obtain ⟨-, rfl⟩ := mem_bottoms.mp ha
  obtain ⟨h0_w, h0_h, h0_cstep⟩ := enlarged_sizes tta machine S 0 image yi xi hw hh 0
  obtain ⟨hti_w, hti_h, hti_cstep⟩ := enlarged_sizes tta machine S 0 image yi xi hw hh ti
  -- the shader knows the sizes of tile image 0 only
  have hp_w : p.w = 4 * f.w := h0_w
  have hp_h : p.h = 4 * f.h := h0_h
  have hp_cstep : p.cstep = tile.cstep := h0_cstep.trans hti_cstep.symm
  have hsize : tile.w * tile.h = p.w * p.h := by
    rw [hp_w, hp_h, hti_w, hti_h, Symmetry.width_mul_height]
  rw [hsize, ← hp_cstep]
  apply Symmetry.address_mem
  · show 0 ≤ g.gy + 10 * 4 ∧ g.gy + 10 * 4 < p.h
    omega
  · show 0 ≤ g.gx + 10 * 4 ∧ g.gx + 10 * 4 < p.w
    omega

/-- An element of the alpha channel lies in the enlarged alpha image, which has no padding. -/
theorem alpha_mem_tile (hS : S.Lawful bgr) (hc : image.c = 4)
    (hg : g ∈ (new net tta).postprocPoints machine S image yi xi) :
    let tile := (new net tta).outAlphaTile machine S image yi xi
    let index := alphaIndex ((new net tta).bandConstants machine S image yi xi) g.gy g.gx
    0 ≤ index ∧ index < tile.w * tile.h := by
  intro tile index
  obtain ⟨hgx, hgy, -⟩ := point_mem_tile hS hg
  let input := (new net tta).inAlphaTile machine S image yi xi
  have htile : tile = machine.bicubic.forward 4 input := if_pos hc
  have hinput_w : input.w = min (((xi : Int) + 1) * 200) image.w - xi * 200 := if_pos hc
  have hinput_h : input.h = min (((yi : Int) + 1) * 200) image.h - yi * 200 := if_pos hc
  have htile_w : tile.w = 4 * input.w := by
    rw [htile, machine.bicubic.forward_w]
  have htile_h : tile.h = 4 * input.h := by
    rw [htile, machine.bicubic.forward_h]
  apply (plane_mem_iff (show 0 ≤ g.gx ∧ g.gx < tile.w by omega)).mpr
  omega

end

/-- **The reads of a tile stay inside**, whatever the size of the image. -/
theorem postprocReadsInside (net : EnlargingNetwork K) (tta : Bool) (machine : Machine K V) {S : Storage K V}
    {bgr : Int} (hS : S.Lawful bgr) {image : ImageInfo} (hc : image.c = 3 ∨ image.c = 4) (yi xi : Nat) :
    (new net.toNetwork tta).PostprocReadsInside machine S image yi xi where
  colour := fun g hg hgz b hb => by
    have hchannel := (mem_postprocPoints.mp hg).2.2
    exact ⟨by omega, colour_mem_tile net.extract_w net.extract_h hS hg hb⟩
  alpha := fun g hg hgz => by
    have hchannel := (mem_postprocPoints.mp hg).2.2
    exact alpha_mem_tile hS (by omega) hg

/-! ## What it stores -/

/-- The stores of the postprocessing of a tile. -/
def tileStores (this : FullProcessor K) (machine : Machine K V) (S : Storage K V) (image : ImageInfo)
    (yi xi : Nat) : List (Int × V) :=
  (machine.run.order (this.postprocPoints machine S image yi xi)).flatMap
    (postprocMain S this.colour (this.bandConstants machine S image yi xi)
      (fun ti => (this.outTile machine S image yi xi ti).data) (this.outAlphaTile machine S image yi xi).data)

/-- The stores of the first `n` tiles of a band. -/
def bandStores (this : FullProcessor K) (machine : Machine K V) (S : Storage K V) (image : ImageInfo)
    (yi n : Nat) : List (Int × V) :=
  (List.range n).flatMap (this.tileStores machine S image yi)

variable (this : FullProcessor K) (machine : Machine K V) (S : Storage K V) (image : ImageInfo) (yi : Nat)

theorem data_processTile {out : VkMat V} (hout : out.sizes = (this.out_gpu machine S image yi).sizes)
    (xi : Nat) : (this.processTile machine S image yi out xi).data =
      writes (this.tileStores machine S image yi xi) out.data := by
  have hconstants : this.postprocConstants machine S image yi xi out =
      this.bandConstants machine S image yi xi := by
    unfold bandConstants postprocConstants
    rw [hout]
  unfold processTile
  dsimp only
  rw [hconstants]
  rfl

/-- **The band after `n` tiles** is what these stores leave of it. -/
theorem data_processTiles (n : Nat) :
    let band := (List.range n).foldl (this.processTile machine S image yi) (this.out_gpu machine S image yi)
    band.sizes = (this.out_gpu machine S image yi).sizes ∧
      band.data =
        writes (this.bandStores machine S image yi n) (this.out_gpu machine S image yi).data := by
  induction n with
  | zero => exact ⟨rfl, rfl⟩
  | succ n ih =>
      obtain ⟨hsizes, hdata⟩ := ih
      unfold bandStores at hdata ⊢
      rw [List.range_succ, List.foldl_append, List.flatMap_append, List.flatMap_singleton]
      refine ⟨hsizes, (data_processTile this machine S image yi hsizes n).trans ?_⟩
      rw [hdata]
      exact (List.foldl_append ..).symm

/-! ## The elements of a band -/

variable {net : Network K} {tta : Bool} {machine : Machine K V} {S : Storage K V} {bgr : Int}
  {image : ImageInfo} {yi xi : Nat}

/-- The address of a place of the band. -/
def bandCell (this : FullProcessor K) (machine : Machine K V) (S : Storage K V) (image : ImageInfo)
    (yi : Nat) (q : GridPoint) : Int :=
  let out_gpu := this.out_gpu machine S image yi
  S.cell out_gpu.w out_gpu.cstep image.c q.gz q.gy q.gx

/-- Places have addresses of their own. -/
theorem bandCell_inj (hS : S.Lawful bgr) (hc : image.c = 3 ∨ image.c = 4) {q q' : GridPoint}
    (hq : (new net tta).InBand machine S image yi q) (hq' : (new net tta).InBand machine S image yi q')
    (h : (new net tta).bandCell machine S image yi q = (new net tta).bandCell machine S image yi q') :
    q = q' := by
  obtain ⟨hgz, hgy, hgx⟩ := hq
  obtain ⟨hgz', hgy', hgx'⟩ := hq'
  obtain ⟨hz, hy, hx⟩ := hS.cell_inj (out_gpu_cstep hS) hc hgz hgz' hgy hgy' hgx hgx' h
  obtain ⟨gx, gy, gz⟩ := q
  obtain ⟨gx', gy', gz'⟩ := q'
  rw [GridPoint.mk.injEq]
  exact ⟨hx, hy, hz⟩

/-- The place of the band that an invocation of a tile fills. -/
def bandPlace (xi : Nat) (g : GridPoint) : GridPoint := ⟨g.gx + xi * 800, g.gy, g.gz⟩

/-- The points of a tile fill the places of the band in its columns. -/
theorem mem_postprocPoints_iff {q : GridPoint} :
    (∃ g ∈ (new net tta).postprocPoints machine S image yi xi, bandPlace xi g = q) ↔
      (new net tta).InBand machine S image yi q ∧ (q.gx / 800).toNat = xi := by
  constructor
  · rintro ⟨g, hg, rfl⟩
    obtain ⟨hgx, hgy, hgz⟩ := mem_postprocPoints.mp hg
    refine ⟨⟨hgz, hgy, ?_⟩, ?_⟩
    · show 0 ≤ g.gx + xi * 800 ∧ g.gx + xi * 800 < ((new net tta).out_gpu machine S image yi).w
      omega
    · show ((g.gx + xi * 800) / 800).toNat = xi
      omega
  · rintro ⟨⟨hgz, hgy, hgx⟩, hxi⟩
    refine ⟨⟨q.gx - xi * 800, q.gy, q.gz⟩, mem_postprocPoints.mpr ⟨?_, hgy, hgz⟩, ?_⟩
    · dsimp only
      omega
    · unfold bandPlace
      dsimp only
      rw [Int.sub_add_cancel]

/-- An invocation within its tile stores at one address. -/
theorem addresses_postprocMain {colour : PostprocParameter → (Fin 8 → Int → K) → Int → Int → Int → K}
    {bottom : Fin 8 → Int → K} {alpha : Int → K} {g : GridPoint}
    (hg : g ∈ (new net tta).postprocPoints machine S image yi xi) :
    (postprocMain S colour ((new net tta).bandConstants machine S image yi xi) bottom alpha g).map Prod.fst =
      [(new net tta).bandCell machine S image yi (bandPlace xi g)] := by
  obtain ⟨hgx, hgy, hgz⟩ := mem_grid.mp hg
  have hoffset : ((new net tta).bandConstants machine S image yi xi).offset_x = xi * 800 := by
    show (xi : Int) * 200 * 4 = xi * 800
    omega
  unfold postprocMain
  rw [if_neg (by omega), List.map_singleton, hoffset]
  rfl

/-- **A tile stores at each element of its columns once**, and nowhere else. -/
theorem onceEach_tileStores (hS : S.Lawful bgr) (hc : image.c = 3 ∨ image.c = 4) :
    OnceEach (((new net tta).tileStores machine S image yi xi).map Prod.fst)
      {a | ∃ q, ((new net tta).InBand machine S image yi q ∧ (q.gx / 800).toNat = xi) ∧
        (new net tta).bandCell machine S image yi q = a} := by
  let points := machine.run.order ((new net tta).postprocPoints machine S image yi xi)
  have hpoints : ∀ g, g ∈ points ↔ g ∈ (new net tta).postprocPoints machine S image yi xi :=
    fun g => (machine.run.perm _).mem_iff
  have hplace : ∀ g ∈ points, (new net tta).InBand machine S image yi (bandPlace xi g) :=
    fun g hg => (mem_postprocPoints_iff.mp ⟨g, (hpoints g).mp hg, rfl⟩).1
  have hcover : OnceEach (((new net tta).tileStores machine S image yi xi).map Prod.fst)
      {a | ∃ g ∈ points, a ∈ ({(new net tta).bandCell machine S image yi (bandPlace xi g)} : Set Int)} := by
    unfold tileStores
    rw [List.map_flatMap]
    -- each point of the grid stores one cell, and no two the same
    apply OnceEach.flatMap ((machine.run.perm _).nodup_iff.mpr (nodup_grid _ _ _))
    · intro g hg
      rw [addresses_postprocMain ((hpoints g).mp hg)]
      exact OnceEach.singleton _
    · intro g hg g' hg' hne
      rintro a rfl heq
      have hsame := bandCell_inj hS hc (hplace g hg) (hplace g' hg') heq
      obtain ⟨gx, gy, gz⟩ := g
      obtain ⟨gx', gy', gz'⟩ := g'
      simp only [bandPlace, GridPoint.mk.injEq] at hsame
      apply hne
      rw [GridPoint.mk.injEq]
      omega
  apply hcover.congr
  ext a
  constructor
  · rintro ⟨g, hg, rfl⟩
    exact ⟨bandPlace xi g, mem_postprocPoints_iff.mp ⟨g, (hpoints g).mp hg, rfl⟩, rfl⟩
  · rintro ⟨q, hq, rfl⟩
    obtain ⟨g, hg, rfl⟩ := mem_postprocPoints_iff.mpr hq
    exact ⟨g, (hpoints g).mpr hg, rfl⟩

/-- **The tiles of a band store at each of its elements once**, and nowhere else. -/
theorem onceEach_bandStores (hS : S.Lawful bgr) (hc : image.c = 3 ∨ image.c = 4) :
    OnceEach (((new net tta).bandStores machine S image yi
        ((new net tta).toRealesrganProcessor.xtiles image).toNat).map Prod.fst)
      {a | ∃ q, (new net tta).InBand machine S image yi q ∧
        (new net tta).bandCell machine S image yi q = a} := by
  unfold bandStores
  rw [List.map_flatMap]
  apply (OnceEach.flatMap List.nodup_range (fun xi _ => onceEach_tileStores hS hc) ?_).congr
  · ext a
    constructor
    · rintro ⟨xi, -, q, ⟨hq, -⟩, hcell⟩
      exact ⟨q, hq, hcell⟩
    · rintro ⟨q, hq, hcell⟩
      refine ⟨(q.gx / 800).toNat, List.mem_range.mpr ?_, q, ⟨hq, rfl⟩, hcell⟩
      -- the tiles reach the right border
      have hgx := hq.2.2
      rw [out_gpu_w hS] at hgx
      show _ < ((image.w + 200 - 1) / 200).toNat
      omega
  · intro xi _ xi' _ hne
    rintro a ⟨q, ⟨hq, rfl⟩, rfl⟩ ⟨q', ⟨hq', hxi'⟩, heq⟩
    exact hne (by rw [← hxi', bandCell_inj hS hc hq' hq heq])

/-! ## The downloads -/

/-- The offset in the output image that a band is downloaded to. -/
def downloadStart (this : FullProcessor K) (image : ImageInfo) (yi : Nat) : Int :=
  yi * this.scale * this.tilesize * image.w * this.scale * image.c

/-- The number of bytes of a band in the output image. -/
def downloadSize (this : FullProcessor K) (machine : Machine K V) (S : Storage K V) (image : ImageInfo)
    (yi : Nat) : Int :=
  (this.out_gpu machine S image yi).w * (this.out_gpu machine S image yi).h * image.c

/-- The end of band `yi - 1`, and the start of band `yi`. -/
def bandEnd (image : ImageInfo) (yi : Nat) : Int := min (800 * (yi : Int)) (4 * image.h) * (image.w * 4 * image.c)

omit [Field K] in
theorem downloadStart_eq (hyi : yi * 200 < image.h) :
    (new net tta).downloadStart image yi = bandEnd image yi := by
  unfold bandEnd
  rw [min_eq_left (by omega)]
  show (yi : Int) * 4 * 200 * image.w * 4 * image.c = _
  ring

theorem downloadEnd_eq (hS : S.Lawful bgr) :
    (new net tta).downloadStart image yi + (new net tta).downloadSize machine S image yi =
      bandEnd image (yi + 1) := by
  have hrows : min (800 * ((yi + 1 : Nat) : Int)) (4 * image.h) =
      800 * yi + (min (((yi : Int) + 1) * 200) image.h - max ((yi : Int) * 200) 0) * 4 := by
    omega
  unfold downloadSize bandEnd
  rw [out_gpu_w hS, out_gpu_h hS, hrows]
  show (yi : Int) * 4 * 200 * image.w * 4 * image.c + _ = _
  ring

/-- **The downloads follow each other and cover the output image.** -/
theorem downloads_cover (hS : S.Lawful bgr) (hw : 1 ≤ image.w) (hh : 1 ≤ image.h)
    (hc : image.c = 3 ∨ image.c = 4) :
    OnceEach ((List.range ((new net tta).toRealesrganProcessor.ytiles image).toNat).flatMap fun yi =>
        interval ((new net tta).downloadStart image yi)
          ((new net tta).downloadStart image yi + (new net tta).downloadSize machine S image yi))
      (span 0 (4 * image.w * (4 * image.h) * image.c)) := by
  have hytiles : (new net tta).toRealesrganProcessor.ytiles image = (image.h + 200 - 1) / 200 := rfl
  have hrow : 0 ≤ image.w * 4 * image.c := Int.mul_nonneg (by omega) (by omega)
  -- consecutive intervals cover what lies between the first bound and the last
  have hcover := (onceEach_consecutive (e := bandEnd image)
    ((new net tta).toRealesrganProcessor.ytiles image).toNat fun yi _ =>
      Int.mul_le_mul_of_nonneg_right (by omega) hrow).2
  have hfirst : bandEnd image 0 = 0 := by
    unfold bandEnd
    rw [min_eq_left (by omega)]
    exact Int.zero_mul _
  have hlast : bandEnd image ((new net tta).toRealesrganProcessor.ytiles image).toNat =
      4 * image.w * (4 * image.h) * image.c := by
    unfold bandEnd
    rw [min_eq_right (by omega)]
    ring
  rw [hfirst, hlast] at hcover
  have hbands : ((List.range ((new net tta).toRealesrganProcessor.ytiles image).toNat).flatMap fun yi =>
      interval ((new net tta).downloadStart image yi)
        ((new net tta).downloadStart image yi + (new net tta).downloadSize machine S image yi)) =
      (List.range ((new net tta).toRealesrganProcessor.ytiles image).toNat).flatMap fun yi =>
        interval (bandEnd image yi) (bandEnd image (yi + 1)) := by
    apply List.flatMap_congr
    intro yi hyi
    have hlt := List.mem_range.mp hyi
    rw [downloadEnd_eq hS, downloadStart_eq (by omega)]
  rw [hbands]
  exact hcover

end FullProcessor

/-! ## Elements by storage mode -/

/-- The elements of an image with 8-bit storage: the bytes of its pixels. -/
def interleavedCells (m : VkMat V) (channels : Int) : Set Int := span 0 (m.w * m.h * channels)

/-- The elements of an image without it: the pixels of its planes, without what lies between the planes. -/
def planarCells (m : VkMat V) (channels : Int) : Set Int :=
  {a | ∃ gz, (0 ≤ gz ∧ gz < channels) ∧ 0 ≤ a - gz * m.cstep ∧ a - gz * m.cstep < m.w * m.h}

namespace FullProcessor

section

variable [LinearOrder K] [FloorRing K] {net : Network K} {tta : Bool} {gpu : Gpu K} {bicubic : Bicubic K}
  {bgr : Int} {image : ImageInfo} {yi : Nat}

/-- The addresses of the places of a band with 8-bit storage. -/
theorem bandCells_int8 {machine : Machine K UInt8} (hw : 1 ≤ image.w) (hc : image.c = 3 ∨ image.c = 4) :
    let S : Storage K UInt8 := .int8 gpu.uint bgr
    {a | ∃ q, (new net tta).InBand machine S image yi q ∧ (new net tta).bandCell machine S image yi q = a} =
      interleavedCells ((new net tta).out_gpu machine S image yi) image.c := by
  intro S
  let out_gpu := (new net tta).out_gpu machine S image yi
  have hwidth : out_gpu.w = image.w * 4 := rfl
  ext a
  constructor
  · rintro ⟨q, ⟨hgz, hgy, hgx⟩, rfl⟩
    exact (interleaved_mem_iff hgx (byteOf_mem bgr hc hgz)).mpr hgy
  · intro ha
    obtain ⟨i, k, hi, hk, rfl⟩ := exists_mul_add (by omega) ha
    rw [Int.mul_comm] at hi
    obtain ⟨y, x, hy, hx, rfl⟩ := exists_mul_add (show 0 < out_gpu.w by omega) hi
    refine ⟨⟨x, y, byteOf bgr k⟩, ⟨byteOf_mem bgr hc hk, hy, hx⟩, ?_⟩
    show (y * out_gpu.w + x) * image.c + byteOf bgr (byteOf bgr k) = _
    rw [byteOf_byteOf bgr (by omega)]

/-- The addresses of the places of a band without it. -/
theorem bandCells_float {machine : Machine K K} (hw : 1 ≤ image.w) :
    let S : Storage K K := .float gpu.bandCstep bgr
    {a | ∃ q, (new net tta).InBand machine S image yi q ∧ (new net tta).bandCell machine S image yi q = a} =
      planarCells ((new net tta).out_gpu machine S image yi) image.c := by
  intro S
  generalize hout : (new net tta).out_gpu machine S image yi = out_gpu
  have hwidth : out_gpu.w = image.w * 4 := hout ▸ rfl
  have hband : ∀ q, (new net tta).InBand machine S image yi q ↔
      (0 ≤ q.gz ∧ q.gz < image.c) ∧ (0 ≤ q.gy ∧ q.gy < out_gpu.h) ∧ 0 ≤ q.gx ∧ q.gx < out_gpu.w := by
    intro q
    rw [← hout]
    rfl
  -- a cell is a plane, a row and a column
  have hcell : ∀ q, (new net tta).bandCell machine S image yi q =
      q.gz * out_gpu.cstep + q.gy * out_gpu.w + q.gx := by
    intro q
    rw [← hout]
    rfl
  ext a
  constructor
  · rintro ⟨q, hq, rfl⟩
    obtain ⟨hgz, hgy, hgx⟩ := (hband q).mp hq
    have hoffset : (new net tta).bandCell machine S image yi q - q.gz * out_gpu.cstep =
        q.gy * out_gpu.w + q.gx := by
      rw [hcell]
      omega
    refine ⟨q.gz, hgz, ?_⟩
    rw [hoffset]
    exact (plane_mem_iff hgx).mpr hgy
  · rintro ⟨gz, hgz, ha⟩
    rw [Int.mul_comm out_gpu.w] at ha
    obtain ⟨y, x, hy, hx, heq⟩ := exists_mul_add (show 0 < out_gpu.w by omega) ha
    refine ⟨⟨x, y, gz⟩, (hband _).mpr ⟨hgz, hy, hx⟩, ?_⟩
    rw [hcell]
    dsimp only
    omega

/-! ## The output -/

/-- The output is written once: the tiles of a band store at each of its elements once and nowhere else, they read
inside their tile images, and the downloads of the bands follow each other, cover the output image once and change
nothing else. -/
structure WritesOutputOnce {V : Type} (this : FullProcessor K) (machine : Machine K V) (S : Storage K V)
    (cells : VkMat V → Int → Set Int) (image : ImageInfo) : Prop where
  stores : ∀ yi : Nat, yi < this.toRealesrganProcessor.ytiles image →
    OnceEach ((this.bandStores machine S image yi
        (this.toRealesrganProcessor.xtiles image).toNat).map Prod.fst)
      (cells (this.out_gpu machine S image yi) image.c)
  reads : ∀ yi xi : Nat, yi < this.toRealesrganProcessor.ytiles image →
    xi < this.toRealesrganProcessor.xtiles image → this.PostprocReadsInside machine S image yi xi
  next : ∀ yi : Nat, (yi + 1 : Int) < this.toRealesrganProcessor.ytiles image →
    this.downloadStart image (yi + 1) = this.downloadStart image yi + this.downloadSize machine S image yi
  cover : OnceEach ((List.range (this.toRealesrganProcessor.ytiles image).toNat).flatMap fun yi =>
      interval (this.downloadStart image yi)
        (this.downloadStart image yi + this.downloadSize machine S image yi))
    (span 0 (4 * image.w * (4 * image.h) * image.c))
  download : ∀ yi : Nat, yi < this.toRealesrganProcessor.ytiles image → ∀ (data : Int → UInt8) (i : Int),
    i ∉ span (this.downloadStart image yi)
        (this.downloadStart image yi + this.downloadSize machine S image yi) →
      this.processBand machine S image data yi i = data i

omit [LinearOrder K] [FloorRing K] in
/-- In either storage mode, given its elements and that a download keeps to its range. -/
theorem writesOutputOnce {V : Type} (net : EnlargingNetwork K) (tta : Bool) (machine : Machine K V)
    {S : Storage K V} (hS : S.Lawful bgr) {cells : VkMat V → Int → Set Int}
    (hcells : ∀ yi : Nat, {a | ∃ q, (new net.toNetwork tta).InBand machine S image yi q ∧
        (new net.toNetwork tta).bandCell machine S image yi q = a} =
      cells ((new net.toNetwork tta).out_gpu machine S image yi) image.c)
    (hdownload : ∀ (m : VkMat V) (start : Int) (data : Int → UInt8) (i : Int),
      i ∉ span start (start + m.w * m.h * image.c) → S.download m image.c start data i = data i)
    (hw : 1 ≤ image.w) (hh : 1 ≤ image.h) (hc : image.c = 3 ∨ image.c = 4) :
    (new net.toNetwork tta).WritesOutputOnce machine S cells image where
  stores := fun yi _ => (onceEach_bandStores hS hc).congr (hcells yi)
  reads := fun yi xi _ _ => postprocReadsInside net tta machine hS hc yi xi
  next := fun yi hyi => by
    change (yi + 1 : Int) < (image.h + 200 - 1) / 200 at hyi
    rw [downloadEnd_eq hS, downloadStart_eq (by omega)]
  cover := downloads_cover hS hw hh hc
  download := fun yi _ data i hi => by
    obtain ⟨hsizes, -⟩ := data_processTiles (new net.toNetwork tta) machine S image yi
      ((new net.toNetwork tta).toRealesrganProcessor.xtiles image).toNat
    obtain ⟨hband_w, hband_h, -⟩ := VkMat.sizes_eq hsizes
    apply hdownload
    rw [hband_w, hband_h]
    exact hi

/-- **Every byte of the output is written once**: for images of every size with three or four channels, both
channel orders, with and without TTA, and in both storage modes. -/
theorem output_written_once (net : EnlargingNetwork K) (tta : Bool) (gpu : Gpu K) (bicubic : Bicubic K)
    (bgr : Int) (image : ImageInfo) (hw : 1 ≤ image.w) (hh : 1 ≤ image.h)
    (hc : image.c = 3 ∨ image.c = 4) :
    (∀ run : Schedule K UInt8, (new net.toNetwork tta).WritesOutputOnce ⟨gpu, bicubic, run⟩
        (.int8 gpu.uint bgr) interleavedCells image) ∧
      ∀ run : Schedule K K, (new net.toNetwork tta).WritesOutputOnce ⟨gpu, bicubic, run⟩
        (.float gpu.bandCstep bgr) planarCells image := by
  constructor
  · intro run
    apply writesOutputOnce net tta _ (Storage.lawful_int8 gpu.uint bgr) (fun yi => bandCells_int8 hw hc) _
      hw hh hc
    intro m start data i hi
    change ¬ (start ≤ i ∧ i < start + m.w * m.h * image.c) at hi
    exact if_neg (by omega)
  · intro run
    apply writesOutputOnce net tta _ (Storage.lawful_float gpu.le_bandCstep bgr)
      (fun yi => bandCells_float hw) _ hw hh hc
    intro m start data i hi
    change ¬ (start ≤ i ∧ i < start + m.w * m.h * image.c) at hi
    show Storage.to_pixels bgr m image.c start data i = data i
    rw [Storage.to_pixels, if_pos hc]
    exact if_neg (by omega)

/-- The network that repeats every pixel enlarges by four. -/
def repeated : EnlargingNetwork ℚ :=
  ⟨nearest.toNetwork, nearest.extract_w, nearest.extract_h⟩

/-- An image of one row, whose last tile is five pixels wide. -/
theorem row_written_once :
    (new repeated.toNetwork true).WritesOutputOnce ⟨packedGpu, blackBicubic, plainSchedule 0⟩
      (.int8 packedGpu.uint 1) interleavedCells ⟨205, 1, 4, fun _ => 0⟩ :=
  (output_written_once repeated true packedGpu blackBicubic 1 ⟨205, 1, 4, fun _ => 0⟩ (by decide) (by decide)
    (.inr rfl)).1 (plainSchedule 0)

end

end FullProcessor

end

end LimbWorker.Realesrgan
