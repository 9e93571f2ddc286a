import LimbWorker.Realesrgan.Processor
import Mathlib.Data.Rat.Floor

/-!
# Tiling is invisible

A network is *local* when a colour value of its output depends on the input within the prepadding only.
Every tile that `process_image` cuts out is, with its padding, a window of the image extended by
reflection: this holds at the border of the image, at the border of a band (where the shader reflects
the band instead) and in between. So a local network gives the same value for the tile as for the whole
extended image, and what remains is that every byte of the output is written by the tile it belongs to
and by no later one.
-/

namespace LimbWorker.Realesrgan

open Lib

/-! ## What the program is for -/

/-- A network that enlarges by `scale`, where the value at a position is a fixed function of the phase
of the position and of the values within `prepadding` pixels of it. -/
structure LocalNetwork (K : Type) (scale prepadding : Int) extends Network K where
  kernel : Fin 3 → Int → Int →
    (Fin 3 → Fin (2 * prepadding.toNat + 1) → Fin (2 * prepadding.toNat + 1) → K) → K
  extract_w : ∀ f, (extract f).w = scale * f.w
  extract_h : ∀ f, (extract f).h = scale * f.h
  extract_value : ∀ f (c : Fin 3) (y x : Int),
    prepadding ≤ y / scale → y / scale + prepadding < f.h →
    prepadding ≤ x / scale → x / scale + prepadding < f.w →
      (extract f).value c y x = kernel c (y % scale) (x % scale) fun c' dy dx =>
        f.value c' (y / scale + dy - prepadding) (x / scale + dx - prepadding)

section

variable {K : Type} [Field K] [LinearOrder K] [FloorRing K]

/-- The whole image, with `prepadding` more pixels on each side that reflect it, as the network sees
it. -/
def extended (prepadding bgr : Int) (image : ImageInfo) : Planes K where
  w := image.w + 2 * prepadding
  h := image.h + 2 * prepadding
  value := fun c y x =>
    normalise (image.data ((reflect image.h (y - prepadding) * image.w +
      reflect image.w (x - prepadding)) * image.c + byteOf bgr c)).toNat

/-- The byte of a colour channel when the network is applied once. -/
def untiled (net : Network K) (scale prepadding bgr : Int) (uint : Int → Nat) (image : ImageInfo)
    (c y x : Int) : UInt8 :=
  quantise uint (denormalise ((net.extract (extended prepadding bgr image)).value c
    (y + prepadding * scale) (x + prepadding * scale)))

/-- An output image is as large as the enlarged input, and all its colour bytes are those of the
network applied once. -/
structure ShowsUntiled (net : Network K) (scale prepadding bgr : Int) (uint : Int → Nat)
    (image out : ImageInfo) : Prop where
  w : out.w = scale * image.w
  h : out.h = scale * image.h
  c : out.c = image.c
  data : ∀ c y x : Int, 0 ≤ c ∧ c < 3 → 0 ≤ y ∧ y < out.h → 0 ≤ x ∧ x < out.w →
    out.data ((y * out.w + x) * out.c + byteOf bgr c) =
      untiled net scale prepadding bgr uint image c y x

end

/-! ## Tiles are windows of the extended image -/

namespace RealesrganProcessor

/-- The rows that the reflected band shows for a tile are those of the reflected image. -/
theorem reflect_row {h gy : Int} {yi : Nat} (hh : 10 < h) (hyi : yi * 200 < h)
    (hgy : 0 ≤ gy ∧ gy < min (((yi : Int) + 1) * 200) h + 10 - (yi * 200 - 10)) :
    let y0 := max ((yi : Int) * 200 - 10) 0
    let y1 := min (((yi : Int) + 1) * 200 + 10) h
    let t := gy + min ((yi : Int) * 200) 10 - 10
    (0 ≤ reflect (y1 - y0) t ∧ reflect (y1 - y0) t < y1 - y0) ∧
      y0 + reflect (y1 - y0) t = reflect h (yi * 200 + gy - 10) := by
  intro y0 y1 t
  have ht : t = yi * 200 + gy - 10 - y0 := by omega
  constructor
  · apply reflect_mem
    rcases abs_cases t with ⟨habs, -⟩ | ⟨habs, -⟩ <;> omega
  · rw [ht]
    apply reflect_band
    · omega
    · omega
    · omega
    · rcases abs_cases (yi * 200 + gy - 10 : Int) with ⟨habs, -⟩ | ⟨habs, -⟩ <;> omega

/-- So are the columns; here the reflected row is the whole row. -/
theorem reflect_column {w gx : Int} {xi : Nat} (hw : 10 < w)
    (hgx : 0 ≤ gx ∧ gx < min (((xi : Int) + 1) * 200) w + 10 - (xi * 200 - 10)) :
    0 ≤ reflect w (gx + xi * 200 - 10) ∧ reflect w (gx + xi * 200 - 10) < w := by
  apply reflect_mem
  rcases abs_cases (gx + xi * 200 - 10 : Int) with ⟨habs, -⟩ | ⟨habs, -⟩ <;> omega

variable {K : Type} [Field K] [LinearOrder K] [FloorRing K] (net : Network K) (device : Device K)
  (bgr : Int) {image : ImageInfo} {yi xi : Nat}

/-- The padded tile, as the preprocessing leaves it. -/
def inTile (image : ImageInfo) (yi xi : Nat) : VkMat K :=
  ((new net).preprocTile device bgr image yi xi ((new net).in_gpu device image yi)).1

omit [LinearOrder K] [FloorRing K] in
theorem inTile_w : (inTile net device bgr image yi xi).w =
    min (((xi : Int) + 1) * 200) image.w + 10 - (xi * 200 - 10) := rfl

omit [LinearOrder K] [FloorRing K] in
theorem inTile_h : (inTile net device bgr image yi xi).h =
    min (((yi : Int) + 1) * 200) image.h + 10 - (yi * 200 - 10) := rfl

/-- Two grid points of the preprocessing never store at one address of the tile image. -/
theorem preproc_point_eq {p q : GridPoint} {outw outh outcstep : Int}
    (hcstep : outw * outh ≤ outcstep) (hp : 0 ≤ p.gx ∧ p.gx < outw) (hp' : 0 ≤ p.gy ∧ p.gy < outh)
    (hq : 0 ≤ q.gx ∧ q.gx < outw) (hq' : 0 ≤ q.gy ∧ q.gy < outh)
    (h : p.gz * outcstep + p.gy * outw + p.gx = q.gz * outcstep + q.gy * outw + q.gx) : p = q := by
  have hrange : ∀ x y : Int, 0 ≤ x ∧ x < outw → 0 ≤ y ∧ y < outh →
      0 ≤ y * outw + x ∧ y * outw + x < outcstep := by
    intro x y hx hy
    have hplane := (plane_mem_iff hx).mpr hy
    omega
  obtain ⟨hz, hoffset⟩ := mul_add_inj (hrange _ _ hp hp') (hrange _ _ hq hq')
    (by rw [← Int.add_assoc, ← Int.add_assoc]; exact h)
  obtain ⟨hy, hx⟩ := mul_add_inj hp hq hoffset
  cases p
  cases q
  simp_all

omit [Field K] [LinearOrder K] [FloorRing K] in
/-- The uploaded band shows the rows of the image from its first row on. -/
theorem in_gpu_data {y x k : Int}
    (hy : 0 ≤ y ∧ y < min (((yi : Int) + 1) * 200 + 10) image.h - max ((yi : Int) * 200 - 10) 0)
    (hx : 0 ≤ x ∧ x < image.w) (hk : 0 ≤ k ∧ k < image.c) :
    ((new net).in_gpu device image yi).data ((y * image.w + x) * image.c + k) =
      image.data (((max ((yi : Int) * 200 - 10) 0 + y) * image.w + x) * image.c + k) :=
  VkMat.data_upload hy hx hk

omit [LinearOrder K] [FloorRing K] in
/-- **A tile is a window of the extended image.** -/
theorem inTile_value (hw : 10 < image.w) (hh : 10 < image.h) (hc : image.c = 3 ∨ image.c = 4)
    (hyi : yi * 200 < image.h) {c y x : Int} (hcolour : 0 ≤ c ∧ c < 3)
    (hy : 0 ≤ y ∧ y < (inTile net device bgr image yi xi).h)
    (hx : 0 ≤ x ∧ x < (inTile net device bgr image yi xi).w) :
    (inTile net device bgr image yi xi).toPlanes.value c y x =
      (extended 10 bgr image).value c (yi * 200 + y) (xi * 200 + x) := by
  rw [inTile_h] at hy
  rw [inTile_w] at hx
  have hrow := reflect_row hh hyi hy
  have hcolumn := reflect_column hw hx
  have hchannel : c < image.c := by omega
  have hbyte := byteOf_mem bgr hc ⟨hcolour.1, hchannel⟩
  let p := (new net).preprocConstants device image yi xi ((new net).in_gpu device image yi)
  -- what the invocation at the point reads: the band holds the reflected row
  have hread : ((new net).in_gpu device image yi).data ((reflect p.h (y + p.crop_y - p.pad_top) *
      p.w + reflect p.w (x + p.crop_x - p.pad_left)) * p.channels + byteOf bgr c) =
      image.data ((reflect image.h (yi * 200 + y - 10) * image.w +
        reflect image.w (xi * 200 + x - 10)) * image.c + byteOf bgr c) := by
    have hband := in_gpu_data net device hrow.1 hcolumn hbyte
    rw [hrow.2] at hband
    rw [Int.add_comm (xi * 200) x]
    exact hband
  show dispatch (preproc bgr p _) (device.order (grid p.outw p.outh p.channels)) _
    (.top, c * p.outcstep + y * p.outw + x) = _
  -- the point itself stores the value, and no other stores at its address
  apply dispatch_of_mem (p := ⟨x, y, c⟩)
  · rw [mem_order_grid device.perm]
    exact ⟨hx, hy, hcolour.1, hchannel⟩
  · rw [mem_preproc_top]
    refine ⟨⟨hx.2, hy.2, hchannel⟩, by show c ≠ 3; omega, rfl, ?_⟩
    dsimp only
    rw [hread]
    rfl
  · intro q hq v' hv'
    rw [mem_order_grid device.perm] at hq
    rw [mem_preproc_top] at hv'
    obtain ⟨-, -, haddress, hvalue⟩ := hv'
    have hpoint : (⟨x, y, c⟩ : GridPoint) = q :=
      preproc_point_eq (device.le_cstep p.outw p.outh) hx hy hq.1 hq.2.1 haddress
    subst hpoint
    dsimp only at hvalue
    rw [hvalue, hread]
    rfl

/-! ## The network on a tile -/

omit [LinearOrder K] [FloorRing K] in
/-- **On the part of a tile that is kept, a local network gives what it gives on the whole image.** -/
theorem extract_inTile (net : LocalNetwork K 4 10) (hw : 10 < image.w) (hh : 10 < image.h)
    (hc : image.c = 3 ∨ image.c = 4) (hyi : yi * 200 < image.h) {c y x : Int}
    (hcolour : 0 ≤ c ∧ c < 3)
    (hy : 0 ≤ y ∧ y < (min (((yi : Int) + 1) * 200) image.h - max ((yi : Int) * 200) 0) * 4)
    (hx : 0 ≤ x ∧ x < min (200 * 4) (image.w * 4 - xi * 200 * 4)) :
    (net.extract (inTile net.toNetwork device bgr image yi xi).toPlanes).value c (y + 40) (x + 40) =
      (net.extract (extended 10 bgr image)).value c (yi * 800 + y + 40) (xi * 800 + x + 40) := by
  obtain ⟨k, rfl⟩ : ∃ k : Fin 3, (k : Int) = c := ⟨⟨c.toNat, by omega⟩, by simp; omega⟩
  have htile_h : (inTile net.toNetwork device bgr image yi xi).toPlanes.h =
    min (((yi : Int) + 1) * 200) image.h + 10 - (yi * 200 - 10) := rfl
  have htile_w : (inTile net.toNetwork device bgr image yi xi).toPlanes.w =
    min (((xi : Int) + 1) * 200) image.w + 10 - (xi * 200 - 10) := rfl
  have hextended_h : (extended 10 bgr image : Planes K).h = image.h + 2 * 10 := rfl
  have hextended_w : (extended 10 bgr image : Planes K).w = image.w + 2 * 10 := rfl
  rw [net.extract_value _ k _ _ (by omega) (by omega) (by omega) (by omega),
    net.extract_value _ k _ _ (by omega) (by omega) (by omega) (by omega)]
  -- a tile starts at a multiple of the scale, so phase and neighbourhood are the same
  have hphase_y : (yi * 800 + y + 40 : Int) % 4 = (y + 40) % 4 := by omega
  have hphase_x : (xi * 800 + x + 40 : Int) % 4 = (x + 40) % 4 := by omega
  rw [hphase_y, hphase_x]
  congr 1
  funext c' dy dx
  have hc' := c'.isLt
  have hdy := dy.isLt
  have hdx := dx.isLt
  rw [inTile_value net.toNetwork device bgr hw hh hc hyi (by omega)
    (by rw [inTile_h]; omega) (by rw [inTile_w]; omega)]
  have hrow : (yi * 200 + ((y + 40) / 4 + dy - 10) : Int) = (yi * 800 + y + 40) / 4 + dy - 10 := by
    omega
  have hcolumn : (xi * 200 + ((x + 40) / 4 + dx - 10) : Int) =
      (xi * 800 + x + 40) / 4 + dx - 10 := by omega
  rw [hrow, hcolumn]

omit [LinearOrder K] [FloorRing K] in
/-- What the postprocessing reads of a tile is the value that the network gives on the whole image. -/
theorem outTile_data (net : LocalNetwork K 4 10) (hw : 10 < image.w) (hh : 10 < image.h)
    (hc : image.c = 3 ∨ image.c = 4) (hyi : yi * 200 < image.h) {c y x : Int}
    (hcolour : 0 ≤ c ∧ c < 3)
    (hy : 0 ≤ y ∧ y < (min (((yi : Int) + 1) * 200) image.h - max ((yi : Int) * 200) 0) * 4)
    (hx : 0 ≤ x ∧ x < min (200 * 4) (image.w * 4 - xi * 200 * 4)) :
    let tile := (new net.toNetwork).extractTile device yi xi
      (inTile net.toNetwork device bgr image yi xi)
    tile.data (c * tile.cstep + (y + 40) * tile.w + x + 40) =
      (net.extract (extended 10 bgr image)).value c (yi * 800 + y + 40) (xi * 800 + x + 40) := by
  intro tile
  have hout_h : ((new net.toNetwork).net.extract
    (inTile net.toNetwork device bgr image yi xi).toPlanes).h =
    4 * (min (((yi : Int) + 1) * 200) image.h + 10 - (yi * 200 - 10)) := net.extract_h _
  have hout_w : ((new net.toNetwork).net.extract
    (inTile net.toNetwork device bgr image yi xi).toPlanes).w =
    4 * (min (((xi : Int) + 1) * 200) image.w + 10 - (xi * 200 - 10)) := net.extract_w _
  have hassoc : c * tile.cstep + (y + 40) * tile.w + x + 40 =
    c * tile.cstep + ((y + 40) * tile.w + (x + 40)) := by omega
  rw [← extract_inTile device bgr net hw hh hc hyi hcolour hy hx, hassoc]
  apply VkMat.data_ofPlanes (device.le_cstep _ _)
  · rw [hout_h]
    omega
  · rw [hout_w]
    omega

/-! ## A band after its tiles -/

/-- What the band shows once its first `n` tiles are done. -/
structure BandShows (net : Network K) (device : Device K) (bgr : Int) (image : ImageInfo)
    (yi n : Nat) (out : VkMat UInt8) : Prop where
  w : out.w = image.w * 4
  h : out.h = (min (((yi : Int) + 1) * 200) image.h - max ((yi : Int) * 200) 0) * 4
  data : ∀ c y x : Int, 0 ≤ c ∧ c < 3 → 0 ≤ y ∧ y < out.h → 0 ≤ x ∧ x < out.w → x < n * 800 →
    out.data ((y * out.w + x) * image.c + byteOf bgr c) =
      untiled net 4 10 bgr device.uint image c (yi * 800 + y) x

omit [Field K] [LinearOrder K] [FloorRing K] in
/-- The address of a byte of the band tells the grid point that stores there. -/
theorem postproc_point_eq {q : GridPoint} {outw offset channels c y x : Int}
    (hchannels : channels = 3 ∨ channels = 4) (hq : 0 ≤ q.gx + offset ∧ q.gx + offset < outw)
    (hx : 0 ≤ x ∧ x < outw) (hgz : 0 ≤ q.gz ∧ q.gz < channels) (hc : 0 ≤ c ∧ c < channels)
    (h : (y * outw + x) * channels + byteOf bgr c =
      (q.gy * outw + q.gx + offset) * channels + byteOf bgr q.gz) :
    q = ⟨x - offset, y, c⟩ := by
  obtain ⟨hoffset, hbyte⟩ := mul_add_inj (byteOf_mem bgr hchannels hc)
    (byteOf_mem bgr hchannels hgz) h
  rw [Int.add_assoc] at hoffset
  obtain ⟨hy, hcolumn⟩ := mul_add_inj hx hq hoffset
  have hz := byteOf_inj bgr (by omega) (by omega) hbyte
  obtain ⟨gx, gy, gz⟩ := q
  simp only [GridPoint.mk.injEq]
  dsimp only at hy hcolumn hz
  omega

/-- **A tile fills its columns of the band** and leaves the others as they are. -/
theorem BandShows.succ {net : LocalNetwork K 4 10} (hw : 10 < image.w) (hh : 10 < image.h)
    (hc : image.c = 3 ∨ image.c = 4) (hyi : yi * 200 < image.h) {out : VkMat UInt8}
    (h : BandShows net.toNetwork device bgr image yi xi out) :
    BandShows net.toNetwork device bgr image yi (xi + 1)
      ((new net.toNetwork).processTile device bgr image yi xi
        ((new net.toNetwork).in_gpu device image yi) out) := by
  let tile := (new net.toNetwork).extractTile device yi xi
    (inTile net.toNetwork device bgr image yi xi)
  let alpha := (new net.toNetwork).alphaTile device image ((new net.toNetwork).preprocTile device bgr
    image yi xi ((new net.toNetwork).in_gpu device image yi)).2
  let p := (new net.toNetwork).postprocConstants image xi tile alpha out
  have hgx_max : p.gx_max = min (200 * 4) (out.w - xi * 200 * 4) := rfl
  refine ⟨h.w, h.h, fun c y x hcolour hy hx hlt => ?_⟩
  change 0 ≤ y ∧ y < out.h at hy
  change 0 ≤ x ∧ x < out.w at hx
  have hchannel : c < image.c := by omega
  -- a point that stores at the address is the one whose column it is
  have hpoint : ∀ q ∈ device.order (grid p.gx_max p.outh p.channels), ∀ b,
      ((y * out.w + x) * image.c + byteOf bgr c, b) ∈
        postproc device.uint bgr p tile.data alpha.data q → q = ⟨x - xi * 200 * 4, y, c⟩ := by
    intro q hq b hb
    rw [mem_order_grid device.perm, hgx_max] at hq
    rw [mem_postproc] at hb
    exact postproc_point_eq bgr hc (by omega) hx ⟨hq.2.2.1, hb.1.2.2⟩ ⟨hcolour.1, hchannel⟩ hb.2.1
  show dispatch (postproc device.uint bgr p tile.data alpha.data)
    (device.order (grid p.gx_max p.outh p.channels)) out.data
    ((y * out.w + x) * image.c + byteOf bgr c) = _
  by_cases hold : x < xi * 800
  · -- a column of an earlier tile: no point of this one stores there
    rw [dispatch_of_not_mem, h.data c y x hcolour hy hx hold]
    intro q hq b hb
    obtain rfl := hpoint q hq b hb
    have hcolumn : 0 ≤ x - xi * 200 * 4 := ((mem_order_grid device.perm).mp hq).1.1
    omega
  · have hcolumn : 0 ≤ x - xi * 200 * 4 ∧ x - xi * 200 * 4 < min (200 * 4) (out.w - xi * 200 * 4) := by
      omega
    have hvalue := outTile_data device bgr net hw hh hc hyi hcolour (h.h ▸ hy) (h.w ▸ hcolumn)
    -- a column of this tile: what it stores is the untiled value
    have hexact : quantise device.uint (if c = 3 then alpha.data (y * p.alphaw + (x - xi * 200 * 4))
        else denormalise
          (tile.data (c * p.cstep + (y + p.crop_y) * p.w + (x - xi * 200 * 4) + p.crop_x))) =
        untiled net.toNetwork 4 10 bgr device.uint image c (yi * 800 + y) x := by
      have hread : tile.data (c * p.cstep + (y + p.crop_y) * p.w + (x - xi * 200 * 4) + p.crop_x) =
        _ := hvalue
      have hx' : xi * 800 + (x - xi * 200 * 4) + 40 = x + 10 * 4 := by omega
      rw [if_neg (by omega), hread, hx']
      rfl
    apply dispatch_of_mem (p := ⟨x - xi * 200 * 4, y, c⟩)
    · rw [mem_order_grid device.perm]
      exact ⟨hcolumn, hy, hcolour.1, hchannel⟩
    · rw [mem_postproc]
      refine ⟨⟨hcolumn.2, hy.2, hchannel⟩, ?_, hexact.symm⟩
      have hoffset : y * out.w + (x - xi * 200 * 4) + xi * 200 * 4 = y * out.w + x := by omega
      rw [← hoffset]
      rfl
    · intro q hq b hb
      obtain rfl := hpoint q hq b hb
      rw [mem_postproc] at hb
      exact hb.2.2.trans hexact

/-- A band shows the first `n` tiles once they are done. -/
theorem bandShows_processTiles {net : LocalNetwork K 4 10} (hw : 10 < image.w) (hh : 10 < image.h)
    (hc : image.c = 3 ∨ image.c = 4) (hyi : yi * 200 < image.h) (n : Nat) :
    BandShows net.toNetwork device bgr image yi n
      ((new net.toNetwork).processTiles device bgr image yi n) := by
  induction n with
  | zero => exact ⟨rfl, rfl, fun c y x _ _ hx hlt => by omega⟩
  | succ n ih =>
      unfold processTiles at ih ⊢
      rw [List.range_succ, List.foldl_append]
      exact ih.succ device bgr hw hh hc hyi

/-! ## The image after its bands -/

/-- **A band fills its rows of the image** and leaves the rows before it as they are. -/
theorem processBand_shows {net : LocalNetwork K 4 10} (hw : 10 < image.w) (hh : 10 < image.h)
    (hc : image.c = 3 ∨ image.c = 4) (hyi : yi * 200 < image.h) {data : Int → UInt8}
    {c y x : Int} (hcolour : 0 ≤ c ∧ c < 3) (hx : 0 ≤ x ∧ x < image.w * 4)
    (hy : 0 ≤ y ∧ y < image.h * 4) (hlt : y < (yi + 1) * 800)
    (hbefore : y < yi * 800 → data ((y * (image.w * 4) + x) * image.c + byteOf bgr c) =
      untiled net.toNetwork 4 10 bgr device.uint image c y x) :
    (new net.toNetwork).processBand device bgr image data yi
        ((y * (image.w * 4) + x) * image.c + byteOf bgr c) =
      untiled net.toNetwork 4 10 bgr device.uint image c y x := by
  let xtiles := ((new net.toNetwork).xtiles image).toNat
  let band := (new net.toNetwork).processTiles device bgr image yi xtiles
  have hshows : BandShows net.toNetwork device bgr image yi xtiles band :=
    bandShows_processTiles device bgr hw hh hc hyi xtiles
  have hband : (new net.toNetwork).processBand device bgr image data yi =
      band.download image.c (yi * 800 * band.w * image.c) data := by
    show band.download image.c (yi * 4 * 200 * image.w * 4 * image.c) data = _
    rw [hshows.w]
    congr 1
    ring
  have hwidth : image.w * 4 = band.w := hshows.w.symm
  have hbyte := byteOf_mem bgr hc (show 0 ≤ c ∧ c < image.c by omega)
  rw [hband]
  rw [hwidth] at hx hbefore ⊢
  by_cases hrow : y < yi * 800
  · -- rows of earlier bands are left as they are
    rw [VkMat.download_of_lt hrow hx hbyte]
    exact hbefore hrow
  · have hheight := hshows.h
    obtain ⟨y', rfl⟩ : ∃ y', yi * 800 + y' = y := ⟨y - yi * 800, by omega⟩
    rw [VkMat.download_of_mem (by omega) hx hbyte]
    apply hshows.data c y' x hcolour (by omega) hx
    -- the tiles reach the right border
    have hxtiles : (xtiles : Int) = (image.w + 200 - 1) / 200 := by
      show (((image.w + 200 - 1) / 200).toNat : Int) = _
      omega
    omega

/-- The image shows the rows of the first `n` bands once they are done. -/
theorem bands_show {net : LocalNetwork K 4 10} (hw : 10 < image.w) (hh : 10 < image.h)
    (hc : image.c = 3 ∨ image.c = 4) (n : Nat) (hn : (n : Int) ≤ (image.h + 200 - 1) / 200)
    {c y x : Int} (hcolour : 0 ≤ c ∧ c < 3) (hx : 0 ≤ x ∧ x < image.w * 4)
    (hy : 0 ≤ y ∧ y < image.h * 4) (hlt : y < n * 800) :
    (List.range n).foldl ((new net.toNetwork).processBand device bgr image) device.imageMemory
        ((y * (image.w * 4) + x) * image.c + byteOf bgr c) =
      untiled net.toNetwork 4 10 bgr device.uint image c y x := by
  induction n with
  | zero => omega
  | succ n ih =>
      rw [List.range_succ, List.foldl_append]
      apply processBand_shows device bgr hw hh hc (by omega) hcolour hx hy (by omega)
      intro hbefore
      exact ih (by omega) (by omega)

/-- **Tiling is invisible**: for every local network, every image larger than the prepadding with three
or four channels, both channel orders, and whatever the device leaves open, all colour bytes are those
of the network applied once to the image extended by reflection. -/
theorem process_image_showsUntiled (net : LocalNetwork K 4 10) (image : ImageInfo)
    (hw : 10 < image.w) (hh : 10 < image.h) (hc : image.c = 3 ∨ image.c = 4) :
    ShowsUntiled net.toNetwork 4 10 bgr device.uint image
      ((new net.toNetwork).process_image device bgr image).2.1 := by
  refine ⟨Int.mul_comm image.w 4, Int.mul_comm image.h 4, rfl, fun c y x hcolour hy hx => ?_⟩
  have hytiles : (((image.h + 200 - 1) / 200).toNat : Int) = (image.h + 200 - 1) / 200 := by omega
  change 0 ≤ y ∧ y < image.h * 4 at hy
  apply bands_show device bgr hw hh hc ((image.h + 200 - 1) / 200).toNat (by omega) hcolour hx hy
  omega

/-! ## An instance -/

/-- A device that runs its grids row by row, packs its planes and clears its memory. -/
def plainDevice : Device ℚ where
  order := id
  perm := fun points => .refl points
  cstep := fun w h => w * h
  le_cstep := fun w h => Int.le_refl (w * h)
  uint := Int.toNat
  uint_of_nonneg := fun _ _ _ => rfl
  imageMemory := fun _ => 0
  bandMemory := fun _ _ => 0
  tileMemory := fun _ _ _ => 0
  outTileMemory := fun _ _ _ => 0
  bicubic := fun _ m => m

/-- A network that repeats every pixel. -/
def repeatPixels : LocalNetwork ℚ 4 10 where
  extract := fun f => ⟨4 * f.w, 4 * f.h, fun c y x => f.value c (y / 4) (x / 4)⟩
  kernel := fun c _ _ window => window c 10 10
  extract_w := fun _ => rfl
  extract_h := fun _ => rfl
  extract_value := fun f c y x _ _ _ _ => by
    have hcentre : ∀ t : Int, t + (((10 : Fin (2 * (10 : Int).toNat + 1)) : Nat) : Int) - 10 = t :=
      fun t => Int.add_sub_cancel t 10
    dsimp only
    rw [hcentre, hcentre]

/-- An image of 205 by 11 pixels: the second of its two tiles is narrower than the padding. -/
theorem process_image_narrow_tile :
    ShowsUntiled repeatPixels.toNetwork 4 10 1 plainDevice.uint ⟨205, 11, 3, fun i => i.toNat.toUInt8⟩
      ((new repeatPixels.toNetwork).process_image plainDevice 1
        ⟨205, 11, 3, fun i => i.toNat.toUInt8⟩).2.1 :=
  process_image_showsUntiled plainDevice 1 repeatPixels _ (by decide) (by decide) (.inl rfl)

end RealesrganProcessor

end LimbWorker.Realesrgan
