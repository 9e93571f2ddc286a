import LimbWorker.Realesrgan.Assembly
import LimbWorker.Realesrgan.Tiling
import Mathlib.Algebra.Order.Ring.Defs

/-!
# What a tile shows

In all modes a tile image is a *window*: the part of the image extended by reflection that lies around the
tile, under the symmetry that belongs to its number. The network sees the window and nothing else of the
machine, so the value that the postprocessing computes for a point depends on the image, the network and
the enlarging of the alpha channel only (`tileValue_eq`).

Of the network it is assumed that it enlarges by four and that its output depends on the pixels of its
input.
-/

namespace LimbWorker.Realesrgan

open Lib

/-! ## Windows -/

section

variable {K : Type}

/-- The same planes, as far as one can see. -/
structure Planes.Same (f g : Planes K) : Prop where
  w : f.w = g.w
  h : f.h = g.h
  value : ∀ c y x : Int, (0 ≤ c ∧ c < 3) → (0 ≤ y ∧ y < f.h) → (0 ≤ x ∧ x < f.w) →
    f.value c y x = g.value c y x

theorem Planes.Same.trans {f g k : Planes K} (hfg : f.Same g) (hgk : g.Same k) : f.Same k where
  w := hfg.w.trans hgk.w
  h := hfg.h.trans hgk.h
  value := fun c y x hc hy hx =>
    (hfg.value c y x hc hy hx).trans (hgk.value c y x hc (hfg.h ▸ hy) (hfg.w ▸ hx))

/-- Planes under a symmetry. -/
def Planes.transform (σ : Symmetry) (f : Planes K) : Planes K where
  w := σ.width f.w f.h
  h := σ.height f.w f.h
  value := fun c r s => f.value c (σ.sourceRow f.w f.h r s) (σ.sourceColumn f.w f.h r s)

/-- What is found where a symmetry takes a point. -/
theorem Planes.value_transform (σ : Symmetry) (f : Planes K) (c y x : Int) :
    (f.transform σ).value c (σ.row f.w f.h y x) (σ.column f.w f.h y x) = f.value c y x := by
  show f.value c _ _ = _
  rw [Symmetry.sourceRow_row, Symmetry.sourceColumn_column]

/-- A network that enlarges by four, and whose output depends on the pixels of its input. -/
structure TileNetwork (K : Type) extends Network K where
  extract_w : ∀ f, (extract f).w = 4 * f.w
  extract_h : ∀ f, (extract f).h = 4 * f.h
  extract_same : ∀ f g, f.Same g → (extract f).Same (extract g)

/-- The symmetry under which the shaders keep tile image `ti`. -/
def symmetryOf : Fin 8 → Symmetry
  | 0 => ⟨false, false, false⟩
  | 1 => ⟨false, true, false⟩
  | 2 => ⟨false, true, true⟩
  | 3 => ⟨false, false, true⟩
  | 4 => ⟨true, false, false⟩
  | 5 => ⟨true, false, true⟩
  | 6 => ⟨true, true, true⟩
  | 7 => ⟨true, true, false⟩

/-- **The stores of the preprocessing with TTA**, number by number. -/
theorem preprocTtaTops_eq (p : PreprocParameter) (gz gy gx : Int) :
    preprocTtaTops p gz gy gx = (List.finRange 8).map fun ti =>
      (ti, (symmetryOf ti).address (gz * p.outcstep) p.outw p.outh gy gx) := rfl

/-- **The reads of the postprocessing with TTA**, number by number. -/
theorem postprocTtaBottoms_eq (p : PostprocParameter) (gz gy gx : Int) :
    postprocTtaBottoms p gz gy gx = (List.finRange 8).map fun ti =>
      (ti, (symmetryOf ti).address (gz * p.cstep) p.w p.h (gy + p.crop_y) (gx + p.crop_x)) := rfl

/-- The tiles with their padding, as windows of the extended image. -/
def window [Field K] (bgr : Int) (image : ImageInfo) (yi xi : Nat) : Planes K where
  w := min (((xi : Int) + 1) * 200) image.w + 10 - (xi * 200 - 10)
  h := min (((yi : Int) + 1) * 200) image.h + 10 - (yi * 200 - 10)
  value := fun c y x => (extended 10 bgr image).value c (yi * 200 + y) (xi * 200 + x)

/-- The alpha channel of a tile. -/
def alphaWindow [Field K] (image : ImageInfo) (yi xi : Nat) : VkMat K where
  w := min (((xi : Int) + 1) * 200) image.w - xi * 200
  h := min (((yi : Int) + 1) * 200) image.h - yi * 200
  cstep := 0
  data := fun i =>
    let w := min (((xi : Int) + 1) * 200) image.w - xi * 200
    (image.data (((yi * 200 + i / w) * image.w + (xi * 200 + i % w)) * image.c + 3)).toNat

/-- The colour value that the network gives for channel `c`, row `sy` and column `sx` of an enlarged
window. With TTA it is the mean over the eight symmetries. -/
def windowColour [Field K] (net : Network K) (tta : Bool) (f : Planes K) (c sy sx : Int) : K :=
  if tta then
    mean ((List.finRange 8).map fun ti =>
      let σ := symmetryOf ti
      (net.extract (f.transform σ)).value c (σ.row (4 * f.w) (4 * f.h) sy sx)
        (σ.column (4 * f.w) (4 * f.h) sy sx))
  else (net.extract f).value c sy sx

/-- The value of channel `c`, row `y` and column `x` of the enlarged tile, rounded when it is stored. -/
def windowValue [Field K] (net : Network K) (bicubic : Bicubic K) (tta : Bool) (bgr : Int)
    (image : ImageInfo) (yi xi : Nat) (c y x : Int) : K :=
  let v :=
    if c = 3 then
      let alpha : VkMat K := alphaWindow image yi xi
      (bicubic.forward 4 alpha).data (y * (4 * alpha.w) + x)
    else denormalise (windowColour net tta (window bgr image yi xi) c (y + 40) (x + 40))
  clip v

end

/-! ## The preprocessing -/

section

variable {K V : Type} [Field K] {S : Storage K V}
  {tops : PreprocParameter → Int → Int → Int → List (Fin 8 × Int)} {p : PreprocParameter}
  {data : Int → V} {g : GridPoint} {a : Int} {v : K}

/-- What an invocation reads: the pixel that the reflection gives. -/
def preprocRead (S : Storage K V) (p : PreprocParameter) (data : Int → V) (g : GridPoint) : K :=
  S.load (data (S.cell p.w p.cstep p.channels g.gz (reflect p.h (g.gy + p.crop_y - p.pad_top))
    (reflect p.w (g.gx + p.crop_x - p.pad_left))))

/-- **What an invocation stores in the tile images**, in all modes. -/
theorem mem_preprocMain_top {ti : Fin 8} :
    ((.top ti, a), v) ∈ preprocMain S tops p data g ↔
      (g.gx < p.outw ∧ g.gy < p.outh ∧ g.gz < p.channels) ∧ g.gz ≠ 3 ∧
        (ti, a) ∈ tops p g.gz g.gy g.gx ∧ v = normalise (preprocRead S p data g) := by
  unfold preprocMain
  dsimp only
  split
  · next hout =>
    simp only [List.not_mem_nil, false_iff]
    omega
  · next hin =>
    have hbounds : g.gx < p.outw ∧ g.gy < p.outh ∧ g.gz < p.channels := by omega
    split
    · next hgz =>
      split <;> simp [hgz]
    · next hgz =>
      rw [List.mem_map]
      constructor
      · rintro ⟨⟨ti', a'⟩, hmem, heq⟩
        cases heq
        exact ⟨hbounds, hgz, hmem, rfl⟩
      · rintro ⟨-, -, hmem, rfl⟩
        exact ⟨(ti, a), hmem, rfl⟩

/-- What it stores in the alpha image. -/
theorem mem_preprocMain_alpha :
    ((.alpha, a), v) ∈ preprocMain S tops p data g ↔
      (g.gx < p.outw ∧ g.gy < p.outh ∧ g.gz < p.channels) ∧ g.gz = 3 ∧
        ((0 ≤ g.gx - p.pad_left ∧ g.gx - p.pad_left < p.alphaw) ∧
          0 ≤ g.gy - p.pad_top ∧ g.gy - p.pad_top < p.alphah) ∧
        a = (g.gy - p.pad_top) * p.alphaw + (g.gx - p.pad_left) ∧ v = preprocRead S p data g := by
  unfold preprocMain
  dsimp only
  split
  · next hout =>
    simp only [List.not_mem_nil, false_iff]
    omega
  · next hin =>
    have hbounds : g.gx < p.outw ∧ g.gy < p.outh ∧ g.gz < p.channels := by omega
    split
    · next hgz =>
      -- only the fourth channel goes to the alpha tile
      split
      · next hinside =>
        rw [List.mem_singleton]
        constructor
        · intro heq
          cases heq
          exact ⟨hbounds, hgz, by omega, rfl, rfl⟩
        · rintro ⟨-, -, -, rfl, rfl⟩
          rfl
      · next hinside =>
        simp only [List.not_mem_nil, false_iff]
        omega
    · next hgz =>
      rw [List.mem_map]
      constructor
      · rintro ⟨top, -, heq⟩
        cases heq
      · exact fun h => absurd h.2.1 hgz

end

namespace FullProcessor

variable {K V : Type} [Field K] {net : Network K} {tta : Bool} {machine : Machine K V}
  {S : Storage K V} {bgr : Int} {image : ImageInfo} {yi xi : Nat}

/-- A point of the preprocessing reads the pixel of the extended image. -/
theorem preprocRead_eq (hS : S.Lawful bgr) (hw : 10 < image.w) (hh : 10 < image.h)
    (hc : image.c = 3 ∨ image.c = 4) (hyi : yi * 200 < image.h) {g : GridPoint}
    (hgx : 0 ≤ g.gx ∧ g.gx < min (((xi : Int) + 1) * 200) image.w + 10 - (xi * 200 - 10))
    (hgy : 0 ≤ g.gy ∧ g.gy < min (((yi : Int) + 1) * 200) image.h + 10 - (yi * 200 - 10))
    (hgz : 0 ≤ g.gz ∧ g.gz < image.c) :
    preprocRead S ((new net tta).preprocConstants machine S image yi xi)
        ((new net tta).in_gpu machine S image yi).data g =
      ((image.data ((reflect image.h (yi * 200 + g.gy - 10) * image.w +
        reflect image.w (xi * 200 + g.gx - 10)) * image.c + byteOf bgr g.gz)).toNat : K) := by
  have hrow := RealesrganProcessor.reflect_row hh hyi hgy
  have hcolumn := RealesrganProcessor.reflect_column hw hgx
  have hpw : ((new net tta).preprocConstants machine S image yi xi).w = image.w := hS.upload_w hc
  have hph : ((new net tta).preprocConstants machine S image yi xi).h =
      min (((yi : Int) + 1) * 200 + 10) image.h - max ((yi : Int) * 200 - 10) 0 := hS.upload_h hc
  unfold preprocRead
  rw [hpw, hph]
  refine (hS.load_upload hc hgz hrow.1 hcolumn).trans ?_
  have hy0 : max ((yi : Int) * (new net tta).tilesize - (new net tta).prepadding) 0 + _ = _ := hrow.2
  rw [hy0, Int.add_comm g.gx]

/-- One address for each tile image of a mode: without TTA there is only tile image 0. -/
theorem mem_numbered {f : Fin 8 → Int} {ti : Fin 8} {a : Int} :
    (ti, a) ∈ (if tta = true then (List.finRange 8).map fun ti => (ti, f ti) else [(0, f 0)]) ↔
      (tta = true ∨ ti = 0) ∧ a = f ti := by
  cases tta with
  | true =>
      rw [if_pos rfl, List.mem_map]
      constructor
      · rintro ⟨ti', -, heq⟩
        cases heq
        exact ⟨.inl rfl, rfl⟩
      · rintro ⟨-, rfl⟩
        exact ⟨ti, List.mem_finRange ti, rfl⟩
  | false =>
      rw [if_neg Bool.false_ne_true, List.mem_singleton, Prod.mk.injEq]
      constructor
      · rintro ⟨rfl, rfl⟩
        exact ⟨.inr rfl, rfl⟩
      · rintro ⟨hti, rfl⟩
        rcases hti with htta | rfl
        · cases htta
        · exact ⟨rfl, rfl⟩

omit [Field K] in
/-- Where the preprocessing stores, in both modes. -/
theorem mem_tops {p : PreprocParameter} {gz gy gx : Int} {ti : Fin 8} {a : Int} :
    (ti, a) ∈ (new net tta).tops p gz gy gx ↔ (tta = true ∨ ti = 0) ∧
      a = (symmetryOf ti).address (gz * p.outcstep) p.outw p.outh gy gx := by
  have htops : (new net tta).tops p gz gy gx =
      if tta = true then (List.finRange 8).map fun ti =>
        (ti, (symmetryOf ti).address (gz * p.outcstep) p.outw p.outh gy gx)
      else [(0, (symmetryOf 0).address (gz * p.outcstep) p.outw p.outh gy gx)] := by
    cases tta with
    | true => exact preprocTtaTops_eq p gz gy gx
    | false => rfl
  rw [htops]
  exact mem_numbered

/-- The symmetries that exchange the axes are those of the last four tile images. -/
theorem transpose_symmetryOf : ∀ ti : Fin 8, (symmetryOf ti).transpose = !decide (ti < 4) := by
  decide

variable (net tta machine S image yi xi) in
/-- The sizes of a tile image are those of the tile under its symmetry. -/
theorem inTile_sizes (ti : Fin 8) :
    let p := (new net tta).preprocConstants machine S image yi xi
    let tile := (new net tta).inTile machine S image yi xi ti
    tile.w = (symmetryOf ti).width p.outw p.outh ∧ tile.h = (symmetryOf ti).height p.outw p.outh ∧
      tile.cstep = p.outcstep := by
  intro p tile
  have htranspose := transpose_symmetryOf ti
  have hcomm := machine.gpu.cstep_comm p.outh p.outw
  by_cases hti : ti < 4
  · have hσ : (symmetryOf ti).transpose = false := by simp [htranspose, hti]
    simp only [Symmetry.width, Symmetry.height, hσ, tile, inTile, hti]
    exact ⟨rfl, rfl, rfl⟩
  · have hσ : (symmetryOf ti).transpose = true := by simp [htranspose, hti]
    simp only [Symmetry.width, Symmetry.height, hσ, tile, inTile, hti]
    exact ⟨rfl, rfl, hcomm⟩

/-- The invocation whose point the symmetry of tile image `ti` takes to row `r` and column `s`. -/
def tilePoint (p : PreprocParameter) (ti : Fin 8) (c r s : Int) : GridPoint :=
  ⟨(symmetryOf ti).sourceColumn p.outw p.outh r s, (symmetryOf ti).sourceRow p.outw p.outh r s, c⟩

/-- It is a point of the dispatch, as far as rows and columns go. -/
theorem tilePoint_mem {ti : Fin 8} {c r s : Int}
    (hr : 0 ≤ r ∧ r < ((new net tta).inTile machine S image yi xi ti).h)
    (hs : 0 ≤ s ∧ s < ((new net tta).inTile machine S image yi xi ti).w) :
    let p := (new net tta).preprocConstants machine S image yi xi
    (0 ≤ (tilePoint p ti c r s).gx ∧ (tilePoint p ti c r s).gx < p.outw) ∧
      0 ≤ (tilePoint p ti c r s).gy ∧ (tilePoint p ti c r s).gy < p.outh := by
  intro p
  obtain ⟨htile_w, htile_h, -⟩ := inTile_sizes net tta machine S image yi xi ti
  rw [htile_h] at hr
  rw [htile_w] at hs
  exact ⟨Symmetry.sourceColumn_mem hr hs, Symmetry.sourceRow_mem hr hs⟩

/-- **Who stores an element of a tile image**: the invocation of its point and no other one. -/
theorem mem_preprocMain_tile {ti : Fin 8} {c r s : Int} {data : Int → V} {q : GridPoint} {v : K}
    (hcolour : 0 ≤ c ∧ c < 3) (hr : 0 ≤ r ∧ r < ((new net tta).inTile machine S image yi xi ti).h)
    (hs : 0 ≤ s ∧ s < ((new net tta).inTile machine S image yi xi ti).w)
    (hq : let p := (new net tta).preprocConstants machine S image yi xi
      (0 ≤ q.gx ∧ q.gx < p.outw) ∧ (0 ≤ q.gy ∧ q.gy < p.outh) ∧ 0 ≤ q.gz ∧ q.gz < p.channels) :
    let p := (new net tta).preprocConstants machine S image yi xi
    let tile := (new net tta).inTile machine S image yi xi ti
    ((.top ti, c * tile.cstep + r * tile.w + s), v) ∈ preprocMain S (new net tta).tops p data q ↔
      q = tilePoint p ti c r s ∧ (tta = true ∨ ti = 0) ∧ v = normalise (preprocRead S p data q) := by
  intro p tile
  change (0 ≤ q.gx ∧ q.gx < p.outw) ∧ (0 ≤ q.gy ∧ q.gy < p.outh) ∧ 0 ≤ q.gz ∧ q.gz < p.channels at hq
  obtain ⟨htile_w, -, htile_cstep⟩ := inTile_sizes net tta machine S image yi xi ti
  have haddress : c * tile.cstep + r * tile.w + s = (symmetryOf ti).address (c * p.outcstep) p.outw p.outh
      (tilePoint p ti c r s).gy (tilePoint p ti c r s).gx := by
    dsimp only [tilePoint]
    rw [Symmetry.address_source, htile_cstep, htile_w]
  obtain ⟨hx, hy⟩ := tilePoint_mem (c := c) hr hs
  rw [mem_preprocMain_top, mem_tops, haddress]
  constructor
  · rintro ⟨-, -, ⟨hti, hcell⟩, hvalue⟩
    -- no other one stores there
    obtain ⟨hz, hqy, hqx⟩ := Symmetry.address_inj (machine.gpu.le_cstep p.outw p.outh) hy hx hq.2.1 hq.1
      hcell
    refine ⟨?_, hti, hvalue⟩
    obtain ⟨gx, gy, gz⟩ := q
    dsimp only at hz hqy hqx
    rw [hz, ← hqy, ← hqx]
    rfl
  · rintro ⟨rfl, hti, hvalue⟩
    exact ⟨⟨hx.2, hy.2, hq.2.2.2⟩, by show c ≠ 3; omega, ⟨hti, rfl⟩, hvalue⟩

/-- What an element of a tile image holds, if its channel is one of the image. -/
theorem inTile_data {ti : Fin 8} (hti : tta = true ∨ ti = 0) {c r s : Int} (hcolour : 0 ≤ c ∧ c < 3)
    (hchannel : c < image.c) (hr : 0 ≤ r ∧ r < ((new net tta).inTile machine S image yi xi ti).h)
    (hs : 0 ≤ s ∧ s < ((new net tta).inTile machine S image yi xi ti).w) :
    let p := (new net tta).preprocConstants machine S image yi xi
    let tile := (new net tta).inTile machine S image yi xi ti
    tile.data (c * tile.cstep + r * tile.w + s) =
      normalise (preprocRead S p ((new net tta).in_gpu machine S image yi).data (tilePoint p ti c r s)) := by
  intro p tile
  obtain ⟨hx, hy⟩ := tilePoint_mem (c := c) hr hs
  show dispatch (preprocMain S _ p _) (machine.run.order (grid p.outw p.outh p.channels)) _
    (.top ti, c * tile.cstep + r * tile.w + s) = _
  apply dispatch_of_mem (p := tilePoint p ti c r s)
  · rw [mem_order_grid machine.run.perm]
    exact ⟨hx, hy, hcolour.1, hchannel⟩
  · exact (mem_preprocMain_tile hcolour hr hs ⟨hx, hy, hcolour.1, hchannel⟩).mpr ⟨rfl, hti, rfl⟩
  · intro q hq v hv
    rw [mem_order_grid machine.run.perm] at hq
    obtain ⟨rfl, -, rfl⟩ := (mem_preprocMain_tile hcolour hr hs hq).mp hv
    rfl

variable (tta machine S bgr image yi xi) in
/-- If the network enlarges by four, the sizes of an enlarged tile image are those of the enlarged window under its
symmetry. -/
theorem enlarged_sizes (hw : ∀ f, (net.extract f).w = 4 * f.w) (hh : ∀ f, (net.extract f).h = 4 * f.h)
    (ti : Fin 8) :
    let f : Planes K := window bgr image yi xi
    let tile := (new net tta).outTile machine S image yi xi ti
    tile.w = (symmetryOf ti).width (4 * f.w) (4 * f.h) ∧
      tile.h = (symmetryOf ti).height (4 * f.w) (4 * f.h) ∧
      tile.cstep = machine.gpu.cstep (4 * f.w) (4 * f.h) := by
  intro f tile
  obtain ⟨htile_w, htile_h, -⟩ := inTile_sizes net tta machine S image yi xi ti
  have hout_w : tile.w = (symmetryOf ti).width (4 * f.w) (4 * f.h) := by
    rw [Symmetry.width_mul]
    exact (hw _).trans (congrArg (4 * ·) htile_w)
  have hout_h : tile.h = (symmetryOf ti).height (4 * f.w) (4 * f.h) := by
    rw [Symmetry.height_mul]
    exact (hh _).trans (congrArg (4 * ·) htile_h)
  refine ⟨hout_w, hout_h, ?_⟩
  show machine.gpu.cstep tile.w tile.h = _
  rw [hout_w, hout_h]
  exact Symmetry.apply_width_height machine.gpu.cstep_comm

/-- **A tile image is a window of the extended image**, under the symmetry of its number. -/
theorem inTile_same (hS : S.Lawful bgr) (hw : 10 < image.w) (hh : 10 < image.h)
    (hc : image.c = 3 ∨ image.c = 4) (hyi : yi * 200 < image.h) {ti : Fin 8}
    (hti : tta = true ∨ ti = 0) :
    ((new net tta).inTile machine S image yi xi ti).toPlanes.Same
      ((window bgr image yi xi).transform (symmetryOf ti)) := by
  obtain ⟨htile_w, htile_h, -⟩ := inTile_sizes net tta machine S image yi xi ti
  refine ⟨htile_w, htile_h, fun c r s hcolour hr hs => ?_⟩
  obtain ⟨hx, hy⟩ := tilePoint_mem (c := c) hr hs
  have hchannel : 0 ≤ c ∧ c < image.c := by omega
  exact (inTile_data hti hcolour hchannel.2 hr hs).trans
    (congrArg normalise (preprocRead_eq hS hw hh hc hyi hx hy hchannel))

/-- **The alpha image of a tile** shows the alpha channel. -/
theorem inAlphaTile_data (hS : S.Lawful bgr) (hw : 10 < image.w) (hh : 10 < image.h)
    (hc : image.c = 4) (hyi : yi * 200 < image.h) {y x : Int}
    (hy : 0 ≤ y ∧ y < ((new net tta).inAlphaTile machine S image yi xi).h)
    (hx : 0 ≤ x ∧ x < ((new net tta).inAlphaTile machine S image yi xi).w) :
    let tile := (new net tta).inAlphaTile machine S image yi xi
    tile.data (y * tile.w + x) = (alphaWindow image yi xi).data (y * tile.w + x) := by
  intro tile
  let p := (new net tta).preprocConstants machine S image yi xi
  have htile_w : tile.w = min (((xi : Int) + 1) * 200) image.w - xi * 200 := if_pos hc
  have htile_h : tile.h = min (((yi : Int) + 1) * 200) image.h - yi * 200 := if_pos hc
  change 0 ≤ y ∧ y < tile.h at hy
  change 0 ≤ x ∧ x < tile.w at hx
  have hpoint_x : 0 ≤ x + 10 ∧
      x + 10 < min (((xi : Int) + 1) * 200) image.w + 10 - (xi * 200 - 10) := by omega
  have hpoint_y : 0 ≤ y + 10 ∧
      y + 10 < min (((yi : Int) + 1) * 200) image.h + 10 - (yi * 200 - 10) := by omega
  have hchannel : (0 : Int) ≤ 3 ∧ 3 < image.c := by omega
  -- within the tile nothing is reflected
  have hread : preprocRead S p ((new net tta).in_gpu machine S image yi).data ⟨x + 10, y + 10, 3⟩ =
      (alphaWindow image yi xi).data (y * tile.w + x) := by
    refine (preprocRead_eq hS hw hh (.inr hc) hyi hpoint_x hpoint_y hchannel).trans ?_
    have hrow : (yi * 200 + (y + 10) - 10 : Int) = yi * 200 + y := by omega
    have hcolumn : (xi * 200 + (x + 10) - 10 : Int) = xi * 200 + x := by omega
    have hbyte : byteOf bgr 3 = 3 := if_neg (fun h => h.2 rfl)
    have hwidth : (0 : Int) < tile.w := by omega
    simp only [alphaWindow]
    rw [← htile_w, hrow, hcolumn, reflect_of_mem (by omega), reflect_of_mem (by omega), hbyte,
      Int.add_comm (y * tile.w), Int.add_mul_ediv_right _ _ (by omega), Int.ediv_eq_zero_of_lt hx.1 hx.2,
      Int.add_mul_emod_self_right, Int.emod_eq_of_lt hx.1 hx.2, Int.zero_add]
  show dispatch (preprocMain S _ p _) (machine.run.order (grid p.outw p.outh p.channels)) _
    (.alpha, y * tile.w + x) = _
  apply dispatch_of_mem (p := ⟨x + 10, y + 10, 3⟩)
  · rw [mem_order_grid machine.run.perm]
    exact ⟨hpoint_x, hpoint_y, hchannel⟩
  · rw [mem_preprocMain_alpha]
    have hx' : x + 10 - p.pad_left = x := Int.add_sub_cancel x 10
    have hy' : y + 10 - p.pad_top = y := Int.add_sub_cancel y 10
    dsimp only
    rw [hx', hy']
    exact ⟨⟨hpoint_x.2, hpoint_y.2, hchannel.2⟩, rfl, ⟨hx, hy⟩, rfl, hread.symm⟩
  · intro q hq v hv
    rw [mem_preprocMain_alpha] at hv
    obtain ⟨-, hz, ⟨hinside_x, hinside_y⟩, hcell, rfl⟩ := hv
    obtain ⟨hqy, hqx⟩ := mul_add_inj hx hinside_x hcell
    have hpoint : (⟨x + 10, y + 10, 3⟩ : GridPoint) = q := by
      rw [hqy, hqx, ← hz]
      show (⟨q.gx - 10 + 10, q.gy - 10 + 10, q.gz⟩ : GridPoint) = q
      rw [Int.sub_add_cancel, Int.sub_add_cancel]
    rw [← hpoint]
    exact hread

end FullProcessor

/-! ## The network on a tile -/

namespace FullProcessor

variable {K V : Type} [Field K] {net : TileNetwork K} {tta : Bool} {machine : Machine K V}
  {S : Storage K V} {bgr : Int} {image : ImageInfo} {yi xi : Nat}

variable (net tta machine S bgr image yi xi) in
/-- The sizes of an enlarged tile image are those of the enlarged window under its symmetry. -/
theorem outTile_sizes (ti : Fin 8) :
    let f : Planes K := window bgr image yi xi
    let tile := (new net.toNetwork tta).outTile machine S image yi xi ti
    tile.w = (symmetryOf ti).width (4 * f.w) (4 * f.h) ∧
      tile.h = (symmetryOf ti).height (4 * f.w) (4 * f.h) ∧
      tile.cstep = machine.gpu.cstep (4 * f.w) (4 * f.h) :=
  enlarged_sizes tta machine S bgr image yi xi net.extract_w net.extract_h ti

/-- What the postprocessing reads of a tile image: the value that the network gives for the window under
the symmetry of the tile image. -/
theorem outTile_data (hS : S.Lawful bgr) (hw : 10 < image.w) (hh : 10 < image.h)
    (hc : image.c = 3 ∨ image.c = 4) (hyi : yi * 200 < image.h) {ti : Fin 8}
    (hti : tta = true ∨ ti = 0) {c sy sx : Int} (hcolour : 0 ≤ c ∧ c < 3)
    (hsy : 0 ≤ sy ∧ sy < 4 * (window bgr image yi xi : Planes K).h)
    (hsx : 0 ≤ sx ∧ sx < 4 * (window bgr image yi xi : Planes K).w) :
    let f : Planes K := window bgr image yi xi
    let σ := symmetryOf ti
    let tile := (new net.toNetwork tta).outTile machine S image yi xi
    (tile ti).data (σ.address (c * (tile 0).cstep) (tile 0).w (tile 0).h sy sx) =
      (net.extract (f.transform σ)).value c (σ.row (4 * f.w) (4 * f.h) sy sx)
        (σ.column (4 * f.w) (4 * f.h) sy sx) := by
  intro f σ tile
  obtain ⟨h0_w, h0_h, h0_cstep⟩ := outTile_sizes net tta machine S bgr image yi xi 0
  obtain ⟨hti_w, hti_h, hti_cstep⟩ := outTile_sizes net tta machine S bgr image yi xi ti
  have hrow := Symmetry.row_mem (σ := σ) hsy hsx
  have hcolumn := Symmetry.column_mem (σ := σ) hsy hsx
  -- the shader knows the sizes of tile image 0 only
  have haddress : σ.address (c * (tile 0).cstep) (tile 0).w (tile 0).h sy sx =
      c * (tile ti).cstep + (σ.row (4 * f.w) (4 * f.h) sy sx * (tile ti).w +
        σ.column (4 * f.w) (4 * f.h) sy sx) := by
    rw [h0_w, h0_h, h0_cstep, hti_w, hti_cstep, ← Int.add_assoc]
    rfl
  have hin : ((new net.toNetwork tta).inTile machine S image yi xi ti).toPlanes.Same (f.transform σ) :=
    inTile_same hS hw hh hc hyi hti
  have hsame := net.extract_same _ _ hin
  rw [haddress]
  have hrow_tile := hrow.2.trans_eq hti_h.symm
  have hcolumn_tile := hcolumn.2.trans_eq hti_w.symm
  refine (VkMat.data_ofPlanes (machine.gpu.le_cstep _ _) ⟨hrow.1, hrow_tile⟩
    ⟨hcolumn.1, hcolumn_tile⟩).trans ?_
  exact hsame.value c _ _ hcolour ⟨hrow.1, hrow_tile⟩ ⟨hcolumn.1, hcolumn_tile⟩

/-- **The colour value of a point** is the one that the network gives for the window. -/
theorem colour_eq (hS : S.Lawful bgr) (hw : 10 < image.w) (hh : 10 < image.h)
    (hc : image.c = 3 ∨ image.c = 4) (hyi : yi * 200 < image.h) {out_gpu : VkMat V} {c y x : Int}
    (hcolour : 0 ≤ c ∧ c < 3)
    (hy : 0 ≤ y + 40 ∧ y + 40 < 4 * (window bgr image yi xi : Planes K).h)
    (hx : 0 ≤ x + 40 ∧ x + 40 < 4 * (window bgr image yi xi : Planes K).w) :
    (new net.toNetwork tta).colour
        ((new net.toNetwork tta).postprocConstants machine S image yi xi out_gpu)
        (fun ti => ((new net.toNetwork tta).outTile machine S image yi xi ti).data) c y x =
      windowColour net.toNetwork tta (window bgr image yi xi) c (y + 40) (x + 40) := by
  let f : Planes K := window bgr image yi xi
  let tile := (new net.toNetwork tta).outTile machine S image yi xi
  have hread : ∀ ti : Fin 8, (tta = true ∨ ti = 0) →
      (tile ti).data ((symmetryOf ti).address (c * (tile 0).cstep) (tile 0).w (tile 0).h (y + 40)
        (x + 40)) = _ :=
    fun ti hti => outTile_data hS hw hh hc hyi hti hcolour hy hx
  -- one tile as it is, or the mean of the eight turned ones
  cases tta with
  | false =>
      have hassoc : c * (tile 0).cstep + (y + 40) * (tile 0).w + x + 40 =
          (symmetryOf 0).address (c * (tile 0).cstep) (tile 0).w (tile 0).h (y + 40) (x + 40) :=
        Int.add_assoc _ _ _
      show (tile 0).data (c * (tile 0).cstep + (y + 40) * (tile 0).w + x + 40) = _
      rw [hassoc, hread 0 (.inr rfl)]
      rfl
  | true =>
      show mean ((postprocTtaBottoms _ c y x).map fun bottom => (tile bottom.1).data bottom.2) = _
      rw [postprocTtaBottoms_eq, List.map_map]
      exact congrArg mean (List.map_congr_left fun ti _ => hread ti (.inl rfl))

/-- What the postprocessing reads of the alpha channel. -/
theorem outAlphaTile_data (hS : S.Lawful bgr) (hw : 10 < image.w) (hh : 10 < image.h)
    (hc : image.c = 4) (hyi : yi * 200 < image.h) {y x : Int}
    (hy : 0 ≤ y ∧ y < 4 * (alphaWindow image yi xi : VkMat K).h)
    (hx : 0 ≤ x ∧ x < 4 * (alphaWindow image yi xi : VkMat K).w) :
    let alpha : VkMat K := alphaWindow image yi xi
    let tile := (new net.toNetwork tta).outAlphaTile machine S image yi xi
    tile.data (y * tile.w + x) = (machine.bicubic.forward 4 alpha).data (y * (4 * alpha.w) + x) := by
  intro alpha tile
  let input := (new net.toNetwork tta).inAlphaTile machine S image yi xi
  have htile : tile = machine.bicubic.forward 4 input := if_pos hc
  have hinput_w : input.w = alpha.w := if_pos hc
  have hinput_h : input.h = alpha.h := if_pos hc
  rw [htile, machine.bicubic.forward_w, ← hinput_w]
  apply machine.bicubic.forward_congr 4 input alpha hinput_w hinput_h
  · exact fun y x hy hx => inAlphaTile_data hS hw hh hc hyi hy hx
  · rw [hinput_h]
    exact hy
  · rw [hinput_w]
    exact hx

/-- **What a tile shows** depends on the image, the network and the enlarging of the alpha channel. -/
theorem tileValue_eq (hS : S.Lawful bgr) (hw : 10 < image.w) (hh : 10 < image.h)
    (hc : image.c = 3 ∨ image.c = 4) (hyi : yi * 200 < image.h) {c y x : Int}
    (hchannel : 0 ≤ c ∧ c < image.c)
    (hy : 0 ≤ y ∧ y < 4 * (min (((yi : Int) + 1) * 200) image.h - yi * 200))
    (hx : 0 ≤ x ∧ x < 4 * (min (((xi : Int) + 1) * 200) image.w - xi * 200)) :
    (new net.toNetwork tta).tileValue machine S image yi xi c y x =
      windowValue net.toNetwork machine.bicubic tta bgr image yi xi c y x := by
  unfold tileValue postprocValue windowValue
  by_cases hgz : c = 3
  · have hfour : image.c = 4 := by omega
    dsimp only
    rw [if_pos hgz, if_pos hgz]
    exact congrArg clip (outAlphaTile_data hS hw hh hfour hyi hy hx)
  · dsimp only
    rw [if_neg hgz, if_neg hgz]
    have hrow : 0 ≤ y + 40 ∧ y + 40 < 4 * (window bgr image yi xi : Planes K).h := by
      simp only [window]
      omega
    have hcolumn : 0 ≤ x + 40 ∧ x + 40 < 4 * (window bgr image yi xi : Planes K).w := by
      simp only [window]
      omega
    rw [colour_eq hS hw hh hc hyi (by omega) hrow hcolumn]

end FullProcessor

/-! ## The output -/

section

variable {K : Type} [Field K]

/-- The value at a place of the output, rounded when it is stored. -/
def placeValue (net : Network K) (bicubic : Bicubic K) (tta : Bool) (bgr : Int) (image : ImageInfo)
    (q : GridPoint) : K :=
  windowValue net bicubic tta bgr image (q.gy / 800).toNat (q.gx / 800).toNat q.gz (q.gy % 800)
    (q.gx % 800)

/-- A point of an enlarged tile. -/
structure TilePoint (image : ImageInfo) (yi xi : Nat) (c y x : Int) : Prop where
  channel : 0 ≤ c ∧ c < image.c
  row : 0 ≤ y ∧ y < 4 * (min (((yi : Int) + 1) * 200) image.h - yi * 200)
  column : 0 ≤ x ∧ x < 4 * (min (((xi : Int) + 1) * 200) image.w - xi * 200)

/-- The places of the output are the points of the tiles. -/
theorem forall_place {image : ImageInfo} {P : Nat → Nat → Int → Int → Int → Prop} :
    (∀ q, FullProcessor.InOutput image q →
        P (q.gy / 800).toNat (q.gx / 800).toNat q.gz (q.gy % 800) (q.gx % 800)) ↔
      ∀ yi xi c y x, TilePoint image yi xi c y x → P yi xi c y x := by
  constructor
  · rintro h yi xi c y x ⟨hc, hy, hx⟩
    have hplace : FullProcessor.InOutput image ⟨xi * 800 + x, yi * 800 + y, c⟩ :=
      ⟨hc, by dsimp only; omega, by dsimp only; omega⟩
    have htile_y : ((yi * 800 + y) / 800).toNat = yi := by omega
    have htile_x : ((xi * 800 + x) / 800).toNat = xi := by omega
    have hrow : (yi * 800 + y) % 800 = y := by omega
    have hcolumn : (xi * 800 + x) % 800 = x := by omega
    have hpoint := h _ hplace
    rwa [htile_y, htile_x, hrow, hcolumn] at hpoint
  · rintro h q ⟨hgz, hgy, hgx⟩
    exact h _ _ _ _ _ ⟨hgz, by omega, by omega⟩

namespace FullProcessor

variable {V : Type} {S : Storage K V} {bgr : Int} {image : ImageInfo}

/-- **Every byte of the output**: the value of its place, stored and fetched. -/
theorem process_image_place (net : TileNetwork K) (tta : Bool) (machine : Machine K V)
    (hS : S.Lawful bgr) (hw : 10 < image.w) (hh : 10 < image.h) (hc : image.c = 3 ∨ image.c = 4)
    {q : GridPoint} (hq : InOutput image q) :
    ((new net.toNetwork tta).process_image machine S image).2.1.data (outputAddress bgr image q) =
      S.fetch (S.store (placeValue net.toNetwork machine.bicubic tta bgr image q)) := by
  obtain ⟨hgz, hgy, hgx⟩ := hq
  rw [process_image_byte net.toNetwork tta machine hS hc ⟨hgz, hgy, hgx⟩]
  unfold outputByte outputValue placeValue
  rw [tileValue_eq hS hw hh hc (by omega) hgz (by omega) (by omega)]

end FullProcessor

end

end LimbWorker.Realesrgan
