import LimbWorker.Realesrgan.Tta

/-!
# What the network is given

The tile images always have three planes, but the preprocessing runs on as many as the image has channels.
With three or four channels every element of a tile image is written, with a value of the image; the
fourth channel goes to the alpha image. With one or two channels the planes beyond them keep what lay in
the memory of the device.
-/

namespace LimbWorker.Realesrgan

open Lib

section

variable {K V : Type} [Field K]

namespace FullProcessor

/-- A byte of the image: its place in `inimage.data`. -/
def InImage (image : ImageInfo) (i : Int) : Prop := 0 ≤ i ∧ i < image.w * image.h * image.c

/-- Element `a` of tile image `ti` has been written by the preprocessing, and holds a value that is taken from
the image. -/
def TakenFromImage (this : FullProcessor K) (machine : Machine K V) (S : Storage K V) (image : ImageInfo)
    (yi xi : Nat) (ti : Fin 8) (a : Int) : Prop :=
  let p := this.preprocConstants machine S image yi xi
  let in_gpu := this.in_gpu machine S image yi
  ∃ g ∈ grid p.outw p.outh p.channels, ∃ i, InImage image i ∧
    ((.top ti, a), normalise ((image.data i).toNat : K)) ∈ preprocMain S this.tops p in_gpu.data g ∧
    (this.inTile machine S image yi xi ti).data a = normalise ((image.data i).toNat : K)

/-- Every element of the three planes of every tile image that the network is run on is taken from the
image. -/
def InputTakenFromImage (this : FullProcessor K) (machine : Machine K V) (S : Storage K V)
    (image : ImageInfo) : Prop :=
  ∀ yi xi : Nat, yi < this.toRealesrganProcessor.ytiles image →
    xi < this.toRealesrganProcessor.xtiles image →
      ∀ ti : Fin 8, this.Runs ti →
        let tile := this.inTile machine S image yi xi ti
        ∀ c y x : Int, 0 ≤ c ∧ c < 3 → 0 ≤ y ∧ y < tile.h → 0 ≤ x ∧ x < tile.w →
          this.TakenFromImage machine S image yi xi ti (c * tile.cstep + y * tile.w + x)

variable {net : Network K} {tta : Bool} {machine : Machine K V} {S : Storage K V} {bgr : Int}
  {image : ImageInfo} {yi xi : Nat}

variable (net tta machine) in
/-- What a point of the preprocessing reads is a byte of the image. -/
theorem preprocRead_inImage (hS : S.Lawful bgr) (hw : 10 < image.w) (hh : 10 < image.h)
    (hc : image.c = 3 ∨ image.c = 4) (hyi : yi * 200 < image.h) {g : GridPoint}
    (hgx : 0 ≤ g.gx ∧ g.gx < min (((xi : Int) + 1) * 200) image.w + 10 - (xi * 200 - 10))
    (hgy : 0 ≤ g.gy ∧ g.gy < min (((yi : Int) + 1) * 200) image.h + 10 - (yi * 200 - 10))
    (hgz : 0 ≤ g.gz ∧ g.gz < image.c) :
    ∃ i, InImage image i ∧
      preprocRead S ((new net tta).preprocConstants machine S image yi xi)
        ((new net tta).in_gpu machine S image yi).data g = ((image.data i).toNat : K) := by
  refine ⟨_, ?_, preprocRead_eq hS hw hh hc hyi hgx hgy hgz⟩
  have hcolumn := RealesrganProcessor.reflect_column hw hgx
  rw [Int.add_comm g.gx] at hcolumn
  have hrow := RealesrganProcessor.reflect_row hh hyi hgy
  have hbyte := byteOf_mem bgr hc hgz
  apply (interleaved_mem_iff hcolumn hbyte).mpr
  -- the row of the band is a row of the image
  omega

/-- **With three or four channels everything is taken from the image.** -/
theorem inputTakenFromImage (hS : S.Lawful bgr) (hw : 10 < image.w) (hh : 10 < image.h)
    (hc : image.c = 3 ∨ image.c = 4) : (new net tta).InputTakenFromImage machine S image := by
  intro yi xi hyi _ ti hti tile c y x hcolour hy hx
  change (yi : Int) < (image.h + 200 - 1) / 200 at hyi
  change tta = true ∨ ti = 0 at hti
  have hchannel : 0 ≤ c ∧ c < image.c := by omega
  let p := (new net tta).preprocConstants machine S image yi xi
  let g := tilePoint p ti c y x
  obtain ⟨hgx, hgy⟩ := tilePoint_mem (c := c) hy hx
  obtain ⟨i, hi, hread⟩ := preprocRead_inImage net tta machine hS hw hh hc (by omega) hgx hgy hchannel
  refine ⟨g, mem_grid.mpr ⟨hgx, hgy, hchannel⟩, i, hi, ?_, ?_⟩
  · apply (mem_preprocMain_tile hcolour hy hx ⟨hgx, hgy, hchannel⟩).mpr
    exact ⟨rfl, hti, congrArg normalise hread.symm⟩
  · exact (inTile_data hti hcolour hchannel.2 hy hx).trans (congrArg normalise hread)

/-- **Nobody writes a plane beyond the channels of the image.** -/
theorem channel_of_takenFromImage {ti : Fin 8} {c y x : Int} (hcolour : 0 ≤ c ∧ c < 3)
    (hy : 0 ≤ y ∧ y < ((new net tta).inTile machine S image yi xi ti).h)
    (hx : 0 ≤ x ∧ x < ((new net tta).inTile machine S image yi xi ti).w)
    (h : let tile := (new net tta).inTile machine S image yi xi ti
      (new net tta).TakenFromImage machine S image yi xi ti (c * tile.cstep + y * tile.w + x)) :
    c < image.c := by
  obtain ⟨g, hg, i, -, hstore, -⟩ := h
  rw [mem_grid] at hg
  obtain ⟨rfl, -⟩ := (mem_preprocMain_tile hcolour hy hx hg).mp hstore
  exact hg.2.2.2

/-- The last plane of the first tile tells how many channels the image has. -/
theorem channels_of_inputTakenFromImage (hw : 1 ≤ image.w) (hh : 1 ≤ image.h)
    (h : (new net tta).InputTakenFromImage machine S image) : 2 < image.c := by
  have hytiles : ((0 : Nat) : Int) < (image.h + 200 - 1) / 200 := by omega
  have hxtiles : ((0 : Nat) : Int) < (image.w + 200 - 1) / 200 := by omega
  have htile_h : ((new net tta).inTile machine S image 0 0 0).h =
    min ((((0 : Nat) : Int) + 1) * 200) image.h + 10 - (((0 : Nat) : Int) * 200 - 10) := rfl
  have htile_w : ((new net tta).inTile machine S image 0 0 0).w =
    min ((((0 : Nat) : Int) + 1) * 200) image.w + 10 - (((0 : Nat) : Int) * 200 - 10) := rfl
  have hy : 0 ≤ (0 : Int) ∧ 0 < ((new net tta).inTile machine S image 0 0 0).h := by omega
  have hx : 0 ≤ (0 : Int) ∧ 0 < ((new net tta).inTile machine S image 0 0 0).w := by omega
  have hlast : 0 ≤ (2 : Int) ∧ (2 : Int) < 3 := by decide
  exact channel_of_takenFromImage hlast hy hx (h 0 0 hytiles hxtiles 0 (.inr rfl) 2 0 0 hlast hy hx)

/-- The condition, in either storage mode. -/
theorem inputTakenFromImage_iff (hS : S.Lawful bgr) (hw : 10 < image.w) (hh : 10 < image.h)
    (hc : 1 ≤ image.c ∧ image.c ≤ 4) :
    (new net tta).InputTakenFromImage machine S image ↔ image.c = 3 ∨ image.c = 4 := by
  refine ⟨fun h => ?_, inputTakenFromImage hS hw hh⟩
  have hchannels := channels_of_inputTakenFromImage (by omega) (by omega) h
  omega

variable [LinearOrder K] [FloorRing K]

/-- **When the network sees the image and nothing else**: in both storage modes, with and without TTA, just
when the image has three or four channels. -/
theorem network_input_iff (net : Network K) (tta : Bool) (gpu : Gpu K) (bicubic : Bicubic K) (bgr : Int)
    (image : ImageInfo) (hw : 10 < image.w) (hh : 10 < image.h) (hc : 1 ≤ image.c ∧ image.c ≤ 4) :
    (∀ run : Schedule K UInt8, (new net tta).InputTakenFromImage ⟨gpu, bicubic, run⟩
        (.int8 gpu.uint bgr) image ↔ image.c = 3 ∨ image.c = 4) ∧
      ∀ run : Schedule K K, (new net tta).InputTakenFromImage ⟨gpu, bicubic, run⟩
        (.float gpu.bandCstep bgr) image ↔ image.c = 3 ∨ image.c = 4 :=
  ⟨fun _ => inputTakenFromImage_iff (Storage.lawful_int8 gpu.uint bgr) hw hh hc,
    fun _ => inputTakenFromImage_iff (Storage.lawful_float gpu.le_bandCstep bgr) hw hh hc⟩

/-- A black image of eleven by eleven pixels. -/
def black (c : Int) : ImageInfo := ⟨11, 11, c, fun _ => 0⟩

/-- Of a greyscale image, the last plane is not written in either mode. -/
theorem grey_not_taken :
    ¬ (new nearest.toNetwork false).InputTakenFromImage ⟨packedGpu, blackBicubic, plainSchedule 0⟩
        (.int8 packedGpu.uint 0) (black 1) ∧
      ¬ (new nearest.toNetwork false).InputTakenFromImage ⟨packedGpu, blackBicubic, plainSchedule 0⟩
        (.float packedGpu.bandCstep 0) (black 1) := by
  constructor
  · intro h
    exact absurd (channels_of_inputTakenFromImage (by decide) (by decide) h) (by decide)
  · intro h
    exact absurd (channels_of_inputTakenFromImage (by decide) (by decide) h) (by decide)

/-- One with an alpha channel is taken as it is. -/
theorem alpha_taken_iff :
    (new nearest.toNetwork true).InputTakenFromImage ⟨packedGpu, blackBicubic, plainSchedule 0⟩
        (.float packedGpu.bandCstep 0) (black 4) ↔ (4 : Int) = 3 ∨ (4 : Int) = 4 :=
  (network_input_iff nearest.toNetwork true packedGpu blackBicubic 0 (black 4) (by decide) (by decide)
    (by decide)).2 (plainSchedule 0)

end FullProcessor

end

end LimbWorker.Realesrgan
