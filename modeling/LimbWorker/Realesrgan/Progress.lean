import LimbWorker.Realesrgan.Tta
import Mathlib.Algebra.Order.Field.Basic
import Mathlib.Algebra.Order.Floor.Ring
import Mathlib.Tactic.Linarith

/-!
# What `process_image` reports

The progress callback is called before the first tile and after every tile, and each value goes to the client as a text
with two decimals. Over the two loops the values are all `k / tiles`, in order; the texts never go back, from `0.00` to
`1.00`.
-/

namespace LimbWorker.Realesrgan

/-! ## Two nested loops -/

/-- Rows, one after another, are one row. -/
theorem flatMap_range_range {α : Type} (f : Nat → α) (m n : Nat) :
    ((List.range m).flatMap fun i => (List.range n).map fun j => f (i * n + j)) = (List.range (m * n)).map f := by
  induction m with
  | zero => rw [Nat.zero_mul]; rfl
  | succ m ih =>
      rw [List.range_succ, List.flatMap_append, ih, List.flatMap_singleton, Nat.succ_mul, List.range_add,
        List.map_append, List.map_map]
      rfl

/-! ## Two decimals -/

section Decimals

variable {K : Type} [Field K] [LinearOrder K] [IsStrictOrderedRing K] [FloorRing K]

/-- The hundredths nearest to a value, and the even number of them if two are as near: the rest is less than a half, or
it is a half. -/
def hundredths (value : K) : Int :=
  let scaled := ((100 : Nat) : K) * value
  let rest := scaled - ⌊scaled⌋
  if rest + rest < 1 ∨ rest + rest = 1 ∧ ⌊scaled⌋ % 2 = 0 then ⌊scaled⌋ else ⌊scaled⌋ + 1

/-- `std::format("{:.2f}", value)`, for a value that is not negative. -/
def format (value : K) : String :=
  let digits := (hundredths value).toNat
  toString (digits / 100) ++ "." ++ toString (digits / 10 % 10) ++ toString (digits % 10)

omit [IsStrictOrderedRing K] in
/-- Rounding is down or up. -/
theorem hundredths_mem (value : K) :
    ⌊((100 : Nat) : K) * value⌋ ≤ hundredths value ∧ hundredths value ≤ ⌊((100 : Nat) : K) * value⌋ + 1 := by
  unfold hundredths
  dsimp only
  split <;> omega

/-- **Rounding is monotone**. -/
theorem hundredths_mono {a b : K} (h : a ≤ b) : hundredths a ≤ hundredths b := by
  have hscale : ((100 : Nat) : K) * a ≤ ((100 : Nat) : K) * b := mul_le_mul_of_nonneg_left h (Nat.cast_nonneg _)
  have ha := hundredths_mem a
  have hb := hundredths_mem b
  rcases lt_or_eq_of_le (Int.floor_le_floor hscale) with hlt | heq
  · omega
  · -- the same whole part, and not less of the rest
    unfold hundredths
    dsimp only
    generalize ((100 : Nat) : K) * a = x at hscale heq
    generalize ((100 : Nat) : K) * b = y at hscale heq
    rw [heq]
    split
    · split <;> omega
    · next hup =>
      rw [if_neg]
      rintro (hb | ⟨hb, heven⟩)
      · exact hup (.inl (by linarith))
      · have hle : x - (⌊y⌋ : K) + (x - ⌊y⌋) ≤ 1 := by linarith
        rcases lt_or_eq_of_le hle with hless | hsame
        · exact hup (.inl hless)
        · exact hup (.inr ⟨hsame, heven⟩)

/-- Whole numbers are not rounded. -/
theorem hundredths_natCast (n : Nat) : hundredths (n : K) = ((100 * n : Nat) : Int) := by
  unfold hundredths
  dsimp only
  rw [← Nat.cast_mul, Int.floor_natCast, Int.cast_natCast, sub_self, add_zero]
  exact if_pos (.inl zero_lt_one)

theorem format_zero : format (0 : K) = "0.00" := by
  have h := hundredths_natCast (K := K) 0
  rw [Nat.cast_zero] at h
  rw [format, h]
  rfl

theorem format_one : format (1 : K) = "1.00" := by
  have h := hundredths_natCast (K := K) 1
  rw [Nat.cast_one] at h
  rw [format, h]
  rfl

end Decimals

/-! ## The values and the texts -/

namespace FullProcessor

variable {K V : Type} [Field K]

/-- The values of the two loops, in one. -/
theorem progress_loops (xtiles ytiles : Int) :
    (0 :: (List.range ytiles.toNat).flatMap fun (yi : Nat) => (List.range xtiles.toNat).map fun (xi : Nat) =>
        (((yi * xtiles + (xi + 1) : Int) : K) / ((ytiles * xtiles : Int) : K))) =
      (List.range (ytiles.toNat * xtiles.toNat + 1)).map fun (k : Nat) =>
        (k : K) / ((ytiles.toNat * xtiles.toNat : Nat) : K) := by
  rw [List.range_succ_eq_map, List.map_cons, Nat.cast_zero, zero_div, List.map_map,
    ← flatMap_range_range _ ytiles.toNat xtiles.toNat]
  refine congrArg _ (List.flatMap_congr fun yi hyi => List.map_congr_left fun xi hxi => ?_)
  -- a loop that runs has a bound that is not negative
  have hcast : ∀ {n : Int} {i : Nat}, i ∈ List.range n.toNat → (n : K) = (n.toNat : K) := by
    intro n i hi
    have hlt := List.mem_range.mp hi
    have hn : (n.toNat : Int) = n := Int.toNat_of_nonneg (by omega)
    rw [← Int.cast_natCast, hn]
  rw [Function.comp_apply]
  push_cast
  rw [hcast hyi, hcast hxi, add_assoc]

variable [LinearOrder K] [IsStrictOrderedRing K] [FloorRing K]

omit [FloorRing K] in
/-- Equal parts grow. -/
theorem pairwise_parts (tiles : Nat) :
    ((List.range (tiles + 1)).map fun (k : Nat) => (k : K) / (tiles : K)).Pairwise (· < ·) := by
  rw [List.pairwise_map]
  refine List.pairwise_lt_range.imp_of_mem fun {j k} _ hk hjk => ?_
  have hpos : 0 < tiles := by
    have := List.mem_range.mp hk
    omega
  exact div_lt_div_of_pos_right (Nat.cast_lt.mpr hjk) (Nat.cast_pos.mpr hpos)

/-- **Progress is reported truly**: for every picture, and in every mode, the values are the parts of the tiles that are
done, one value more than there are tiles, which cover the picture in rows and columns of 200 pixels; they grow, and as
texts they never go back, from `0.00` to `1.00`. -/
theorem progress_reported (net : Network K) (tta_mode : Bool) (machine : Machine K V) (S : Storage K V)
    (inimage : ImageInfo) :
    let this := new net tta_mode
    let tiles := (this.ytiles inimage).toNat * (this.xtiles inimage).toNat
    let reported := (this.process_image machine S inimage).2.2
    tiles = (inimage.h.toNat + 199) / 200 * ((inimage.w.toNat + 199) / 200) ∧
      (0 < tiles ↔ 0 < inimage.w ∧ 0 < inimage.h) ∧
      reported = (List.range (tiles + 1)).map (fun (k : Nat) => (k : K) / (tiles : K)) ∧
      reported.Pairwise (· < ·) ∧
      (reported.map hundredths).Pairwise (· ≤ ·) ∧
      (reported.map format).head? = some "0.00" ∧
      (reported.map format).getLast? = some (if tiles = 0 then "0.00" else "1.00") := by
  intro this tiles reported
  have hprogress : reported = (List.range (tiles + 1)).map fun (k : Nat) => (k : K) / (tiles : K) :=
    progress_loops (this.xtiles inimage) (this.ytiles inimage)
  have hgrow := pairwise_parts (K := K) tiles
  have hx : this.xtiles inimage = (inimage.w + 200 - 1) / 200 := rfl
  have hy : this.ytiles inimage = (inimage.h + 200 - 1) / 200 := rfl
  have hcount : tiles = (inimage.h.toNat + 199) / 200 * ((inimage.w.toNat + 199) / 200) := by
    show (this.ytiles inimage).toNat * (this.xtiles inimage).toNat = _
    rw [hx, hy]
    congr 1 <;> omega
  have htiles : 0 < tiles ↔ 0 < inimage.w ∧ 0 < inimage.h := by
    rw [hcount, Nat.pos_iff_ne_zero, Nat.mul_ne_zero_iff]
    omega
  refine ⟨hcount, htiles, hprogress, hprogress ▸ hgrow, ?_, ?_, ?_⟩
  · -- rounding to hundredths keeps the order, but not that it is strict
    rw [hprogress]
    exact hgrow.map _ fun a b hab => hundredths_mono hab.le
  · rw [hprogress, List.range_succ_eq_map, List.map_cons, List.map_cons, List.head?_cons, Nat.cast_zero, zero_div,
      format_zero]
  · rw [hprogress, List.range_succ, List.map_append, List.map_append, List.map_singleton, List.map_singleton,
      List.getLast?_concat]
    -- without tiles only the 0 before the loops is reported
    split
    · next hzero => rw [hzero, Nat.cast_zero, zero_div, format_zero]
    · next hne => rw [div_self (Nat.cast_ne_zero.mpr hne), format_one]

/-- Two tiles in a row: nothing, one half, all. -/
theorem progress_reported_nearest :
    ((new nearest.toNetwork true).process_image ⟨packedGpu, blackBicubic, plainSchedule 0⟩
      (Storage.int8 packedGpu.uint 1) ⟨205, 11, 3, fun _ => 0⟩).2.2 = [0, 1 / 2, 1] := by
  obtain ⟨hcount, -, hreported, -⟩ := progress_reported nearest.toNetwork true
    ⟨packedGpu, blackBicubic, plainSchedule 0⟩ (Storage.int8 packedGpu.uint 1) ⟨205, 11, 3, fun _ => 0⟩
  rw [hreported, hcount.trans (show _ = 2 from rfl)]
  norm_num [List.range_succ]

end FullProcessor

end LimbWorker.Realesrgan
