import LimbWorker.Lib.Raster

/-!
# The symmetries of a rectangle

A symmetry of a rectangular grid flips either axis, or both, and may then exchange the axes; there are
eight of them. It takes the point in row `y` and column `x` of a grid of `w` columns and `h` rows to the
point in row `row w h y x` and column `column w h y x` of a grid of `width w h` columns and
`height w h` rows. The way back is `sourceRow` and `sourceColumn`.

Enlarging the grid by `k` enlarges every point to a square, and the symmetries take squares to squares
(`row_ediv`, `column_ediv`).
-/

namespace LimbWorker.Lib

/-- A symmetry of rectangular grids. -/
structure Symmetry where
  transpose : Bool
  flipX : Bool
  flipY : Bool
  deriving DecidableEq, Repr

namespace Symmetry

/-- Position `t` of `n`, counted from the other end. -/
def flip (f : Bool) (n t : Int) : Int := if f then n - 1 - t else t

theorem flip_flip (f : Bool) (n t : Int) : flip f n (flip f n t) = t := by
  unfold flip
  split <;> omega

theorem flip_mem (f : Bool) {n t : Int} (h : 0 ≤ t ∧ t < n) : 0 ≤ flip f n t ∧ flip f n t < n := by
  unfold flip
  split <;> omega

variable (σ : Symmetry)

def width (w h : Int) : Int := if σ.transpose then h else w

def height (w h : Int) : Int := if σ.transpose then w else h

def row (w h y x : Int) : Int := if σ.transpose then flip σ.flipX w x else flip σ.flipY h y

def column (w h y x : Int) : Int := if σ.transpose then flip σ.flipY h y else flip σ.flipX w x

/-- The row of the point that goes to row `r` and column `s`. -/
def sourceRow (_w h r s : Int) : Int := flip σ.flipY h (if σ.transpose then s else r)

/-- The column of the point that goes to row `r` and column `s`. -/
def sourceColumn (w _h r s : Int) : Int := flip σ.flipX w (if σ.transpose then r else s)

/-- The row-major address of the point that `y` and `x` go to, in a plane that begins at `plane`. -/
def address (plane w h y x : Int) : Int :=
  plane + σ.row w h y x * σ.width w h + σ.column w h y x

variable {σ} {w h y x r s : Int}

theorem sourceRow_row : σ.sourceRow w h (σ.row w h y x) (σ.column w h y x) = y := by
  unfold sourceRow row column
  split <;> exact flip_flip _ _ _

theorem sourceColumn_column : σ.sourceColumn w h (σ.row w h y x) (σ.column w h y x) = x := by
  unfold sourceColumn row column
  split <;> exact flip_flip _ _ _

theorem row_source : σ.row w h (σ.sourceRow w h r s) (σ.sourceColumn w h r s) = r := by
  unfold sourceRow sourceColumn row
  split <;> exact flip_flip _ _ _

theorem column_source : σ.column w h (σ.sourceRow w h r s) (σ.sourceColumn w h r s) = s := by
  unfold sourceRow sourceColumn column
  split <;> exact flip_flip _ _ _

theorem row_mem (hy : 0 ≤ y ∧ y < h) (hx : 0 ≤ x ∧ x < w) :
    0 ≤ σ.row w h y x ∧ σ.row w h y x < σ.height w h := by
  unfold row height
  split
  · exact flip_mem _ hx
  · exact flip_mem _ hy

theorem column_mem (hy : 0 ≤ y ∧ y < h) (hx : 0 ≤ x ∧ x < w) :
    0 ≤ σ.column w h y x ∧ σ.column w h y x < σ.width w h := by
  unfold column width
  split
  · exact flip_mem _ hy
  · exact flip_mem _ hx

theorem sourceRow_mem (hr : 0 ≤ r ∧ r < σ.height w h) (hs : 0 ≤ s ∧ s < σ.width w h) :
    0 ≤ σ.sourceRow w h r s ∧ σ.sourceRow w h r s < h := by
  unfold sourceRow
  unfold height at hr
  unfold width at hs
  split
  · next ht => exact flip_mem _ (by simpa [ht] using hs)
  · next ht => exact flip_mem _ (by simpa [ht] using hr)

theorem sourceColumn_mem (hr : 0 ≤ r ∧ r < σ.height w h) (hs : 0 ≤ s ∧ s < σ.width w h) :
    0 ≤ σ.sourceColumn w h r s ∧ σ.sourceColumn w h r s < w := by
  unfold sourceColumn
  unfold height at hr
  unfold width at hs
  split
  · next ht => exact flip_mem _ (by simpa [ht] using hr)
  · next ht => exact flip_mem _ (by simpa [ht] using hs)

/-! ## Addresses -/

theorem width_mul_height : σ.width w h * σ.height w h = w * h := by
  unfold width height
  split
  · exact Int.mul_comm h w
  · rfl

/-- A symmetric function of the sides is one of the sides under a symmetry. -/
theorem apply_width_height {α : Type*} {f : Int → Int → α} (hf : ∀ w h, f w h = f h w) :
    f (σ.width w h) (σ.height w h) = f w h := by
  unfold width height
  split
  · exact hf h w
  · rfl

/-- The address of a point lies in its plane. -/
theorem address_mem (plane : Int) (hy : 0 ≤ y ∧ y < h) (hx : 0 ≤ x ∧ x < w) :
    0 ≤ σ.address plane w h y x - plane ∧ σ.address plane w h y x - plane < w * h := by
  have hcolumn := column_mem (σ := σ) hy hx
  have hrow := row_mem (σ := σ) hy hx
  have hoffset : σ.address plane w h y x - plane =
      σ.row w h y x * σ.width w h + σ.column w h y x := by
    unfold address
    omega
  have hsize : w * h = σ.height w h * σ.width w h := width_mul_height.symm.trans (Int.mul_comm _ _)
  rw [hoffset, hsize, mul_add_nonneg_iff hcolumn, mul_add_lt_iff hcolumn]
  exact hrow

/-- In planes that are `n` apart, the address of a point tells the plane and the point. -/
theorem address_inj {n a a' y' x' : Int} (hn : w * h ≤ n) (hy : 0 ≤ y ∧ y < h) (hx : 0 ≤ x ∧ x < w)
    (hy' : 0 ≤ y' ∧ y' < h) (hx' : 0 ≤ x' ∧ x' < w)
    (heq : σ.address (a * n) w h y x = σ.address (a' * n) w h y' x') : a = a' ∧ y = y' ∧ x = x' := by
  have hrange : ∀ y x : Int, 0 ≤ y ∧ y < h → 0 ≤ x ∧ x < w →
      0 ≤ σ.row w h y x * σ.width w h + σ.column w h y x ∧
        σ.row w h y x * σ.width w h + σ.column w h y x < n := by
    intro y x hy hx
    have hplane := address_mem (σ := σ) 0 hy hx
    unfold address at hplane
    omega
  unfold address at heq
  rw [Int.add_assoc, Int.add_assoc] at heq
  obtain ⟨hplane, hoffset⟩ := mul_add_inj (hrange y x hy hx) (hrange y' x' hy' hx') heq
  obtain ⟨hrow, hcolumn⟩ := mul_add_inj (column_mem hy hx) (column_mem hy' hx') hoffset
  refine ⟨hplane, ?_, ?_⟩
  · rw [← sourceRow_row (σ := σ) (w := w) (h := h) (y := y) (x := x), hrow, hcolumn, sourceRow_row]
  · rw [← sourceColumn_column (σ := σ) (w := w) (h := h) (y := y) (x := x), hrow, hcolumn,
      sourceColumn_column]

/-- The address that a point of the image under a symmetry has. -/
theorem address_source (plane : Int) :
    σ.address plane w h (σ.sourceRow w h r s) (σ.sourceColumn w h r s) =
      plane + r * σ.width w h + s := by
  unfold address
  rw [row_source, column_source]

/-! ## Enlarging -/

variable {k : Int}

theorem flip_ediv (f : Bool) {k : Int} (hk : 0 < k) (n t : Int) :
    flip f (k * n) t / k = flip f n (t / k) := by
  unfold flip
  split
  · have hrest : 0 ≤ k - 1 - t % k ∧ k - 1 - t % k < k := by
      have hnonneg := Int.emod_nonneg t (by omega : k ≠ 0)
      have hlt := Int.emod_lt_of_pos t hk
      omega
    -- counted from the other end, a place of a square is counted from its other end too
    have hflip : k * n - 1 - t = (k - 1 - t % k) + k * (n - 1 - t / k) := by
      have hsplit := Int.mul_ediv_add_emod t k
      rw [Int.mul_sub, Int.mul_sub]
      omega
    rw [hflip, Int.add_mul_ediv_left _ _ (by omega), Int.ediv_eq_zero_of_lt hrest.1 hrest.2,
      Int.zero_add]
  · rfl

theorem row_ediv (hk : 0 < k) : σ.row (k * w) (k * h) y x / k = σ.row w h (y / k) (x / k) := by
  unfold row
  split <;> exact flip_ediv _ hk _ _

theorem column_ediv (hk : 0 < k) :
    σ.column (k * w) (k * h) y x / k = σ.column w h (y / k) (x / k) := by
  unfold column
  split <;> exact flip_ediv _ hk _ _

theorem sourceRow_ediv (hk : 0 < k) :
    σ.sourceRow (k * w) (k * h) r s / k = σ.sourceRow w h (r / k) (s / k) := by
  unfold sourceRow
  rw [flip_ediv _ hk]
  split <;> rfl

theorem sourceColumn_ediv (hk : 0 < k) :
    σ.sourceColumn (k * w) (k * h) r s / k = σ.sourceColumn w h (r / k) (s / k) := by
  unfold sourceColumn
  rw [flip_ediv _ hk]
  split <;> rfl

theorem width_mul : σ.width (k * w) (k * h) = k * σ.width w h := by
  unfold width
  split <;> rfl

theorem height_mul : σ.height (k * w) (k * h) = k * σ.height w h := by
  unfold height
  split <;> rfl

end Symmetry

end LimbWorker.Lib
