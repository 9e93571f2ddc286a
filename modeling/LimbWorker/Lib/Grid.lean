import Mathlib.Data.List.Nodup
import Mathlib.Data.List.Perm.Basic
import Mathlib.Logic.Function.Basic

/-!
# Running a program once for every point of a grid

A *store* is an address with the value that is written there. A grid program gives the stores of each
point, and a dispatch performs those of all points, one point after another, in whatever order the
points come. What an address holds afterwards can be told without the order: the value that is written
there, if all writers of the address agree, and its old value if there is none.
-/

namespace LimbWorker.Lib

universe u v w

variable {ι : Type u} {A : Type v} {V : Type w} [DecidableEq A]

/-- Perform stores one after another. -/
def writes (stores : List (A × V)) (m : A → V) : A → V :=
  stores.foldl (fun m s => Function.update m s.1 s.2) m

/-- Perform the stores of all points, in the order in which the points are listed. -/
def dispatch (main : ι → List (A × V)) (points : List ι) (m : A → V) : A → V :=
  writes (points.flatMap main) m

variable {stores : List (A × V)} {m : A → V} {a : A} {v : V} {main : ι → List (A × V)}
  {points : List ι}

/-! ## Stores -/

/-- An address keeps its value when only that value is written there. -/
theorem writes_of_agree (hm : m a = v) (hagree : ∀ v', (a, v') ∈ stores → v' = v) :
    writes stores m a = v := by
  induction stores generalizing m with
  | nil => exact hm
  | cons s stores ih =>
      apply ih
      · obtain ⟨b, v'⟩ := s
        by_cases hb : a = b
        · subst hb
          simpa using hagree v' List.mem_cons_self
        · simpa [Function.update_of_ne hb] using hm
      · exact fun v' hv' => hagree v' (List.mem_cons_of_mem s hv')

/-- An address that is written holds the value on which its writers agree. -/
theorem writes_of_mem (hmem : (a, v) ∈ stores) (hagree : ∀ v', (a, v') ∈ stores → v' = v) :
    writes stores m a = v := by
  induction stores generalizing m with
  | nil => cases hmem
  | cons s stores ih =>
      have hrest : ∀ v', (a, v') ∈ stores → v' = v := fun v' hv' =>
        hagree v' (List.mem_cons_of_mem s hv')
      rcases List.mem_cons.mp hmem with rfl | htail
      · -- the first store writes the value, and no later one changes it
        apply writes_of_agree _ hrest
        exact Function.update_self a v m
      · exact ih htail hrest

/-- An address that is not written keeps its value. -/
theorem writes_of_not_mem (hnone : ∀ v, (a, v) ∉ stores) : writes stores m a = m a :=
  writes_of_agree rfl fun v' hv' => absurd hv' (hnone v')

/-- Stores under other addresses: what is found there is what the stores leave. -/
theorem writes_map {B : Type*} [DecidableEq B] {e : A → B} (he : Function.Injective e)
    (stores : List (A × V)) (m : B → V) (a : A) :
    writes (stores.map fun s => (e s.1, s.2)) m (e a) = writes stores (fun a => m (e a)) a := by
  induction stores generalizing m with
  | nil => rfl
  | cons s stores ih =>
      rw [List.map_cons]
      show writes (stores.map _) (Function.update m (e s.1) s.2) (e a) = writes stores _ a
      rw [ih]
      congr 1
      funext b
      exact Function.update_apply_of_injective m he s.1 s.2 b

/-! ## Dispatches -/

/-- **The write rule**: the address of a point's store holds its value, if every point that stores
there stores the same. -/
theorem dispatch_of_mem {p : ι} (hp : p ∈ points) (hmain : (a, v) ∈ main p)
    (hagree : ∀ q ∈ points, ∀ v', (a, v') ∈ main q → v' = v) : dispatch main points m a = v := by
  apply writes_of_mem
  · exact List.mem_flatMap.mpr ⟨p, hp, hmain⟩
  · intro v' hv'
    obtain ⟨q, hq, hqv⟩ := List.mem_flatMap.mp hv'
    exact hagree q hq v' hqv

/-- **The frame rule**: an address at which no point stores is unchanged. -/
theorem dispatch_of_not_mem (hnone : ∀ q ∈ points, ∀ v, (a, v) ∉ main q) :
    dispatch main points m a = m a := by
  apply writes_of_not_mem
  intro v hv
  obtain ⟨q, hq, hqv⟩ := List.mem_flatMap.mp hv
  exact hnone q hq v hqv

/-- A dispatch under other addresses. -/
theorem dispatch_map {B : Type*} [DecidableEq B] {e : A → B} (he : Function.Injective e)
    {main' : ι → List (B × V)} (hmain : ∀ p, main' p = (main p).map fun s => (e s.1, s.2))
    (points : List ι) (m : B → V) (a : A) :
    dispatch main' points m (e a) = dispatch main points (fun a => m (e a)) a := by
  have hstores : points.flatMap main' = (points.flatMap main).map fun s => (e s.1, s.2) := by
    rw [List.map_flatMap]
    exact congrArg (fun f => points.flatMap f) (funext hmain)
  unfold dispatch
  rw [hstores]
  exact writes_map he _ _ _

/-! ## Filling in parts -/

/-- **The fill rule**: a state is filled part by part. If step `i` gives the places that it owns their
value and leaves the other places alone, then after `n` steps all places of the first `n` steps have it. -/
theorem foldl_range_fill {σ P W : Type*} {step : σ → Nat → σ} {I : σ → Prop} {Valid : P → Prop}
    (read : σ → P → W) (owner : P → Nat) (value : P → W) {n : Nat}
    (hI : ∀ s i, I s → I (step s i))
    (hown : ∀ s i p, i < n → I s → Valid p → owner p = i → read (step s i) p = value p)
    (hother : ∀ s i p, i < n → I s → Valid p → owner p ≠ i → read (step s i) p = read s p)
    {s : σ} (hs : I s) :
    I ((List.range n).foldl step s) ∧
      ∀ p, Valid p → owner p < n → read ((List.range n).foldl step s) p = value p := by
  have hpart : ∀ k ≤ n, I ((List.range k).foldl step s) ∧
      ∀ p, Valid p → owner p < k → read ((List.range k).foldl step s) p = value p := by
    intro k hk
    induction k with
    | zero => exact ⟨hs, fun p _ hlt => absurd hlt (Nat.not_lt_zero _)⟩
    | succ k ih =>
        obtain ⟨hI', hread⟩ := ih (by omega)
        rw [List.range_succ, List.foldl_append]
        refine ⟨hI _ k hI', fun p hp hlt => ?_⟩
        by_cases howner : owner p = k
        · exact hown _ k p hk hI' hp howner
        · exact (hother _ k p hk hI' hp howner).trans (hread p hp (by omega))
  exact hpart n (Nat.le_refl n)

/-! ## Grids -/

/-- A point of a three-dimensional grid. -/
structure GridPoint where
  gx : Int
  gy : Int
  gz : Int
  deriving DecidableEq, Repr

/-- The points of a grid, row by row. -/
def grid (w h c : Int) : List GridPoint :=
  (List.range c.toNat).flatMap fun (z : Nat) => (List.range h.toNat).flatMap fun (y : Nat) =>
    (List.range w.toNat).map fun (x : Nat) => ⟨x, y, z⟩

theorem mem_grid {w h c : Int} {p : GridPoint} :
    p ∈ grid w h c ↔ (0 ≤ p.gx ∧ p.gx < w) ∧ (0 ≤ p.gy ∧ p.gy < h) ∧ 0 ≤ p.gz ∧ p.gz < c := by
  obtain ⟨gx, gy, gz⟩ := p
  simp only [grid, List.mem_flatMap, List.mem_map, List.mem_range, GridPoint.mk.injEq]
  constructor
  · rintro ⟨z, hz, y, hy, x, hx, rfl, rfl, rfl⟩
    omega
  · rintro ⟨hx, hy, hz⟩
    exact ⟨gz.toNat, by omega, gy.toNat, by omega, gx.toNat, by omega, by omega, by omega, by omega⟩

/-- No point is listed twice. -/
theorem nodup_grid (w h c : Int) : (grid w h c).Nodup := by
  refine List.nodup_flatMap.mpr ⟨fun z _ => ?_, List.nodup_range.imp fun hne p hp hq => hne ?_⟩
  · refine List.nodup_flatMap.mpr ⟨fun y _ => ?_, List.nodup_range.imp fun hne p hp hq => hne ?_⟩
    · exact List.nodup_range.map fun x x' heq => Int.ofNat_inj.mp (congrArg GridPoint.gx heq)
    · obtain ⟨x, -, rfl⟩ := List.mem_map.mp hp
      obtain ⟨x', -, heq⟩ := List.mem_map.mp hq
      exact Int.ofNat_inj.mp (congrArg GridPoint.gy heq).symm
  · obtain ⟨y, -, hp⟩ := List.mem_flatMap.mp hp
    obtain ⟨y', -, hq⟩ := List.mem_flatMap.mp hq
    obtain ⟨x, -, rfl⟩ := List.mem_map.mp hp
    obtain ⟨x', -, heq⟩ := List.mem_map.mp hq
    exact Int.ofNat_inj.mp (congrArg GridPoint.gz heq).symm

/-- The points that a dispatch runs, in whatever order. -/
theorem mem_order_grid {order : List GridPoint → List GridPoint}
    (perm : ∀ points, (order points).Perm points) {w h c : Int} {p : GridPoint} :
    p ∈ order (grid w h c) ↔
      (0 ≤ p.gx ∧ p.gx < w) ∧ (0 ≤ p.gy ∧ p.gy < h) ∧ 0 ≤ p.gz ∧ p.gz < c :=
  (perm _).mem_iff.trans mem_grid

end LimbWorker.Lib
