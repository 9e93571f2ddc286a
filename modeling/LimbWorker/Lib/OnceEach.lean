import Mathlib.Data.List.Nodup
import Mathlib.Data.Set.Insert

/-!
# Each once

A list runs through a set, each element once and in whatever order: this is what it means that a loop, or
several in a row, cover a memory without a gap and without an overlap. The rules follow the loop: nothing,
one element, one part after another, and one part for every round.
-/

namespace LimbWorker.Lib

universe u v

variable {A : Type u} {ι : Type v} [DecidableEq A]

/-- The elements of `s` occur once in `l`, and nothing else occurs. -/
structure OnceEach (l : List A) (s : Set A) : Prop where
  once : ∀ a ∈ s, l.count a = 1
  none : ∀ a ∉ s, l.count a = 0

namespace OnceEach

variable {l l' : List A} {s t : Set A}

/-- What occurs is what the list runs through. -/
theorem mem_iff (h : OnceEach l s) {a : A} : a ∈ l ↔ a ∈ s := by
  by_cases ha : a ∈ s
  · have hpos : 0 < l.count a := by rw [h.once a ha]; exact Nat.one_pos
    exact ⟨fun _ => ha, fun _ => List.count_pos_iff.mp hpos⟩
  · exact ⟨fun hmem => absurd hmem (List.count_eq_zero.mp (h.none a ha)), fun hmem => absurd hmem ha⟩

theorem congr (h : OnceEach l s) (hst : s = t) : OnceEach l t := hst ▸ h

theorem perm (h : OnceEach l s) (hl : l.Perm l') : OnceEach l' s where
  once := fun a ha => (hl.count_eq a).symm.trans (h.once a ha)
  none := fun a ha => (hl.count_eq a).symm.trans (h.none a ha)

theorem nil : OnceEach ([] : List A) ∅ where
  once := fun _ ha => absurd ha (Set.notMem_empty _)
  none := fun _ _ => List.count_nil

theorem singleton (a : A) : OnceEach [a] {a} where
  once := fun _ hb => by
    rw [Set.mem_singleton_iff.mp hb]
    exact List.count_singleton_self
  none := fun _ hb => List.count_eq_zero.mpr fun hmem => hb (List.mem_singleton.mp hmem)

/-- One part after another. -/
theorem append (h : OnceEach l s) (h' : OnceEach l' t) (hst : ∀ a ∈ s, a ∉ t) :
    OnceEach (l ++ l') (s ∪ t) where
  once := fun a ha => by
    rw [List.count_append]
    rcases ha with hs | ht
    · rw [h.once a hs, h'.none a (hst a hs)]
    · rw [h.none a fun hs => hst a hs ht, h'.once a ht]
  none := fun a ha => by
    rw [List.count_append, h.none a fun hs => ha (.inl hs), h'.none a fun ht => ha (.inr ht)]

/-- One part for every round. -/
theorem flatMap {rounds : List ι} (hrounds : rounds.Nodup) {f : ι → List A} {s : ι → Set A}
    (h : ∀ p ∈ rounds, OnceEach (f p) (s p))
    (hdisjoint : ∀ p ∈ rounds, ∀ q ∈ rounds, p ≠ q → ∀ a ∈ s p, a ∉ s q) :
    OnceEach (rounds.flatMap f) {a | ∃ p ∈ rounds, a ∈ s p} := by
  induction rounds with
  | nil => exact nil.congr (by simp)
  | cons p rounds ih =>
      obtain ⟨hp, hrest⟩ := List.nodup_cons.mp hrounds
      rw [List.flatMap_cons]
      have hparts : OnceEach (rounds.flatMap f) {a | ∃ q ∈ rounds, a ∈ s q} := by
        apply ih hrest
        · exact fun q hq => h q (List.mem_cons_of_mem p hq)
        · exact fun q hq r hr => hdisjoint q (List.mem_cons_of_mem p hq) r (List.mem_cons_of_mem p hr)
      apply ((h p List.mem_cons_self).append hparts ?_).congr
      · ext a
        simp
      · rintro a ha ⟨q, hq, haq⟩
        have hne : p ≠ q := fun heq => hp (heq ▸ hq)
        exact hdisjoint p List.mem_cons_self q (List.mem_cons_of_mem p hq) hne a ha haq

end OnceEach

/-! ## Consecutive ranges -/

/-- The numbers from `a` to `b`, without `b`. -/
def interval (a b : Int) : List Int := (List.range (b - a).toNat).map fun (i : Nat) => a + i

/-- The set of these numbers. -/
def span (a b : Int) : Set Int := {i | a ≤ i ∧ i < b}

theorem onceEach_interval (a b : Int) : OnceEach (interval a b) (span a b) := by
  have hnodup : (interval a b).Nodup := List.nodup_range.map fun i j h => by
    have heq : a + (i : Int) = a + j := h
    omega
  have hmem : ∀ i, i ∈ interval a b ↔ i ∈ span a b := by
    intro i
    simp only [interval, span, List.mem_map, List.mem_range, Set.mem_ofPred_eq]
    constructor
    · rintro ⟨k, hk, rfl⟩
      omega
    · intro hi
      exact ⟨(i - a).toNat, by omega, by omega⟩
  constructor
  · exact fun i hi => List.count_eq_one_of_mem hnodup ((hmem i).mpr hi)
  · exact fun i hi => List.count_eq_zero.mpr fun hmem' => hi ((hmem i).mp hmem')

/-- **Ranges that follow each other** cover what lies between the first and the last of their ends. -/
theorem onceEach_consecutive {e : Nat → Int} (n : Nat) (he : ∀ i < n, e i ≤ e (i + 1)) :
    e 0 ≤ e n ∧
      OnceEach ((List.range n).flatMap fun i => interval (e i) (e (i + 1))) (span (e 0) (e n)) := by
  induction n with
  | zero =>
      refine ⟨Int.le_refl _, OnceEach.nil.congr ?_⟩
      ext i
      exact ⟨fun hi => absurd hi (Set.notMem_empty i), fun hi => absurd hi.2 (Int.not_lt.mpr hi.1)⟩
  | succ n ih =>
      obtain ⟨hle, hcover⟩ := ih fun i hi => he i (Nat.lt_succ_of_lt hi)
      have hlast := he n (Nat.lt_succ_self n)
      refine ⟨Int.le_trans hle hlast, ?_⟩
      rw [List.range_succ, List.flatMap_append, List.flatMap_singleton]
      apply (hcover.append (onceEach_interval (e n) (e (n + 1))) ?_).congr
      · ext i
        simp only [span, Set.mem_union, Set.mem_ofPred_eq]
        omega
      · exact fun i hi hnext => absurd hi.2 (Int.not_lt.mpr hnext.1)

end LimbWorker.Lib
