import LimbWorker.Lib.Lifetimes
import LimbWorker.Lib.Logged
import LimbWorker.ThreadPool.Pool

/-!
# What a `FixedFunction` is for

A `FixedFunction` holds a callable or nothing. It can be moved, not copied: a move hands the callable over and leaves
nothing behind, so that a callable is never held twice. `Holders` says so and no more.

The class itself has a union and three pointers, and constructs and destroys objects in its storage by hand; what a move
leaves of an object stays in the storage and still has to be destroyed. `moves_only` is about any number of variables
and any order of their operations: they answer as the holders do, and every object in a storage is constructed once,
used while it is there and destroyed once. The move constructors of the callables are taken not to throw; after one that
does, `moveFromOther` would leave pointers to an object that was never made.
-/

namespace LimbWorker.ThreadPool

open Lib

/-- The constructors, the move assignment, a call and the destructor of a variable. -/
inductive CallableAction (ι : Type) where
  | default (i : ι)
  | construct (i : ι) (c : Callable)
  | moveConstruct (i o : ι)
  | assign (i o : ι)
  | call (i : ι)
  | destroy (i : ι)

variable {ι : Type} [DecidableEq ι]

/-! ## The holders -/

/-- The variables that exist and what they hold. Callables are numbered in the order in which they are put in. -/
structure Holders (ι : Type) where
  slot : ι → Option (Option Nat)
  made : Nat

namespace Holders

def init : Holders ι := ⟨fun _ => none, 0⟩

def set (s : Holders ι) (i : ι) (x : Option (Option Nat)) : Holders ι := { s with slot := Function.update s.slot i x }

/-- One operation, and its answer if it is a call. -/
def perform (s : Holders ι) : CallableAction ι → Option (Holders ι × List (CallResult Nat))
  | .default i => if s.slot i = none then some (s.set i (some none), []) else none
  | .construct i _ =>
      if s.slot i = none then some ({ s.set i (some (some s.made)) with made := s.made + 1 }, []) else none
  | .moveConstruct i o =>
      if s.slot i = none then (s.slot o).map fun held => ((s.set o (some none)).set i (some held), []) else none
  | .assign i o =>
      if (s.slot i).isSome then
        (s.slot o).map fun held => (if i = o then s else (s.set o (some none)).set i (some held), [])
      else none
  | .call i => (s.slot i).map fun held => (s, [held.elim .threw .ran])
  | .destroy i => if (s.slot i).isSome then some (s.set i none, []) else none

/-- One step. -/
def step (s : Holders ι) (act : CallableAction ι) : Option (Holders ι) := (s.perform act).map Prod.fst

def answer (s : Holders ι) (act : CallableAction ι) : List (CallResult Nat) :=
  ((s.perform act).map Prod.snd).getD []

/-- No callable is held twice. -/
structure Single (s : Holders ι) : Prop where
  lt_made : ∀ i k, s.slot i = some (some k) → k < s.made
  unique : ∀ i j k, s.slot i = some (some k) → s.slot j = some (some k) → i = j

variable {s s' : Holders ι}

@[simp] theorem slot_set_self (s : Holders ι) (i : ι) (x : Option (Option Nat)) : (s.set i x).slot i = x := by
  simp [set]

theorem slot_set_of_ne {i j : ι} (h : j ≠ i) (x : Option (Option Nat)) : (s.set i x).slot j = s.slot j := by
  simp [set, h]

/-- A variable that holds nothing afterwards. -/
theorem Single.clear (h : Single s) (i : ι) {x : Option (Option Nat)} (hx : ∀ k, x ≠ some (some k)) :
    Single (s.set i x) := by
  have hold : ∀ j k, (s.set i x).slot j = some (some k) → s.slot j = some (some k) := by
    intro j k hj
    by_cases hij : j = i
    · rw [hij, slot_set_self] at hj
      exact absurd hj (hx k)
    · rwa [slot_set_of_ne hij] at hj
  exact ⟨fun j k hj => h.lt_made j k (hold j k hj), fun j j' k hj hj' => h.unique j j' k (hold j k hj) (hold j' k hj')⟩

/-- A variable that holds afterwards what no other one does. -/
theorem Single.give (h : Single s) (i : ι) {held : Option Nat} {made : Nat} (hmade : s.made ≤ made)
    (hlt : ∀ k, held = some k → k < made) (hother : ∀ j k, held = some k → s.slot j ≠ some (some k)) :
    Single { s.set i (some held) with made := made } := by
  have hold : ∀ j k, (s.set i (some held)).slot j = some (some k) →
      (j = i ∧ held = some k) ∨ j ≠ i ∧ s.slot j = some (some k) := by
    intro j k hj
    by_cases hij : j = i
    · rw [hij, slot_set_self] at hj
      exact .inl ⟨hij, Option.some.inj hj⟩
    · rw [slot_set_of_ne hij] at hj
      exact .inr ⟨hij, hj⟩
  refine ⟨fun j k hj => ?_, fun j j' k hj hj' => ?_⟩
  · rcases hold j k hj with ⟨-, hk⟩ | ⟨-, hk⟩
    · exact hlt k hk
    · exact Nat.lt_of_lt_of_le (h.lt_made j k hk) hmade
  · rcases hold j k hj with ⟨rfl, hk⟩ | ⟨-, hk⟩ <;> rcases hold j' k hj' with ⟨rfl, hk'⟩ | ⟨-, hk'⟩
    · rfl
    · exact absurd hk' (hother j' k hk)
    · exact absurd hk (hother j k hk')
    · exact h.unique j j' k hk hk'

/-- A move. -/
theorem Single.move (h : Single s) (i : ι) {o : ι} {held : Option Nat} (ho : s.slot o = some held) :
    Single ((s.set o (some none)).set i (some held)) := by
  refine (h.clear o (x := some none) (by simp)).give i (Nat.le_refl _) (fun k hk => ?_) fun j k hk hj => ?_
  · exact h.lt_made o k (by rw [ho, hk])
  · by_cases hjo : j = o
    · rw [hjo, slot_set_self] at hj
      cases hj
    · rw [slot_set_of_ne hjo] at hj
      exact hjo (h.unique j o k hj (by rw [ho, hk]))

theorem Single.step {act : CallableAction ι} (h : Single s) (hs : s.step act = some s') : Single s' := by
  obtain ⟨⟨s₁, answers⟩, hperform, rfl⟩ := Option.map_eq_some_iff.mp hs
  cases act with
  | default i =>
      obtain ⟨-, heq⟩ := Option.ite_none_right_eq_some.mp hperform
      cases heq
      exact h.clear i (by simp)
  | construct i c =>
      obtain ⟨-, heq⟩ := Option.ite_none_right_eq_some.mp hperform
      cases heq
      -- the new number is larger than all that are held
      refine h.give i (Nat.le_succ _) (fun k hk => ?_) fun j k hk hj => ?_
      · cases hk
        exact Nat.lt_succ_self _
      · cases hk
        exact Nat.lt_irrefl _ (h.lt_made j _ hj)
  | moveConstruct i o =>
      obtain ⟨-, heq⟩ := Option.ite_none_right_eq_some.mp hperform
      obtain ⟨held, ho, heq⟩ := Option.map_eq_some_iff.mp heq
      cases heq
      exact h.move i ho
  | assign i o =>
      obtain ⟨-, heq⟩ := Option.ite_none_right_eq_some.mp hperform
      obtain ⟨held, ho, heq⟩ := Option.map_eq_some_iff.mp heq
      cases heq
      dsimp only
      split
      · exact h
      · exact h.move i ho
  | call i =>
      obtain ⟨held, -, heq⟩ := Option.map_eq_some_iff.mp hperform
      cases heq
      exact h
  | destroy i =>
      obtain ⟨-, heq⟩ := Option.ite_none_right_eq_some.mp hperform
      cases heq
      exact h.clear i (by simp)

end Holders

/-! ## The variables -/

namespace FixedFunction

/-- What a call would run. -/
def held (x : FixedFunction Nat) : Option Nat :=
  match x.call with
  | .ran f => some f
  | _ => none

/-- One that can be called is as its constructor made it. -/
def Valid (x : FixedFunction Nat) : Prop := x.m_method_ptr = true → ∃ c f, x = of c f

variable {x this o : FixedFunction Nat}

theorem valid_empty : Valid empty := by
  intro h
  cases h

theorem valid_of (c : Callable) (f : Nat) : Valid (of c f) := fun _ => ⟨c, f, rfl⟩

@[simp] theorem held_empty : held empty = none := rfl

@[simp] theorem held_of (c : Callable) (f : Nat) : held (of c f) = some f := by
  rw [held, call_of]

theorem held_of_method (h : x.m_method_ptr = false) : x.held = none := by
  rw [held, call, if_pos h]

/-- A call runs what is held, or throws. -/
theorem call_eq (h : x.Valid) : x.call = x.held.elim .threw .ran := by
  cases hmethod : x.m_method_ptr with
  | false =>
      rw [held_of_method hmethod, call, if_pos hmethod]
      rfl
  | true =>
      obtain ⟨c, f, rfl⟩ := h hmethod
      rw [call_of, held_of]
      rfl

theorem m_method_ptr_moveFromOther : (moveFromOther this o).1.m_method_ptr = o.m_method_ptr := by
  unfold moveFromOther
  dsimp only
  split <;> rfl

@[simp] theorem m_alloc_ptr_moveFromOther : (moveFromOther this o).1.m_alloc_ptr = o.m_alloc_ptr := by
  unfold moveFromOther
  cases o.m_alloc_ptr <;> cases this.m_alloc_ptr <;> simp

/-- What is left of an object is still there. -/
@[simp] theorem m_alloc_ptr_moveFromOther_snd : (moveFromOther this o).2.m_alloc_ptr = o.m_alloc_ptr := by
  unfold moveFromOther
  cases o.m_alloc_ptr <;> simp

theorem valid_moveFromOther (h : o.Valid) : (moveFromOther this o).1.Valid := by
  intro hmethod
  rw [m_method_ptr_moveFromOther] at hmethod
  obtain ⟨c, f, rfl⟩ := h hmethod
  exact ⟨c, f, moveFromOther_of this c f⟩

theorem held_moveFromOther (h : o.Valid) : (moveFromOther this o).1.held = o.held := by
  cases hmethod : o.m_method_ptr with
  | false =>
      rw [held_of_method hmethod, held_of_method]
      rw [m_method_ptr_moveFromOther, hmethod]
  | true =>
      obtain ⟨c, f, rfl⟩ := h hmethod
      rw [moveFromOther_of]

theorem m_method_ptr_moveFromOther_snd : (moveFromOther this o).2.m_method_ptr = false := by
  unfold moveFromOther
  dsimp only
  split <;> rfl

end FixedFunction

/-- The variables that exist. -/
structure Callables (ι : Type) where
  slot : ι → Option (FixedFunction Nat)
  made : Nat

namespace Callables

def init : Callables ι := ⟨fun _ => none, 0⟩

def set (s : Callables ι) (i : ι) (x : Option (FixedFunction Nat)) : Callables ι :=
  { s with slot := Function.update s.slot i x }

/-- What `moveFromOther` does to the objects in the two storages. -/
def moved (i o : ι) (this other : FixedFunction Nat) : List (Life ι) :=
  (if this.m_alloc_ptr then [.destroy i] else []) ++ if other.m_alloc_ptr then [.use o, .create i] else []

/-- `moveFromOther`. -/
def move (s : Callables ι) (i o : ι) (this other : FixedFunction Nat) : Callables ι :=
  (s.set o (some (this.moveFromOther other).2)).set i (some (this.moveFromOther other).1)

/-- A call goes to the object in the storage, if there is one. -/
def called (i : ι) (x : FixedFunction Nat) : List (Life ι) :=
  match x.m_method_ptr, x.m_storage with
  | false, _ | true, .function _ => []
  | true, _ => [.use i]

/-- One operation, what happens to the objects in the storages, and the answer if it is a call. -/
def perform (s : Callables ι) : CallableAction ι → Option (Callables ι × List (Life ι) × List (CallResult Nat))
  | .default i => if s.slot i = none then some (s.set i (some .empty), [], []) else none
  | .construct i c =>
      if s.slot i = none then
        some ({ s.set i (some (.of c s.made)) with made := s.made + 1 },
          if (FixedFunction.of c s.made).m_alloc_ptr then [.create i] else [], [])
      else none
  | .moveConstruct i o =>
      if s.slot i = none then
        (s.slot o).map fun other => (s.move i o .empty other, moved i o .empty other, [])
      else none
  | .assign i o =>
      (s.slot i).bind fun this => (s.slot o).map fun other =>
        if i = o then (s, [], []) else (s.move i o this other, moved i o this other, [])
  | .call i => (s.slot i).map fun x => (s, called i x, [x.call])
  | .destroy i => (s.slot i).map fun x => (s.set i none, if x.m_alloc_ptr then [.destroy i] else [], [])

/-- One step. -/
def step (s : Callables ι) (act : CallableAction ι) : Option (Callables ι) := (s.perform act).map Prod.fst

def storage (s : Callables ι) (act : CallableAction ι) : List (Life ι) :=
  ((s.perform act).map fun r => r.2.1).getD []

def answer (s : Callables ι) (act : CallableAction ι) : List (CallResult Nat) :=
  ((s.perform act).map fun r => r.2.2).getD []

/-- What the variables hold. -/
def holders (s : Callables ι) : Holders ι := ⟨fun i => (s.slot i).map FixedFunction.held, s.made⟩

/-- An object is in each storage whose variable has an `m_alloc_ptr`. -/
structure Inv (s : Callables ι) (live : List ι) : Prop where
  valid : ∀ i x, s.slot i = some x → x.Valid
  mem_live : ∀ i, i ∈ live ↔ ∃ x, s.slot i = some x ∧ x.m_alloc_ptr = true
  nodup : live.Nodup

variable {s s' : Callables ι} {live : List ι} {i : ι}

@[simp] theorem slot_set_self (s : Callables ι) (i : ι) (x : Option (FixedFunction Nat)) : (s.set i x).slot i = x := by
  simp [set]

theorem slot_set_of_ne {i j : ι} (h : j ≠ i) (x : Option (FixedFunction Nat)) : (s.set i x).slot j = s.slot j := by
  simp [set, h]

@[simp] theorem holders_set (s : Callables ι) (i : ι) (x : Option (FixedFunction Nat)) :
    (s.set i x).holders = s.holders.set i (x.map FixedFunction.held) := by
  simp only [holders, set, Holders.set, Holders.mk.injEq, and_true]
  funext j
  by_cases hj : j = i
  · rw [hj, Function.update_self, Function.update_self]
  · rw [Function.update_of_ne hj, Function.update_of_ne hj]

omit [DecidableEq ι] in
theorem slot_holders (s : Callables ι) (i : ι) : s.holders.slot i = (s.slot i).map FixedFunction.held := rfl

/-- A move hands over what is held. -/
theorem holders_move {i o : ι} {this other : FixedFunction Nat} (hother : other.Valid) :
    (s.move i o this other).holders = (s.holders.set o (some none)).set i (some other.held) := by
  rw [move, holders_set, holders_set, Option.map_some, Option.map_some, FixedFunction.held_moveFromOther hother,
    FixedFunction.held_of_method FixedFunction.m_method_ptr_moveFromOther_snd]

omit [DecidableEq ι] in
theorem inv_init : Inv (init : Callables ι) [] := ⟨by simp [init], by simp [init], List.nodup_nil⟩

/-- One variable changes, and so does what is in its storage. -/
theorem Inv.set (h : Inv s live) (i : ι) {x : Option (FixedFunction Nat)} {live' : List ι}
    (hvalid : ∀ y, x = some y → y.Valid) (hnodup : live'.Nodup)
    (hself : i ∈ live' ↔ ∃ y, x = some y ∧ y.m_alloc_ptr = true) (hother : ∀ j, j ≠ i → (j ∈ live' ↔ j ∈ live)) :
    Inv (s.set i x) live' := by
  refine ⟨fun j y hj => ?_, fun j => ?_, hnodup⟩
  · by_cases hji : j = i
    · rw [hji, slot_set_self] at hj
      exact hvalid y hj
    · rw [slot_set_of_ne hji] at hj
      exact h.valid j y hj
  · by_cases hji : j = i
    · rw [hji, slot_set_self, hself]
    · rw [slot_set_of_ne hji, hother j hji, h.mem_live]

omit [DecidableEq ι] in
/-- An object in the storage of a variable, by the variable itself. -/
theorem Inv.mem_iff (h : Inv s live) {x : FixedFunction Nat} (hi : s.slot i = some x) :
    i ∈ live ↔ x.m_alloc_ptr = true := by
  rw [h.mem_live, hi]
  simp

omit [DecidableEq ι] in
theorem Inv.not_mem (h : Inv s live) (hi : s.slot i = none) : i ∉ live := by
  rw [h.mem_live, hi]
  simp

omit [DecidableEq ι] in
theorem no_line (r : ι) (live : List ι) : ∀ p ∈ (fun _ => [] : ι → List ι) r, p ∈ live := fun _ hp => by cases hp

/-- The object that may be in a storage is destroyed. -/
theorem run_clear {alloc : Bool} (hi : i ∈ live ↔ alloc = true) :
    run (Life.step fun _ => []) live (if alloc then [.destroy i] else []) = some (live.erase i) := by
  cases alloc with
  | true => exact run_cons_of (Life.step_destroy (hi.mpr rfl) (no_line i live))
  | false => rw [List.erase_of_not_mem fun hmem => absurd (hi.mp hmem) (by simp)]; rfl

/-- A move destroys what was there, and constructs a new object from the other one. -/
theorem run_moved {o : ι} {this other : FixedFunction Nat} (hnodup : live.Nodup) (hio : o ≠ i)
    (hi : i ∈ live ↔ this.m_alloc_ptr = true) (ho : o ∈ live ↔ other.m_alloc_ptr = true) :
    run (Life.step fun _ => []) live (moved i o this other) =
      some (if other.m_alloc_ptr then i :: live.erase i else live.erase i) := by
  rw [moved, run_append, run_clear hi, Option.bind_some]
  cases halloc : other.m_alloc_ptr with
  | false => rfl
  | true =>
      have hmem : o ∈ live.erase i := (List.mem_erase_of_ne hio).mpr (ho.mpr halloc)
      rw [if_pos rfl, if_pos rfl, run_cons, Life.step_use hmem (no_line o _), Option.bind_some]
      exact run_cons_of (Life.step_create hnodup.not_mem_erase (no_line i _))

/-- A move between two variables. -/
theorem Inv.move (h : Inv s live) {o : ι} {this other : FixedFunction Nat} (ho : s.slot o = some other) :
    Inv (s.move i o this other) (if other.m_alloc_ptr then i :: live.erase i else live.erase i) := by
  have hother : Inv (s.set o (some (this.moveFromOther other).2)) live := by
    refine h.set o (fun y hy => ?_) h.nodup ?_ fun j _ => Iff.rfl
    · cases hy
      intro hmethod
      rw [FixedFunction.m_method_ptr_moveFromOther_snd] at hmethod
      cases hmethod
    · rw [h.mem_iff ho]
      simp
  refine hother.set i (fun y hy => ?_) ?_ ?_ fun j hj => ?_
  · cases hy
    exact FixedFunction.valid_moveFromOther (h.valid o other ho)
  · split
    · exact (h.nodup.erase i).cons h.nodup.not_mem_erase
    · exact h.nodup.erase i
  · cases halloc : other.m_alloc_ptr <;> simp [halloc, h.nodup.not_mem_erase]
  · cases other.m_alloc_ptr <;> simp [hj]

/-- A new callable, in a storage that was empty. -/
theorem Inv.construct (h : Inv s live) (hi : s.slot i = none) (c : Callable) :
    ∃ live', run (Life.step fun _ => []) live (if (FixedFunction.of c s.made).m_alloc_ptr then [.create i] else []) =
        some live' ∧ Inv { s.set i (some (.of c s.made)) with made := s.made + 1 } live' := by
  have hvalid : ∀ y, some (FixedFunction.of c s.made) = some y → y.Valid := by
    intro y hy
    cases hy
    exact FixedFunction.valid_of c s.made
  cases c with
  | object =>
      refine ⟨_, run_cons_of (Life.step_create (h.not_mem hi) (no_line i _)), ?_⟩
      have hset := h.set i hvalid (h.nodup.cons (h.not_mem hi)) (by simp [FixedFunction.of])
        fun j hj => by simp [hj]
      exact ⟨hset.valid, hset.mem_live, hset.nodup⟩
  | function =>
      refine ⟨_, rfl, ?_⟩
      have hset := h.set i hvalid h.nodup (by simp [FixedFunction.of, h.not_mem hi]) fun j _ => Iff.rfl
      exact ⟨hset.valid, hset.mem_live, hset.nodup⟩

theorem holders_construct (s : Callables ι) (i : ι) (c : Callable) :
    holders { s.set i (some (.of c s.made)) with made := s.made + 1 } =
      { s.holders.set i (some (some s.made)) with made := s.made + 1 } := by
  have hset := holders_set s i (some (.of c s.made))
  rw [Option.map_some, FixedFunction.held_of] at hset
  rw [← hset]
  rfl

/-- A call uses an object that is there. -/
theorem run_called {x : FixedFunction Nat} (h : Inv s live) (hi : s.slot i = some x) :
    run (Life.step fun _ => []) live (called i x) = some live := by
  cases hmethod : x.m_method_ptr with
  | false => simp [called, hmethod]
  | true =>
      obtain ⟨c, f, rfl⟩ := h.valid i x hi hmethod
      cases c with
      | object => exact run_cons_of (Life.step_use ((h.mem_iff hi).mpr rfl) (no_line i _))
      | function => rfl

/-- **One operation**: the objects in the storages are constructed, used and destroyed in order, and the holders do the
same. -/
theorem perform_spec {act : CallableAction ι} {calls : List (Life ι)} {answers : List (CallResult Nat)}
    (h : Inv s live) (hs : s.perform act = some (s', calls, answers)) :
    (∃ live', run (Life.step fun _ => []) live calls = some live' ∧ Inv s' live') ∧
      s.holders.perform act = some (s'.holders, answers) := by
  cases act with
  | default i =>
      obtain ⟨hi, heq⟩ := Option.ite_none_right_eq_some.mp hs
      cases heq
      refine ⟨⟨live, rfl, h.set i (fun y hy => ?_) h.nodup ?_ fun j _ => Iff.rfl⟩, ?_⟩
      · cases hy
        exact FixedFunction.valid_empty
      · simp [h.not_mem hi, FixedFunction.empty]
      · simp [Holders.perform, slot_holders, hi]
  | construct i c =>
      obtain ⟨hi, heq⟩ := Option.ite_none_right_eq_some.mp hs
      cases heq
      refine ⟨h.construct hi c, ?_⟩
      rw [holders_construct, Holders.perform, slot_holders, hi]
      rfl
  | moveConstruct i o =>
      obtain ⟨hi, heq⟩ := Option.ite_none_right_eq_some.mp hs
      obtain ⟨other, ho, heq⟩ := Option.map_eq_some_iff.mp heq
      cases heq
      -- a callable is not made from itself
      have hio : o ≠ i := by
        rintro rfl
        rw [hi] at ho
        cases ho
      refine ⟨⟨_, run_moved h.nodup hio ?_ (h.mem_iff ho), h.move ho⟩, ?_⟩
      · simp [h.not_mem hi, FixedFunction.empty]
      · rw [holders_move (h.valid o other ho)]
        simp [Holders.perform, slot_holders, hi, ho]
  | assign i o =>
      obtain ⟨this, hi, heq⟩ := Option.bind_eq_some_iff.mp hs
      obtain ⟨other, ho, heq⟩ := Option.map_eq_some_iff.mp heq
      by_cases hio : i = o
      · -- the assignment of a callable to itself does nothing
        rw [if_pos hio] at heq
        cases heq
        refine ⟨⟨live, rfl, h⟩, ?_⟩
        simp [Holders.perform, slot_holders, ho, hio]
      · rw [if_neg hio] at heq
        cases heq
        refine ⟨⟨_, run_moved h.nodup (Ne.symm hio) (h.mem_iff hi) (h.mem_iff ho), h.move ho⟩, ?_⟩
        rw [holders_move (h.valid o other ho)]
        simp [Holders.perform, slot_holders, hi, ho, hio]
  | call i =>
      obtain ⟨x, hi, heq⟩ := Option.map_eq_some_iff.mp hs
      cases heq
      refine ⟨⟨live, run_called h hi, h⟩, ?_⟩
      simp [Holders.perform, slot_holders, hi, FixedFunction.call_eq (h.valid i x hi)]
  | destroy i =>
      obtain ⟨x, hi, heq⟩ := Option.map_eq_some_iff.mp hs
      cases heq
      refine ⟨⟨_, run_clear (h.mem_iff hi), h.set i (by simp) (h.nodup.erase i) ?_ fun j hj => ?_⟩, ?_⟩
      · simp [h.nodup.not_mem_erase]
      · exact List.mem_erase_of_ne hj
      · simp [Holders.perform, slot_holders, hi]

/-- **A `FixedFunction` is a move-only callable**: for any number of variables and any order of their constructions,
moves (also of a variable to itself), calls and destructions, the objects in the storages are constructed, used and
destroyed in order, and are there just while their variables have an `m_alloc_ptr`; every call answers as the holders
do, it runs what was put in and handed over, or throws; and no callable is held twice. No move constructor of a
callable throws. -/
theorem moves_only {acts : List (CallableAction ι)} {s : Callables ι} (h : run step init acts = some s) :
    ∃ log live answers, run (logged step storage) (init, []) acts = some (s, log) ∧
      run (Life.step fun _ => []) [] log = some live ∧
      (∀ i, i ∈ live ↔ ∃ x, s.slot i = some x ∧ x.m_alloc_ptr = true) ∧
      run (logged step answer) (init, []) acts = some (s, answers) ∧
      run (logged Holders.step Holders.answer) (Holders.init, []) acts = some (s.holders, answers) ∧
      s.holders.Single := by
  -- one operation: the storages stay in order, and the abstract holders do the same
  have hspec : ∀ (s : Callables ι) act s', (∃ live, Inv s live) → s.step act = some s' →
      (∃ live, Inv s' live) ∧ s.holders.step act = some s'.holders ∧ s.holders.answer act = s.answer act := by
    rintro s act s' ⟨live, hinv⟩ hs
    obtain ⟨⟨s₁, calls, answers⟩, hperform, rfl⟩ := Option.map_eq_some_iff.mp hs
    obtain ⟨⟨live', -, hinv'⟩, hholders⟩ := perform_spec hinv hperform
    refine ⟨⟨live', hinv'⟩, ?_, ?_⟩
    · rw [Holders.step, hholders]
      rfl
    · rw [Holders.answer, answer, hholders, hperform]
      rfl
  obtain ⟨log, hlog⟩ : ∃ log, run (logged step storage) (init, []) acts = some (s, log) := exists_logged [] h
  obtain ⟨answers, hanswers⟩ : ∃ answers, run (logged step answer) (init, []) acts = some (s, answers) :=
    exists_logged [] h
  -- the storages are in order all along
  obtain ⟨live, hlive, hinv⟩ := run_invariant
    (I := fun p : Callables ι × List (Life ι) => ∃ live, run (Life.step fun _ => []) [] p.2 = some live ∧ Inv p.1 live)
    (by
      rintro ⟨s, log⟩ act ⟨s', log'⟩ ⟨live, hlive, hinv⟩ hs
      obtain ⟨hs₁, rfl⟩ := logged_eq_some hs
      obtain ⟨⟨s₁, calls, answers⟩, hperform, rfl⟩ := Option.map_eq_some_iff.mp hs₁
      obtain ⟨⟨live', hcalls, hinv'⟩, -⟩ := perform_spec hinv hperform
      refine ⟨live', ?_, hinv'⟩
      rw [storage, hperform]
      exact run_trans hlive hcalls)
    ⟨[], rfl, inv_init⟩ hlog
  have hholders := run_logged_map (f := holders) hspec ⟨[], inv_init⟩ hanswers
  refine ⟨log, live, answers, hlog, hlive, hinv.mem_live, hanswers, hholders, ?_⟩
  refine run_invariant (fun s act s' hsingle hs => hsingle.step hs) ?_ (run_of_logged hholders)
  exact ⟨fun i k hi => (by cases hi), fun i j k hi => (by cases hi)⟩

/-- A callable is put into one variable, moved to another one and called there, and in vain where it was. -/
def movedOnce : List (CallableAction Bool) :=
  [.construct true .object, .moveConstruct false true, .call false, .call true, .destroy true, .destroy false]

theorem moves_only_once : ∃ s log live answers, run step init movedOnce = some s ∧
    run (logged step storage) (init, []) movedOnce = some (s, log) ∧
      run (Life.step fun _ => []) [] log = some live ∧
      (∀ i, i ∈ live ↔ ∃ x, s.slot i = some x ∧ x.m_alloc_ptr = true) ∧
      run (logged step answer) (init, []) movedOnce = some (s, answers) ∧
      run (logged Holders.step Holders.answer) (Holders.init, []) movedOnce = some (s.holders, answers) ∧
      s.holders.Single := by
  obtain ⟨log, live, answers, hall⟩ := moves_only (show run step init movedOnce = some _ from rfl)
  exact ⟨_, log, live, answers, rfl, hall⟩

end Callables

end LimbWorker.ThreadPool
