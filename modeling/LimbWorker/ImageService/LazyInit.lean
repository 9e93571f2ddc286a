import LimbWorker.Lib.Logged
import LimbWorker.ImageService.Refusals
import LimbWorker.ProcessorLoader

/-!
# Lazy initialisation

`ProcessorInitializer<ProcessorStorage>` over any sequence of calls, with the life of every container written
down: each call of its `init`, with the status that it returned, and each call of its `deinit`.

The set of the initialised indices and the map of the containers belong to two classes, and indices are used
again. What ties them together is that the containers whose last call was `init` are just those stored under
an index of the set (`Lazy.isOpen`). The set is filled before `init` has returned, though, and the status is
dropped; so it says that `init` was called, not that it succeeded.
-/

namespace LimbWorker.ImageService

open Lib

/-! ## Calls -/

/-- A call of the provider; `returned` is what `init` of the container returns, should it be called. -/
inductive InitializerCall where
  | addContainer (index : Nat) (container : ContainerId)
  | removeContainer (index : Nat)
  | acquireContainer (index : Nat) (returned : ReturnStatus)
  | reclaimContainer (container : ContainerId)
  deriving DecidableEq, Repr

/-- A call that the provider makes in the life of a container. -/
inductive LifecycleCall where
  | init (c : ContainerId) (returned : ReturnStatus)
  | deinit (c : ContainerId)
  deriving DecidableEq, Repr

namespace LifecycleCall

def container : LifecycleCall → ContainerId
  | init c _ => c
  | deinit c => c

def isInit : LifecycleCall → Bool
  | init _ _ => true
  | deinit _ => false

/-- The status, of an `init` of `c`. -/
def initStatus (c : ContainerId) : LifecycleCall → Option ReturnStatus
  | init c' returned => if c' = c then some returned else none
  | deinit _ => none

/-- The lifecycle call among those of a container. -/
def ofCall (returned : ReturnStatus) : ContainerCall → Option LifecycleCall
  | .init c => some (.init c returned)
  | .deinit c => some (.deinit c)
  | _ => none

end LifecycleCall

/-! ## The life of a container -/

/-- The lifecycle calls of one container. -/
def callsOf (log : List LifecycleCall) (c : ContainerId) : List LifecycleCall :=
  log.filter fun e => e.container = c

/-- The last lifecycle call of the container was `init`. -/
def IsOpen (log : List LifecycleCall) (c : ContainerId) : Prop :=
  ∃ last, (callsOf log c).getLast? = some last ∧ last.isInit = true

/-- What the last `init` of the container returned. -/
def lastInit (log : List LifecycleCall) (c : ContainerId) : Option ReturnStatus :=
  (log.filterMap (LifecycleCall.initStatus c)).getLast?

variable {log : List LifecycleCall} {e : LifecycleCall} {c c' : ContainerId} {returned : ReturnStatus}

theorem callsOf_concat_of_eq (h : e.container = c) : callsOf (log ++ [e]) c = callsOf log c ++ [e] := by
  simp [callsOf, h]

theorem callsOf_concat_of_ne (h : e.container ≠ c) : callsOf (log ++ [e]) c = callsOf log c := by
  simp [callsOf, h]

theorem not_isOpen_nil : ¬ IsOpen [] c := by
  rintro ⟨last, hlast, -⟩
  cases hlast

/-- A new entry decides for its own container, and for no other. -/
theorem isOpen_concat : IsOpen (log ++ [e]) c ↔ (e.container = c ∧ e.isInit = true) ∨
    (e.container ≠ c ∧ IsOpen log c) := by
  by_cases h : e.container = c
  · simp [IsOpen, callsOf_concat_of_eq h, h]
  · simp [IsOpen, callsOf_concat_of_ne h, h]

theorem lastInit_init : lastInit (log ++ [.init c' returned]) c =
    if c' = c then some returned else lastInit log c := by
  by_cases h : c' = c
  · simp [lastInit, LifecycleCall.initStatus, h]
  · simp [lastInit, LifecycleCall.initStatus, h]

theorem lastInit_deinit : lastInit (log ++ [.deinit c']) c = lastInit log c := by
  simp [lastInit, LifecycleCall.initStatus]

/-- The calls of one container take turns when the new entry does. -/
theorem alternates_callsOf_concat (h : ∀ c, Alternates LifecycleCall.isInit (callsOf log c))
    (he : e.isInit = true ↔ ¬ IsOpen log e.container) :
    ∀ c, Alternates LifecycleCall.isInit (callsOf (log ++ [e]) c) := by
  intro c
  by_cases hc : e.container = c
  · rw [callsOf_concat_of_eq hc]
    refine alternates_concat (h c) ?_
    rw [he, hc, IsOpen]
    simp
  · rw [callsOf_concat_of_ne hc]
    exact h c

namespace ProcessorInitializer

/-! ## One call -/

/-- The container under an index. -/
def stored (p : ProcessorInitializer) (index : Nat) : Option ContainerId :=
  p.m_upstream.m_containers.lookup index

/-- The provider after a call; where a call throws it has written nothing. -/
def perform (p : ProcessorInitializer) : InitializerCall → ProcessorInitializer
  | .addContainer index container => (p.addContainer index container).2
  | .removeContainer index =>
      match (p.removeContainer index).result with
      | .ok (_, p') => p'
      | .error _ => p
  | .acquireContainer index _ => p.afterAcquire index
  | .reclaimContainer container => p.reclaimContainer container

/-- What the call does to the lives of containers. -/
def note (p : ProcessorInitializer) : InitializerCall → List LifecycleCall
  | .addContainer _ _ => []
  | .removeContainer index => (p.removeContainer index).events.filterMap (LifecycleCall.ofCall .kOk)
  | .acquireContainer index returned =>
      (p.acquireContainer index).events.filterMap (LifecycleCall.ofCall returned)
  | .reclaimContainer _ => []

/-- `perform` as a step system: every call can be made at any time. -/
def callStep (p : ProcessorInitializer) (call : InitializerCall) : Option ProcessorInitializer :=
  some (p.perform call)

/-- The provider with the lives of the containers. -/
def lived : ProcessorInitializer × List LifecycleCall → InitializerCall →
    Option (ProcessorInitializer × List LifecycleCall) :=
  logged callStep note

variable {p : ProcessorInitializer} {index i : Nat}

/-- A step of the provider with its log. -/
theorem lived_eq_some {s s' : ProcessorInitializer × List LifecycleCall} {call : InitializerCall}
    (h : lived s call = some s') : s' = (s.1.perform call, s.2 ++ s.1.note call) := by
  cases h
  rfl

/-- Every sequence of calls can be made. -/
theorem exists_lived (s : ProcessorInitializer × List LifecycleCall) (calls : List InitializerCall) :
    ∃ s', run lived s calls = some s' := by
  induction calls generalizing s with
  | nil => exact ⟨s, rfl⟩
  | cons call calls ih => exact ih (s.1.perform call, s.2 ++ s.1.note call)

theorem stored_ne_none_iff : p.stored index ≠ none ↔ index ∈ p.registered := by
  rw [stored, ne_eq, List.lookup_eq_none_iff, registered, List.mem_map]
  constructor
  · intro h
    push Not at h
    obtain ⟨entry, hentry, heq⟩ := h
    exact ⟨entry, hentry, (by simpa using heq : index = entry.1).symm⟩
  · rintro ⟨entry, hentry, rfl⟩ h
    simpa using h entry hentry

/-- `at` finds what is stored. -/
theorem acquire_of_stored (h : p.stored index = some c) :
    p.m_upstream.acquireContainer index = pure c := by
  have hlookup : p.m_upstream.m_containers.lookup index = some c := h
  rw [ProcessorStorage.acquireContainer, hlookup]

/-- A container under a new index; an index that is taken keeps its container. -/
theorem stored_addContainer : (p.addContainer index c).2.stored i =
    if p.stored index = none ∧ i = index then some c else p.stored i := by
  show (p.m_upstream.addContainer index c).2.m_containers.lookup i = _
  unfold ProcessorStorage.addContainer
  by_cases h : index ∈ p.m_upstream.m_containers.map Prod.fst
  · rw [dif_pos h, if_neg fun hnew => stored_ne_none_iff.mpr h hnew.1]
    rfl
  · have hnone : p.stored index = none := by
      by_contra hne
      exact h (stored_ne_none_iff.mp hne)
    rw [dif_neg h, List.lookup_append]
    by_cases hi : i = index
    · subst hi
      have hlookup : p.m_upstream.m_containers.lookup i = none := hnone
      simp [hnone, hlookup]
    · have hbeq : (i == index) = false := by simpa using hi
      simp [hi, stored, List.lookup_cons, hbeq]

/-- Removing: the container is deinitialised if it was initialised, and goes. -/
theorem Inv.removeContainer (h : Inv p) (index : Nat) :
    (∀ i, (p.perform (.removeContainer index)).stored i = if i = index then none else p.stored i) ∧
      (p.perform (.removeContainer index)).m_initializedMap = p.m_initializedMap.erase index ∧
      p.note (.removeContainer index) =
        if index ∈ p.m_initializedMap then ((p.stored index).map .deinit).toList else [] := by
  unfold perform note ProcessorInitializer.removeContainer deinitContainer
  by_cases hmem : index ∈ p.m_initializedMap
  · obtain ⟨c, hc⟩ := Option.ne_none_iff_exists'.mp (stored_ne_none_iff.mpr (h.registered index hmem))
    simp only [if_pos hmem, acquire_of_stored hc, hc]
    refine ⟨fun i => ?_, rfl, rfl⟩
    exact ProcessorLoader.lookup_filter_ne p.m_upstream.m_containers i index
  · simp only [if_neg hmem]
    refine ⟨fun i => ?_, (List.erase_of_not_mem hmem).symm, rfl⟩
    exact ProcessorLoader.lookup_filter_ne p.m_upstream.m_containers i index

/-- Acquiring what is stored: its `init` is called unless the index is in the set already. -/
theorem acquireContainer_of_stored (h : p.stored index = some c) (returned : ReturnStatus) :
    (p.acquireContainer index).result = .ok (p.perform (.acquireContainer index returned), c) ∧
      (p.perform (.acquireContainer index returned)).m_upstream = p.m_upstream ∧
      (∀ i, i ∈ (p.perform (.acquireContainer index returned)).m_initializedMap ↔
        i = index ∨ i ∈ p.m_initializedMap) ∧
      p.note (.acquireContainer index returned) =
        if index ∈ p.m_initializedMap then [] else [.init c returned] := by
  unfold perform note afterAcquire ProcessorInitializer.acquireContainer
  by_cases hmem : index ∈ p.m_initializedMap
  · simp only [acquire_of_stored h, if_pos hmem]
    refine ⟨rfl, rfl, fun i => ⟨.inr, ?_⟩, rfl⟩
    rintro (rfl | hi)
    · exact hmem
    · exact hi
  · simp only [acquire_of_stored h, if_neg hmem]
    exact ⟨rfl, rfl, fun i => List.mem_orderedInsert _, rfl⟩

/-- Acquiring what is not stored throws, and nothing else happens. -/
theorem acquireContainer_of_not_stored (h : p.stored index = none) (returned : ReturnStatus) :
    p.acquireContainer index = .fault .outOfRange ∧
      p.perform (.acquireContainer index returned) = p ∧
      p.note (.acquireContainer index returned) = [] := by
  have hnot : index ∉ p.registered := fun hmem => stored_ne_none_iff.mpr hmem h
  have hfault : p.acquireContainer index = .fault .outOfRange := by
    unfold ProcessorInitializer.acquireContainer
    rw [acquireContainer_of_not_mem hnot, Traced.fault_bind]
  refine ⟨hfault, afterAcquire_of_not_mem hnot, ?_⟩
  rw [note, hfault]
  rfl

theorem Inv.perform (h : Inv p) (call : InitializerCall) : Inv (p.perform call) := by
  cases call with
  | addContainer index c =>
      obtain ⟨p', hstep, hinv⟩ := h.step (.addContainer index c)
      cases hstep
      exact hinv
  | removeContainer index =>
      obtain ⟨p', hstep, hinv⟩ := h.step (.removeContainer index)
      have hsame : p.step (.removeContainer index) = some (p.perform (.removeContainer index)) := by
        simp only [ProcessorInitializer.step, ProcessorInitializer.perform]
        cases (p.removeContainer index).result with
        | ok r => rfl
        | error fault => rfl
      rw [hsame] at hstep
      cases hstep
      exact hinv
  | acquireContainer index returned => exact h.acquire index
  | reclaimContainer c => exact h

/-! ## The protocol -/

/-- What holds of the provider and of the lives of the containers, while no container is stored twice. -/
structure Lazy (s : ProcessorInitializer × List LifecycleCall) : Prop where
  inv : Inv s.1
  distinct : ∀ i j c, s.1.stored i = some c → s.1.stored j = some c → i = j
  isOpen : ∀ c, IsOpen s.2 c ↔ ∃ i ∈ s.1.m_initializedMap, s.1.stored i = some c
  alternates : ∀ c, Alternates LifecycleCall.isInit (callsOf s.2 c)

/-- A container that is added is not stored at that time. -/
def AddsDistinct (s : ProcessorInitializer × List LifecycleCall) : InitializerCall → Prop
  | .addContainer _ container => ∀ i, s.1.stored i ≠ some container
  | _ => True

theorem lazy_empty : Lazy (empty, []) where
  inv := inv_empty
  distinct := fun i j c h => by cases h
  isOpen := fun c => iff_of_false not_isOpen_nil fun ⟨i, hi, _⟩ => absurd hi List.not_mem_nil
  alternates := fun c => alternates_nil

variable {s s' : ProcessorInitializer × List LifecycleCall}

/-- Adding a container that is stored nowhere starts no life. -/
theorem Lazy.add (h : Lazy s) (hnew : ∀ i, s.1.stored i ≠ some c) :
    Lazy (s.1.perform (.addContainer index c), s.2) := by
  have hstored (i : Nat) : (s.1.perform (.addContainer index c)).stored i =
      if s.1.stored index = none ∧ i = index then some c else s.1.stored i := stored_addContainer
  refine ⟨h.inv.perform (.addContainer index c), fun i j c' hi hj => ?_, fun c' => ?_, h.alternates⟩
  · rw [hstored] at hi hj
    -- two indexes of one container: both old, or both the new index
    by_cases hi' : s.1.stored index = none ∧ i = index
    · by_cases hj' : s.1.stored index = none ∧ j = index
      · rw [hi'.2, hj'.2]
      · rw [if_pos hi'] at hi
        rw [if_neg hj'] at hj
        cases hi
        exact absurd hj (hnew j)
    · rw [if_neg hi'] at hi
      by_cases hj' : s.1.stored index = none ∧ j = index
      · rw [if_pos hj'] at hj
        cases hj
        exact absurd hi (hnew i)
      · rw [if_neg hj'] at hj
        exact h.distinct i j c' hi hj
  · rw [h.isOpen c']
    show _ ↔ ∃ i ∈ s.1.m_initializedMap, _
    -- what is in the set is stored, so its container is not the new one
    have hsame : ∀ i ∈ s.1.m_initializedMap,
        (s.1.perform (.addContainer index c)).stored i = s.1.stored i := by
      intro i hi
      have hne := stored_ne_none_iff.mpr (h.inv.registered i hi)
      rw [hstored, if_neg]
      rintro ⟨hnone, rfl⟩
      exact hne hnone
    constructor
    · rintro ⟨i, hi, hc⟩
      exact ⟨i, hi, (hsame i hi).trans hc⟩
    · rintro ⟨i, hi, hc⟩
      exact ⟨i, hi, (hsame i hi).symm.trans hc⟩

/-- Removing ends the life of the container if it was initialised. -/
theorem Lazy.remove (h : Lazy s) (index : Nat) :
    Lazy (s.1.perform (.removeContainer index), s.2 ++ s.1.note (.removeContainer index)) := by
  obtain ⟨hstored, hset, hnote⟩ := h.inv.removeContainer index
  have hdistinct : ∀ i j c, (s.1.perform (.removeContainer index)).stored i = some c →
      (s.1.perform (.removeContainer index)).stored j = some c → i = j := by
    intro i j c hi hj
    rw [hstored] at hi hj
    split at hi
    · cases hi
    · split at hj
      · cases hj
      · exact h.distinct i j c hi hj
  -- what is left in the set is stored as before
  have hleft (c : ContainerId) : (∃ i ∈ (s.1.perform (.removeContainer index)).m_initializedMap,
      (s.1.perform (.removeContainer index)).stored i = some c) ↔
        ∃ i ∈ s.1.m_initializedMap, i ≠ index ∧ s.1.stored i = some c := by
    rw [hset]
    constructor
    · rintro ⟨i, hi, hc⟩
      obtain ⟨hne, hi⟩ := h.inv.nodup.mem_erase_iff.mp hi
      rw [hstored, if_neg hne] at hc
      exact ⟨i, hi, hne, hc⟩
    · rintro ⟨i, hi, hne, hc⟩
      exact ⟨i, h.inv.nodup.mem_erase_iff.mpr ⟨hne, hi⟩, by rw [hstored, if_neg hne]; exact hc⟩
  by_cases hmem : index ∈ s.1.m_initializedMap
  · -- an initialised container is deinitialised, which closes it and no other
    obtain ⟨c₀, hc₀⟩ := Option.ne_none_iff_exists'.mp
      (stored_ne_none_iff.mpr (h.inv.registered index hmem))
    have hopen : IsOpen s.2 c₀ := (h.isOpen c₀).mpr ⟨index, hmem, hc₀⟩
    rw [if_pos hmem, hc₀] at hnote
    rw [hnote]
    refine ⟨h.inv.perform (.removeContainer index), hdistinct, fun c => ?_, ?_⟩
    · rw [hleft]
      show IsOpen (s.2 ++ [.deinit c₀]) c ↔ _
      rw [isOpen_concat, h.isOpen c]
      constructor
      · rintro (⟨-, hinit⟩ | ⟨hne, i, hi, hc⟩)
        · cases hinit
        · refine ⟨i, hi, ?_, hc⟩
          rintro rfl
          exact hne (Option.some.inj (hc₀.symm.trans hc))
      · rintro ⟨i, hi, hne, hc⟩
        refine Or.inr ⟨?_, i, hi, hc⟩
        rintro rfl
        exact hne (h.distinct i index _ hc hc₀)
    · refine alternates_callsOf_concat h.alternates ?_
      exact iff_of_false Bool.false_ne_true fun hnot => hnot hopen
  · -- a container that was never acquired hears nothing
    rw [if_neg hmem] at hnote
    rw [hnote, List.append_nil]
    refine ⟨h.inv.perform (.removeContainer index), hdistinct, fun c => ?_, h.alternates⟩
    rw [hleft, h.isOpen c]
    constructor
    · rintro ⟨i, hi, hc⟩
      refine ⟨i, hi, ?_, hc⟩
      rintro rfl
      exact hmem hi
    · rintro ⟨i, hi, -, hc⟩
      exact ⟨i, hi, hc⟩

/-- Acquiring starts the life of a container unless it has started, and opens no other one. -/
theorem Lazy.acquire (h : Lazy s) (index : Nat) (returned : ReturnStatus) :
    Lazy (s.1.perform (.acquireContainer index returned),
      s.2 ++ s.1.note (.acquireContainer index returned)) := by
  cases hc₀ : s.1.stored index with
  | none =>
      -- an unknown index leaves everything as it is
      obtain ⟨-, hsame, hnote⟩ := acquireContainer_of_not_stored hc₀ returned
      rw [hsame, hnote, List.append_nil]
      exact h
  | some c₀ =>
      obtain ⟨-, hup, hset, hnote⟩ := acquireContainer_of_stored hc₀ returned
      have hstored (i : Nat) :
          (s.1.perform (.acquireContainer index returned)).stored i = s.1.stored i := by
        rw [stored, hup]
        rfl
      have hdistinct : ∀ i j c, (s.1.perform (.acquireContainer index returned)).stored i = some c →
          (s.1.perform (.acquireContainer index returned)).stored j = some c → i = j := by
        intro i j c hi hj
        rw [hstored] at hi hj
        exact h.distinct i j c hi hj
      by_cases hmem : index ∈ s.1.m_initializedMap
      · rw [if_pos hmem] at hnote
        rw [hnote, List.append_nil]
        -- acquired before: no further `init`
        refine ⟨h.inv.perform (.acquireContainer index returned), hdistinct, fun c => ?_, h.alternates⟩
        rw [h.isOpen c]
        constructor
        · rintro ⟨i, hi, hc⟩
          exact ⟨i, (hset i).mpr (Or.inr hi), (hstored i).trans hc⟩
        · rintro ⟨i, hi, hc⟩
          rw [hstored] at hc
          rcases (hset i).mp hi with rfl | hi
          · exact ⟨i, hmem, hc⟩
          · exact ⟨i, hi, hc⟩
      · rw [if_neg hmem] at hnote
        -- the container is stored under no other index, so it was not open
        have hclosed : ¬ IsOpen s.2 c₀ := by
          rw [h.isOpen]
          rintro ⟨i, hi, hc⟩
          rw [h.distinct i index c₀ hc hc₀] at hi
          exact hmem hi
        rw [hnote]
        refine ⟨h.inv.perform (.acquireContainer index returned), hdistinct, fun c => ?_, ?_⟩
        · show IsOpen (s.2 ++ [.init c₀ returned]) c ↔ _
          rw [isOpen_concat, h.isOpen c]
          constructor
          · rintro (⟨rfl, -⟩ | ⟨-, i, hi, hc⟩)
            · exact ⟨index, (hset index).mpr (Or.inl rfl), (hstored index).trans hc₀⟩
            · exact ⟨i, (hset i).mpr (Or.inr hi), (hstored i).trans hc⟩
          · rintro ⟨i, hi, hc⟩
            rw [hstored] at hc
            rcases (hset i).mp hi with rfl | hi
            · exact Or.inl ⟨Option.some.inj (hc₀.symm.trans hc), rfl⟩
            · refine Or.inr ⟨?_, i, hi, hc⟩
              rintro rfl
              exact hclosed ((h.isOpen _).mpr ⟨i, hi, hc⟩)
        · refine alternates_callsOf_concat h.alternates ?_
          exact iff_of_true rfl hclosed

/-- **One call keeps the protocol.** -/
theorem Lazy.step {call : InitializerCall} (h : Lazy s) (hcall : AddsDistinct s call)
    (hstep : lived s call = some s') : Lazy s' := by
  rw [lived_eq_some hstep]
  cases call with
  | addContainer index c =>
      show Lazy (_, s.2 ++ [])
      rw [List.append_nil]
      exact h.add hcall
  | removeContainer index => exact h.remove index
  | acquireContainer index returned => exact h.acquire index returned
  | reclaimContainer c =>
      show Lazy (_, s.2 ++ [])
      rw [List.append_nil]
      exact h

/-- The container that a call adds. -/
def added : InitializerCall → Option ContainerId
  | .addContainer _ container => some container
  | _ => none

/-- A call stores nothing but what it adds. -/
theorem Inv.stored_perform (h : Inv p) {call : InitializerCall}
    (hc : (p.perform call).stored i = some c) : p.stored i = some c ∨ added call = some c := by
  cases call with
  | addContainer index c' =>
      have hstored : (p.perform (.addContainer index c')).stored i =
          if p.stored index = none ∧ i = index then some c' else p.stored i := stored_addContainer
      rw [hstored] at hc
      split at hc
      · exact Or.inr hc
      · exact Or.inl hc
  | removeContainer index =>
      rw [(h.removeContainer index).1 i] at hc
      split at hc
      · cases hc
      · exact Or.inl hc
  | acquireContainer index returned =>
      cases hc₀ : p.stored index with
      | none =>
          rw [(acquireContainer_of_not_stored hc₀ returned).2.1] at hc
          exact Or.inl hc
      | some c₀ =>
          obtain ⟨-, hup, -⟩ := acquireContainer_of_stored hc₀ returned
          rw [stored, hup] at hc
          exact Or.inl hc
  | reclaimContainer c' => exact Or.inl hc

/-- Containers that are pairwise distinct are in particular not stored when they are added. -/
theorem guarded_of_nodup {calls : List InitializerCall} (h : (calls.filterMap added).Nodup) :
    Guarded lived AddsDistinct (empty, []) calls := by
  suffices hgen : ∀ s : ProcessorInitializer × List LifecycleCall, Inv s.1 →
      (∀ i c, s.1.stored i = some c → c ∉ calls.filterMap added) → Guarded lived AddsDistinct s calls from
    hgen _ inv_empty fun i c hc => by cases hc
  induction calls with
  | nil => exact fun _ _ _ => trivial
  | cons call calls ih =>
      intro s hinv hfresh
      have hrest : (calls.filterMap added).Nodup := h.sublist ((List.sublist_cons_self _ _).filterMap _)
      refine ⟨?_, fun s' hs' => ?_⟩
      · cases call with
        | addContainer index c =>
            intro i hc
            exact hfresh i c hc List.mem_cons_self
        | removeContainer index => exact trivial
        | acquireContainer index returned => exact trivial
        | reclaimContainer c => exact trivial
      · rw [lived_eq_some hs']
        refine ih hrest _ (hinv.perform call) fun i c hc hmem => ?_
        rcases hinv.stored_perform hc with hold | hnew
        · refine hfresh i c hold ?_
          exact ((List.sublist_cons_self call calls).filterMap added).subset hmem
        · rw [List.filterMap_cons_some hnew] at h
          exact (List.nodup_cons.mp h).1 hmem

/-- **Lazy initialisation**: after every sequence of calls in which no container is added while it is stored
(`guarded_of_nodup`), what is in the set is stored; each container's calls of `init` and `deinit` take turns;
a container that is handed out is the one stored there, and was initialised last; one that is not stored is
not initialised; and asking for what is not stored throws and changes nothing. -/
theorem lazy_init_protocol {calls : List InitializerCall} {p : ProcessorInitializer}
    {log : List LifecycleCall} (hcalls : Guarded lived AddsDistinct (empty, []) calls)
    (hrun : run lived (empty, []) calls = some (p, log)) :
    (∀ i ∈ p.m_initializedMap, i ∈ p.registered) ∧
    (∀ c, Alternates LifecycleCall.isInit (callsOf log c)) ∧
    (∀ i returned p' c, (p.acquireContainer i).result = .ok (p', c) →
      p.stored i = some c ∧ p'.m_upstream = p.m_upstream ∧
        IsOpen (log ++ p.note (.acquireContainer i returned)) c) ∧
    (∀ c, (∀ i, p.stored i ≠ some c) → ¬ IsOpen log c) ∧
    (∀ i, i ∉ p.registered →
      p.acquireContainer i = .fault .outOfRange ∧ p.afterAcquire i = p) := by
  -- everything follows from the invariant at the end of the run
  have h : Lazy (p, log) :=
    guarded_invariant (fun _ _ _ hs hcall hstep => hs.step hcall hstep) lazy_empty hrun hcalls
  refine ⟨h.inv.registered, h.alternates, ?_, fun c hgone hopen => ?_, fun i hi => ?_⟩
  · intro i returned p' c hresult
    cases hc₀ : p.stored i with
    | none =>
        rw [(acquireContainer_of_not_stored hc₀ returned).1] at hresult
        cases hresult
    | some c₀ =>
        obtain ⟨hresult₁, hup, hset, -⟩ := acquireContainer_of_stored hc₀ returned
        rw [hresult₁] at hresult
        cases hresult
        refine ⟨rfl, hup, ((h.acquire i returned).isOpen c).mpr ⟨i, (hset i).mpr (Or.inl rfl), ?_⟩⟩
        show (p.perform (.acquireContainer i returned)).m_upstream.m_containers.lookup i = some c
        rw [hup]
        exact hc₀
  · obtain ⟨i, -, hc⟩ := (h.isOpen c).mp hopen
    exact hgone i hc
  · have hnone : p.stored i = none := by
      by_contra hne
      exact hi (stored_ne_none_iff.mp hne)
    exact ⟨(acquireContainer_of_not_stored hnone .kOk).1, afterAcquire_of_not_mem hi⟩

/-- An index that is used again, after an attempt to take it while it was in use. -/
theorem lazy_init_protocol_reused :
    ∃ p log, run lived (empty, []) [.addContainer 0 7, .acquireContainer 0 .kOk, .addContainer 0 8,
        .removeContainer 0, .addContainer 0 9, .acquireContainer 0 .kOk] = some (p, log) ∧
      p.stored 0 = some 9 ∧ (∀ i ∈ p.m_initializedMap, i ∈ p.registered) ∧ ¬ IsOpen log 7 := by
  have hdistinct : ([.addContainer 0 7, .acquireContainer 0 .kOk, .addContainer 0 8, .removeContainer 0,
      .addContainer 0 9, .acquireContainer 0 .kOk].filterMap added).Nodup := by decide
  refine ⟨_, _, rfl, rfl, ?_⟩
  obtain ⟨hsubset, -, -, hgone, -⟩ := lazy_init_protocol (guarded_of_nodup hdistinct) rfl
  refine ⟨hsubset, hgone 7 fun i hi => ?_⟩
  cases i with
  | zero => exact absurd hi (by decide)
  | succ i => exact absurd hi (Option.some_ne_none 7).symm

/-! ## A failed `init` -/

/-- The set is right about success: an index is in it only if the last `init` of its container returned `kOk`;
where it failed, asking for the container calls `init` again; and `deinit` was only called after an `init`
that succeeded. -/
structure Remembers (s : ProcessorInitializer × List LifecycleCall) : Prop where
  initialized : ∀ i ∈ s.1.m_initializedMap, ∀ c, s.1.stored i = some c → lastInit s.2 c = some .kOk
  retried : ∀ i c status, s.1.stored i = some c → lastInit s.2 c = some status → status ≠ .kOk →
    ∀ returned, s.1.note (.acquireContainer i returned) = [.init c returned]
  deinits : Justified (fun before e => ∀ c, e = .deinit c → lastInit before c = some .kOk) s.2

/-- If the call makes the provider call `init`, that succeeds. -/
def InitSucceeds (s : ProcessorInitializer × List LifecycleCall) : InitializerCall → Prop
  | .acquireContainer index returned =>
      s.1.stored index ≠ none → index ∉ s.1.m_initializedMap → returned = .kOk
  | _ => True

/-- What has failed is tried again because it is not in the set. -/
theorem retried_of_initialized
    (h : ∀ i ∈ s.1.m_initializedMap, ∀ c, s.1.stored i = some c → lastInit s.2 c = some .kOk)
    {status : ReturnStatus} (hc : s.1.stored i = some c) (hlast : lastInit s.2 c = some status)
    (hfailed : status ≠ .kOk) (returned : ReturnStatus) :
    s.1.note (.acquireContainer i returned) = [.init c returned] := by
  obtain ⟨-, -, -, hnote⟩ := acquireContainer_of_stored hc returned
  rw [hnote, if_neg]
  intro hmem
  have hok := h i hmem c hc
  rw [hlast] at hok
  exact hfailed (Option.some.inj hok)

/-- What has failed need not be looked at again. -/
theorem remembers_of
    (hset : ∀ i ∈ s.1.m_initializedMap, ∀ c, s.1.stored i = some c → lastInit s.2 c = some .kOk)
    (hdeinits : Justified (fun before e => ∀ c, e = .deinit c → lastInit before c = some .kOk) s.2) :
    Remembers s where
  initialized := hset
  retried := fun _ _ _ hc hlast hfailed => retried_of_initialized hset hc hlast hfailed
  deinits := hdeinits

theorem remembers_empty : Remembers (empty, []) :=
  remembers_of (fun _ hi => absurd hi List.not_mem_nil) justified_nil

/-- Adding leaves what is in the set where it is. -/
theorem Remembers.add (hinv : Inv s.1) (h : Remembers s) (index : Nat) (c : ContainerId) :
    Remembers (s.1.perform (.addContainer index c), s.2) := by
  refine remembers_of (fun i hi c' hc => ?_) h.deinits
  have hstored : (s.1.perform (.addContainer index c)).stored i =
      if s.1.stored index = none ∧ i = index then some c else s.1.stored i := stored_addContainer
  rw [hstored, if_neg] at hc
  · exact h.initialized i hi c' hc
  · rintro ⟨hnone, rfl⟩
    exact stored_ne_none_iff.mpr (hinv.registered i hi) hnone

/-- Removing may call `deinit`, of a container in the set. -/
theorem Remembers.remove (hinv : Inv s.1) (h : Remembers s) (index : Nat) :
    Remembers (s.1.perform (.removeContainer index), s.2 ++ s.1.note (.removeContainer index)) := by
  obtain ⟨hstored, herase, hnote⟩ := hinv.removeContainer index
  -- the log is as before, or goes on with one `deinit`
  have hlog : s.1.note (.removeContainer index) = [] ∨
      ∃ c, s.1.note (.removeContainer index) = [.deinit c] ∧ index ∈ s.1.m_initializedMap ∧
        s.1.stored index = some c := by
    rw [hnote]
    split
    · next hmem =>
      cases s.1.stored index with
      | none => exact Or.inl rfl
      | some c => exact Or.inr ⟨c, rfl, hmem, rfl⟩
    · exact Or.inl rfl
  -- a `deinit` does not change which `init` was the last
  have hlast (c : ContainerId) :
      lastInit (s.2 ++ s.1.note (.removeContainer index)) c = lastInit s.2 c := by
    rcases hlog with hnil | ⟨c₀, hdeinit, -, -⟩
    · rw [hnil, List.append_nil]
    · rw [hdeinit, lastInit_deinit]
  refine remembers_of (fun i hi c hc => ?_) ?_
  · rw [herase] at hi
    rw [hstored] at hc
    rw [hlast]
    split at hc
    · cases hc
    · exact h.initialized i (List.mem_of_mem_erase hi) c hc
  · rcases hlog with hnil | ⟨c₀, hdeinit, hmem, hc₀⟩
    · rw [hnil, List.append_nil]
      exact h.deinits
    · rw [hdeinit]
      refine justified_concat h.deinits fun c heq => ?_
      cases heq
      exact h.initialized index hmem _ hc₀

/-- Handing out what is in the set calls nothing. -/
theorem Remembers.again (h : Remembers s) (hc : s.1.stored index = some c)
    (hmem : index ∈ s.1.m_initializedMap) (returned : ReturnStatus) :
    Remembers (s.1.perform (.acquireContainer index returned),
      s.2 ++ s.1.note (.acquireContainer index returned)) := by
  obtain ⟨-, hup, hset, hnote⟩ := acquireContainer_of_stored hc returned
  rw [hnote, if_pos hmem, List.append_nil]
  refine remembers_of (fun i hi c' hc' => ?_) h.deinits
  rw [stored, hup] at hc'
  rcases (hset i).mp hi with rfl | hi
  · exact h.initialized i hmem c' hc'
  · exact h.initialized i hi c' hc'

/-- The first time, `init` is called; the set is right afterwards if it succeeds, and only then. -/
theorem remembers_init_iff (h : Remembers s) (hc : s.1.stored index = some c)
    (hmem : index ∉ s.1.m_initializedMap) (returned : ReturnStatus) :
    Remembers (s.1.perform (.acquireContainer index returned),
      s.2 ++ s.1.note (.acquireContainer index returned)) ↔ returned = .kOk := by
  obtain ⟨-, hup, hset, hnote⟩ := acquireContainer_of_stored hc returned
  have hstored (i : Nat) :
      (s.1.perform (.acquireContainer index returned)).stored i = s.1.stored i := by
    rw [stored, hup]
    rfl
  rw [hnote, if_neg hmem]
  constructor
  · intro hnew
    have hok := hnew.initialized index ((hset index).mpr (Or.inl rfl)) c ((hstored index).trans hc)
    rw [lastInit_init, if_pos rfl] at hok
    exact Option.some.inj hok
  · rintro rfl
    -- it has succeeded: the last `init` of the container is this one
    refine remembers_of (fun i hi c' hc' => ?_) (justified_concat h.deinits fun c' heq => by cases heq)
    have hbefore : s.1.stored i = some c' := (hstored i).symm.trans hc'
    rw [lastInit_init]
    split
    · rfl
    · next hne =>
      rcases (hset i).mp hi with rfl | hi
      · exact absurd (Option.some.inj (hc.symm.trans hbefore)) hne
      · exact h.initialized i hi c' hbefore

/-- **One call remembers rightly** just when the `init` that it causes, if any, succeeds. -/
theorem remembers_step_iff {call : InitializerCall} (hinv : Inv s.1) (h : Remembers s)
    (hstep : lived s call = some s') : Remembers s' ↔ InitSucceeds s call := by
  rw [lived_eq_some hstep]
  cases call with
  | addContainer index c =>
      refine iff_of_true ?_ trivial
      show Remembers (_, s.2 ++ [])
      rw [List.append_nil]
      exact h.add hinv index c
  | removeContainer index => exact iff_of_true (h.remove hinv index) trivial
  | acquireContainer index returned =>
      cases hc : s.1.stored index with
      | none =>
          -- nothing is initialised, so nothing can fail
          obtain ⟨-, hsame, hnote⟩ := acquireContainer_of_not_stored hc returned
          refine iff_of_true ?_ fun hne => absurd hc hne
          rw [hsame, hnote, List.append_nil]
          exact h
      | some c =>
          by_cases hmem : index ∈ s.1.m_initializedMap
          · exact iff_of_true (h.again hc hmem returned) fun _ hnot => absurd hmem hnot
          · rw [remembers_init_iff h hc hmem returned]
            have hne : s.1.stored index ≠ none := by
              rw [hc]
              exact Option.some_ne_none c
            exact ⟨fun hok _ _ => hok, fun hsucceeds => hsucceeds hne hmem⟩
  | reclaimContainer c =>
      refine iff_of_true ?_ trivial
      show Remembers (_, s.2 ++ [])
      rw [List.append_nil]
      exact h

/-- **The set is right about success in every state of a run**, exactly when every `init` that the provider
calls in it succeeds: the set is filled before the status is there, and the status is dropped. -/
theorem failed_init_iff (calls : List InitializerCall) :
    Throughout lived Remembers (empty, []) calls ↔ Guarded lived InitSucceeds (empty, []) calls := by
  obtain ⟨s', hrun⟩ := exists_lived (empty, []) calls
  refine throughout_iff_of_invariant (I := fun s => Inv s.1) ?_ ?_ inv_empty remembers_empty hrun
  · intro s call s' hinv hstep
    rw [lived_eq_some hstep]
    exact hinv.perform call
  · intro s call s' hinv h hstep
    exact remembers_step_iff hinv h hstep

/-- A model file is missing, and the container counts as initialised. -/
theorem failed_init_in_set :
    ¬ Throughout lived Remembers (empty, []) [.addContainer 0 7, .acquireContainer 0 .kAborted] := by
  rintro ⟨-, h₁⟩
  obtain ⟨-, h₂⟩ := h₁ _ rfl
  exact absurd ((h₂ _ rfl).initialized 0 (by decide) 7 rfl) (by decide)

end ProcessorInitializer

end LimbWorker.ImageService
