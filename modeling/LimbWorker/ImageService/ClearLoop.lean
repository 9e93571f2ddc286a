import LimbWorker.ImageService.LazyInit

/-!
# The loop of `clear`

`ProcessorInitializer::clear` with the iterator of its range-based loop. An iterator of a `std::set` points at
an element, or past the last one; it can be advanced as long as its element has not been erased. The body of
the loop is `deinitContainer`, and that erases the very element the iterator points at.
-/

namespace LimbWorker.ImageService

open Lib

/-! ## Iterators -/

/-- `++it` on an ascending list: the next larger element, or the end (`some none`); `none` where the element of
the iterator has been erased. -/
def advance (set : List Nat) (it : Nat) : Option (Option Nat) :=
  if it ∈ set then some (set.find? fun i => it < i) else none

/-- `begin()`. -/
def begin (set : List Nat) : Option Nat := set.head?

theorem advance_of_not_mem {set : List Nat} {it : Nat} (h : it ∉ set) : advance set it = none := if_neg h

/-! ## The loop -/

/-- Where `clear` is: before the test of the loop, in its body, before the iterator is advanced, after the
loop, or done. -/
inductive ClearPc where
  | test (it : Option Nat)
  | body (it : Nat)
  | advance (it : Nat)
  | upstream
  | returned
  | faulted (fault : Fault)
  deriving DecidableEq, Repr

/-- `clear` under way, with the calls it has made. -/
structure ClearState where
  provider : ProcessorInitializer
  pc : ClearPc
  calls : List ContainerCall

namespace ClearState

/-- `clear` is called. -/
def start (p : ProcessorInitializer) : ClearState := ⟨p, .test (begin p.m_initializedMap), []⟩

/-- The next thing that `clear` does. -/
def step (s : ClearState) (_ : Unit) : Option ClearState :=
  match s.pc with
  | .test none => some { s with pc := .upstream }
  | .test (some it) => some { s with pc := .body it }
  | .body it =>
      let body := s.provider.deinitContainer it
      match body.result with
      | .ok p => some ⟨p, .advance it, s.calls ++ body.events⟩
      | .error fault => some ⟨s.provider, .faulted fault, s.calls ++ body.events⟩
  | .advance it =>
      match LimbWorker.ImageService.advance s.provider.m_initializedMap it with
      | some it' => some { s with pc := .test it' }
      | none => some { s with pc := .faulted .undefinedBehaviour }
  | .upstream => some { s with provider := { s.provider with m_upstream := .empty }, pc := .returned }
  | .returned => none
  | .faulted _ => none

end ClearState

namespace ProcessorInitializer

/-- What `clear` has to do: `deinit` once for every index of the set, and nothing else. -/
def deinits (p : ProcessorInitializer) : List ContainerCall :=
  p.m_initializedMap.filterMap fun i => (p.stored i).map .deinit

/-- `clear` never does anything undefined; it returns, with the set and the storage empty, after one `deinit`
for every initialised index. -/
structure ClearsSafely (p : ProcessorInitializer) : Prop where
  defined : ∀ s, Reachable ClearState.step (.start p) s → ∀ fault, s.pc ≠ .faulted fault
  returns : ∃ s, Reachable ClearState.step (.start p) s ∧ s.pc = .returned ∧
    s.provider.m_initializedMap = [] ∧ s.provider.m_upstream.m_containers = [] ∧ s.calls.Perm p.deinits

variable {p : ProcessorInitializer}

/-- Deinitialising what is in the set. -/
theorem Inv.deinitContainer_of_mem (hinv : Inv p) {index : Nat} (h : index ∈ p.m_initializedMap) :
    p.deinitContainer index = ⟨((p.stored index).map .deinit).toList,
      .ok { p with m_initializedMap := p.m_initializedMap.erase index }⟩ := by
  obtain ⟨c, hc⟩ := Option.ne_none_iff_exists'.mp (stored_ne_none_iff.mpr (hinv.registered index h))
  rw [deinitContainer, if_pos h, acquire_of_stored hc, hc]
  rfl

/-- `clear` as it is meant, visiting each index once, does just that. -/
theorem Inv.clear_eq (hinv : Inv p) : p.clear = ⟨p.deinits, .ok .empty⟩ := by
  -- the loop runs over the set as it was, while the set shrinks with it
  suffices hloop : ∀ indices : List Nat, ∀ q : ProcessorInitializer, Inv q →
      q.m_initializedMap = indices → indices.foldlM ProcessorInitializer.deinitContainer q =
        ⟨q.deinits, .ok { q with m_initializedMap := [] }⟩ by
    rw [ProcessorInitializer.clear, hloop _ p hinv rfl, Traced.ok_bind, Traced.events_pure, List.append_nil]
    rfl
  intro indices
  induction indices with
  | nil =>
      intro q _ hset
      rw [deinits, hset]
      obtain ⟨set, upstream⟩ := q
      cases hset
      rfl
  | cons index rest ih =>
      intro q hq hset
      have hmem : index ∈ q.m_initializedMap := by
        rw [hset]
        exact List.mem_cons_self
      -- the first index of the loop is the first of the set
      have hrest : q.m_initializedMap.erase index = rest := by
        rw [hset, List.erase_cons_head]
      rw [List.foldlM_cons, hq.deinitContainer_of_mem hmem, Traced.ok_bind,
        ih { q with m_initializedMap := q.m_initializedMap.erase index } (hq.of_erase rfl rfl) hrest]
      have hdeinits : q.deinits = ((q.stored index).map .deinit).toList ++
          rest.filterMap fun i => (q.stored i).map .deinit := by
        rw [deinits, hset, List.filterMap_cons]
        cases (q.stored index).map ContainerCall.deinit with
        | none => rfl
        | some e => rfl
      rw [hdeinits]
      refine congrArg (fun es => (⟨_ ++ es, _⟩ : Service ProcessorInitializer)) ?_
      rw [deinits]
      show (q.m_initializedMap.erase index).filterMap _ = _
      rw [hrest]
      rfl

/-- Without an initialised index the loop ends where it begins. -/
theorem clearsSafely_of_nil (h : p.m_initializedMap = []) : ClearsSafely p := by
  have hstart : (ClearState.start p).pc = .test none := by
    rw [ClearState.start, h]
    rfl
  constructor
  · intro s hs fault hfault
    have hpc : s.pc = .test none ∨ s.pc = .upstream ∨ s.pc = .returned := by
      -- the first test ends the loop, so no iterator is ever followed
      refine Reachable.invariant (I := fun s : ClearState =>
        s.pc = .test none ∨ s.pc = .upstream ∨ s.pc = .returned) ?_ (Or.inl hstart) hs
      rintro s a s' (hpc | hpc | hpc) hstep
      · rw [ClearState.step, hpc] at hstep
        cases hstep
        exact Or.inr (Or.inl rfl)
      · rw [ClearState.step, hpc] at hstep
        cases hstep
        exact Or.inr (Or.inr rfl)
      · rw [ClearState.step, hpc] at hstep
        cases hstep
    rw [hfault] at hpc
    rcases hpc with hpc | hpc | hpc
    · cases hpc
    · cases hpc
    · cases hpc
  · have hnone : p.deinits = [] := by rw [deinits, h, List.filterMap_nil]
    have hbegin : ClearState.start p = ⟨p, .test none, []⟩ := by
      rw [ClearState.start, h]
      rfl
    refine ⟨⟨{ p with m_upstream := .empty }, .returned, []⟩, ?_, rfl, h, rfl, by rw [hnone]⟩
    rw [hbegin]
    have h₁ : ClearState.step ⟨p, .test none, []⟩ () = some ⟨p, .upstream, []⟩ := rfl
    exact (Reachable.single h₁).tail (a := ()) rfl

/-- With one, the first pass of the loop erases the element that its iterator points at. -/
theorem faults_of_cons {index : Nat} {rest : List Nat} (hinv : Inv p)
    (h : p.m_initializedMap = index :: rest) :
    ∃ s, Reachable ClearState.step (.start p) s ∧ s.pc = .faulted .undefinedBehaviour := by
  have hbegin : ClearState.start p = ⟨p, .test (some index), []⟩ := by
    rw [ClearState.start, h]
    rfl
  obtain ⟨p', hdeinit, -, herase⟩ := hinv.deinit index
  have htest : ClearState.step ⟨p, .test (some index), []⟩ () = some ⟨p, .body index, []⟩ := rfl
  have hbody : ClearState.step ⟨p, .body index, []⟩ () =
      some ⟨p', .advance index, (p.deinitContainer index).events⟩ := by
    simp only [ClearState.step]
    rw [hdeinit]
    rfl
  have hgone : index ∉ p'.m_initializedMap := by
    rw [herase]
    exact hinv.nodup.not_mem_erase
  have hadvance : ClearState.step ⟨p', .advance index, (p.deinitContainer index).events⟩ () =
      some ⟨p', .faulted .undefinedBehaviour, (p.deinitContainer index).events⟩ := by
    simp only [ClearState.step]
    rw [advance_of_not_mem hgone]
  refine ⟨⟨p', .faulted .undefinedBehaviour, (p.deinitContainer index).events⟩, ?_, rfl⟩
  rw [hbegin]
  exact ((Reachable.single htest).tail hbody).tail hadvance

theorem Inv.of_reachable (h : Reachable callStep empty p) : Inv p := by
  refine Reachable.invariant (fun s call s' hs hstep => ?_) inv_empty h
  cases hstep
  exact hs.perform call

/-- **`clear` is safe** just when no index is initialised: for every state that adding, acquiring and removing
can lead to. -/
theorem clear_safe_iff (h : Reachable callStep empty p) : ClearsSafely p ↔ p.m_initializedMap = [] := by
  constructor
  · intro hsafe
    cases hset : p.m_initializedMap with
    | nil => rfl
    | cons index rest =>
        obtain ⟨s, hs, hfault⟩ := faults_of_cons (Inv.of_reachable h) hset
        exact absurd hfault (hsafe.defined s hs .undefinedBehaviour)
  · exact clearsSafely_of_nil

/-- A provider with one container that was never asked for. -/
theorem clear_safe_iff_stored :
    ∃ p, Reachable callStep empty p ∧ p.processorCount = 1 ∧ ClearsSafely p := by
  have hreach : Reachable callStep empty (empty.perform (.addContainer 0 7)) :=
    Reachable.single (a := .addContainer 0 7) rfl
  exact ⟨_, hreach, rfl, (clear_safe_iff hreach).mpr rfl⟩

/-- One container in use: the iterator is advanced after its element was erased. -/
theorem clear_of_initialized_undefined :
    ∃ p, Reachable callStep empty p ∧ p.m_initializedMap = [0] ∧ ¬ ClearsSafely p := by
  have hreach : Reachable callStep empty
      ((empty.perform (.addContainer 0 7)).perform (.acquireContainer 0 .kOk)) :=
    (Reachable.single (a := .addContainer 0 7) rfl).tail (a := .acquireContainer 0 .kOk) rfl
  refine ⟨_, hreach, rfl, fun hsafe => ?_⟩
  obtain ⟨s, hs, hfault⟩ := faults_of_cons (Inv.of_reachable hreach) rfl
  exact hsafe.defined s hs .undefinedBehaviour hfault

end ProcessorInitializer

end LimbWorker.ImageService
