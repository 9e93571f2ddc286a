import LimbWorker.Registries

/-!
# Parallel requests and the initialisation of their container

Several threads run `ImageService::processImage` for the same model. Each goes through the steps of
`ProcessorInitializer::acquireContainer` (looking the container up, asking whether its index is initialised,
marking it, and running `init`) and then asks the container for a processor. Nothing is locked, and the index
is marked before `init` runs.

So a second request may find the index unmarked between the question and the mark of the first, and may find it
marked while `init` is still running. These are the only two ways in which it goes wrong.
-/

namespace LimbWorker

open ImageService Lib

/-- What a container sees, and from which request. -/
inductive ContainerEvent (ι : Type) where
  | initStarted (r : ι) (c : ContainerId)
  | initReturned (r : ι) (c : ContainerId)
  | tryAcquireProcessor (r : ι) (c : ContainerId)
  deriving DecidableEq

/-- The next step of a request, from `getContainer` on. -/
inductive RequestPc where
  | getContainer
  | contains (container : ContainerId)
  | insert (container : ContainerId)
  | startInit (container : ContainerId)
  | endInit (container : ContainerId)
  | tryAcquireProcessor (container : ContainerId)
  | done
  deriving DecidableEq

/-- The container that a request holds. -/
def RequestPc.container : RequestPc → Option ContainerId
  | .getContainer => none
  | .contains c => some c
  | .insert c => some c
  | .startInit c => some c
  | .endInit c => some c
  | .tryAcquireProcessor c => some c
  | .done => none

/-- The container provider that the requests share, where each of them is, and what happened. -/
structure ParallelState (ι : Type) where
  m_processorProvider : ProcessorInitializer
  pc : ι → RequestPc
  events : List (ContainerEvent ι)

namespace ParallelState

variable {ι : Type} [DecidableEq ι]

/-- Requests that have not asked for a container yet. -/
def start (m_processorProvider : ProcessorInitializer) : ParallelState ι :=
  ⟨m_processorProvider, fun _ => .getContainer, []⟩

/-- Request `r` goes on to `pc`. -/
def goto (s : ParallelState ι) (r : ι) (pc : RequestPc) : ParallelState ι :=
  { s with pc := Function.update s.pc r pc }

/-- Something happened. -/
def log (s : ParallelState ι) (e : ContainerEvent ι) : ParallelState ι :=
  { s with events := s.events ++ [e] }

/-- `m_initializedMap.insert(index)`. -/
def markInitialized (s : ParallelState ι) (index : Nat) : ParallelState ι :=
  { s with m_processorProvider := { s.m_processorProvider with
      m_initializedMap :=
        if index ∈ s.m_processorProvider.m_initializedMap then s.m_processorProvider.m_initializedMap
        else s.m_processorProvider.m_initializedMap.orderedInsert (· ≤ ·) index } }

/-- One step of request `r` for model `index`. Where the lookup throws the request ends. -/
def step (index : Nat) (s : ParallelState ι) (r : ι) : Option (ParallelState ι) :=
  match s.pc r with
  | .getContainer =>
      match (s.m_processorProvider.m_upstream.acquireContainer index).result with
      | .ok container => some (s.goto r (.contains container))
      | .error _ => some (s.goto r .done)
  | .contains container =>
      if index ∈ s.m_processorProvider.m_initializedMap then
        some (s.goto r (.tryAcquireProcessor container))
      else some (s.goto r (.insert container))
  | .insert container => some ((s.markInitialized index).goto r (.startInit container))
  | .startInit container => some ((s.log (.initStarted r container)).goto r (.endInit container))
  | .endInit container =>
      some ((s.log (.initReturned r container)).goto r (.tryAcquireProcessor container))
  | .tryAcquireProcessor container =>
      some ((s.log (.tryAcquireProcessor r container)).goto r .done)
  | .done => none

/-! ## What is asked for -/

/-- The requests that ran `init` of the container. -/
def inits (c : ContainerId) (events : List (ContainerEvent ι)) : List ι :=
  events.filterMap fun
    | .initStarted r c' => if c' = c then some r else none
    | _ => none

/-- The requests in which it returned. -/
def returns (c : ContainerId) (events : List (ContainerEvent ι)) : List ι :=
  events.filterMap fun
    | .initReturned r c' => if c' = c then some r else none
    | _ => none

/-- `init` is called once: never twice, and before a processor is asked for it was called and has
returned. -/
structure InitOnce (c : ContainerId) (events : List (ContainerEvent ι)) : Prop where
  at_most_once : (inits c events).length ≤ 1
  exactly_once : ∀ r, .tryAcquireProcessor r c ∈ events → (inits c events).length = 1
  returned_first : ∀ r pre post, events = pre ++ .tryAcquireProcessor r c :: post →
    returns c pre ≠ []

/-- The condition on a step: a request that finds the index unmarked finds no other between its own question
and its mark, and one that asks for a processor finds no other in `init` or about to run it. -/
def Undisturbed (index : Nat) (s : ParallelState ι) (r : ι) : Prop :=
  match s.pc r with
  | .contains _ =>
      index ∉ s.m_processorProvider.m_initializedMap →
        ∀ r', r' ≠ r → ∀ container, s.pc r' ≠ .insert container
  | .tryAcquireProcessor _ =>
      ∀ r', r' ≠ r → ∀ container, s.pc r' ≠ .startInit container ∧ s.pc r' ≠ .endInit container
  | _ => True

/-- Every request that has begun is over. -/
def Finished (s : ParallelState ι) : Prop := ∀ r, s.pc r = .getContainer ∨ s.pc r = .done

/-! ## One step -/

section Lemmas

variable (s : ParallelState ι) (r : ι) (pc : RequestPc) (e : ContainerEvent ι) (c : ContainerId)
  (es es' : List (ContainerEvent ι))

@[simp] theorem pc_goto_self : (s.goto r pc).pc r = pc := Function.update_self _ _ _

theorem pc_goto_of_ne {r r' : ι} (h : r' ≠ r) : (s.goto r pc).pc r' = s.pc r' :=
  Function.update_of_ne h _ _

@[simp] theorem events_goto : (s.goto r pc).events = s.events := rfl
@[simp] theorem provider_goto : (s.goto r pc).m_processorProvider = s.m_processorProvider := rfl

omit [DecidableEq ι] in
@[simp] theorem pc_log : (s.log e).pc = s.pc := rfl

omit [DecidableEq ι] in
@[simp] theorem events_log : (s.log e).events = s.events ++ [e] := rfl

omit [DecidableEq ι] in
@[simp] theorem provider_log : (s.log e).m_processorProvider = s.m_processorProvider := rfl

omit [DecidableEq ι] in
@[simp] theorem pc_markInitialized (index : Nat) : (s.markInitialized index).pc = s.pc := rfl

omit [DecidableEq ι] in
@[simp] theorem events_markInitialized (index : Nat) :
    (s.markInitialized index).events = s.events := rfl

omit [DecidableEq ι] in
@[simp] theorem upstream_markInitialized (index : Nat) :
    (s.markInitialized index).m_processorProvider.m_upstream = s.m_processorProvider.m_upstream := rfl

omit [DecidableEq ι] in
@[simp] theorem mem_markInitialized (index : Nat) :
    index ∈ (s.markInitialized index).m_processorProvider.m_initializedMap := by
  show index ∈ if index ∈ s.m_processorProvider.m_initializedMap then _ else _
  split
  · assumption
  · exact (List.mem_orderedInsert _).mpr (.inl rfl)

omit [DecidableEq ι] in
@[simp] theorem inits_append : inits c (es ++ es') = inits c es ++ inits c es' := List.filterMap_append

omit [DecidableEq ι] in
@[simp] theorem inits_initStarted : inits c [.initStarted r c] = [r] := by simp [inits]

omit [DecidableEq ι] in
@[simp] theorem inits_initReturned : inits c [.initReturned r c] = [] := rfl

omit [DecidableEq ι] in
@[simp] theorem inits_tryAcquireProcessor : inits c [.tryAcquireProcessor r c] = [] := rfl

omit [DecidableEq ι] in
@[simp] theorem returns_append : returns c (es ++ es') = returns c es ++ returns c es' :=
  List.filterMap_append

omit [DecidableEq ι] in
@[simp] theorem returns_initStarted : returns c [.initStarted r c] = [] := rfl

omit [DecidableEq ι] in
@[simp] theorem returns_initReturned : returns c [.initReturned r c] = [r] := by simp [returns]

omit [DecidableEq ι] in
@[simp] theorem returns_tryAcquireProcessor : returns c [.tryAcquireProcessor r c] = [] := rfl

end Lemmas

/-- What is true in every run: the requests hold the container that is stored, and `init` was called and has
returned where their steps say so. -/
structure Inv (index : Nat) (c : ContainerId) (s : ParallelState ι) : Prop where
  lookup : s.m_processorProvider.m_upstream.acquireContainer index = pure c
  container : ∀ r c', (s.pc r).container = some c' → c' = c
  initialising : ∀ r, s.pc r = .endInit c → r ∈ inits c s.events
  returned : ∀ r ∈ returns c s.events,
    r ∈ inits c s.events ∧ (s.pc r = .tryAcquireProcessor c ∨ s.pc r = .done)

variable {index : Nat} {c : ContainerId} {s s' : ParallelState ι} {r : ι}

omit [DecidableEq ι] in
theorem inv_start {p : ProcessorInitializer} (h : p.m_upstream.acquireContainer index = pure c) :
    Inv index c (start p : ParallelState ι) where
  lookup := h
  container := fun _ _ hc => by cases hc
  initialising := fun _ hr => by cases hr
  returned := fun _ hr => by cases hr

/-- **Everything a step can do.** -/
theorem step_cases (h : Inv index c s) (hs : step index s r = some s') :
    s.pc r = .getContainer ∧ s' = s.goto r (.contains c) ∨
    s.pc r = .contains c ∧ index ∈ s.m_processorProvider.m_initializedMap ∧
      s' = s.goto r (.tryAcquireProcessor c) ∨
    s.pc r = .contains c ∧ index ∉ s.m_processorProvider.m_initializedMap ∧
      s' = s.goto r (.insert c) ∨
    s.pc r = .insert c ∧ s' = (s.markInitialized index).goto r (.startInit c) ∨
    s.pc r = .startInit c ∧ s' = (s.log (.initStarted r c)).goto r (.endInit c) ∨
    s.pc r = .endInit c ∧ s' = (s.log (.initReturned r c)).goto r (.tryAcquireProcessor c) ∨
    s.pc r = .tryAcquireProcessor c ∧ s' = (s.log (.tryAcquireProcessor r c)).goto r .done := by
  -- every request that holds a container holds `c`, the one the index is registered with
  have hcontainer := h.container r
  unfold step at hs
  cases hpc : s.pc r with
  | getContainer =>
      rw [hpc, h.lookup] at hs
      cases hs
      exact .inl ⟨rfl, rfl⟩
  | contains c' =>
      cases hcontainer c' (by rw [hpc]; rfl)
      rw [hpc] at hs
      dsimp only at hs
      split at hs
      · next hmem =>
        cases hs
        exact .inr (.inl ⟨rfl, hmem, rfl⟩)
      · next hmem =>
        cases hs
        exact .inr (.inr (.inl ⟨rfl, hmem, rfl⟩))
  | insert c' =>
      cases hcontainer c' (by rw [hpc]; rfl)
      rw [hpc] at hs
      cases hs
      exact .inr (.inr (.inr (.inl ⟨rfl, rfl⟩)))
  | startInit c' =>
      cases hcontainer c' (by rw [hpc]; rfl)
      rw [hpc] at hs
      cases hs
      exact .inr (.inr (.inr (.inr (.inl ⟨rfl, rfl⟩))))
  | endInit c' =>
      cases hcontainer c' (by rw [hpc]; rfl)
      rw [hpc] at hs
      cases hs
      exact .inr (.inr (.inr (.inr (.inr (.inl ⟨rfl, rfl⟩)))))
  | tryAcquireProcessor c' =>
      cases hcontainer c' (by rw [hpc]; rfl)
      rw [hpc] at hs
      cases hs
      exact .inr (.inr (.inr (.inr (.inr (.inr ⟨rfl, rfl⟩)))))
  | done =>
      rw [hpc] at hs
      cases hs

/-! What the next step of a request is that has found the index unmarked. -/

theorem step_insert (hpc : s.pc r = .insert c) (hs : step index s r = some s') :
    s' = (s.markInitialized index).goto r (.startInit c) := by
  unfold step at hs
  rw [hpc] at hs
  cases hs
  rfl

theorem step_startInit (hpc : s.pc r = .startInit c) (hs : step index s r = some s') :
    s' = (s.log (.initStarted r c)).goto r (.endInit c) := by
  unfold step at hs
  rw [hpc] at hs
  cases hs
  rfl

theorem step_endInit (hpc : s.pc r = .endInit c) (hs : step index s r = some s') :
    s' = (s.log (.initReturned r c)).goto r (.tryAcquireProcessor c) := by
  unfold step at hs
  rw [hpc] at hs
  cases hs
  rfl

/-- The rule for a step of `r`: what has to be said of `r` itself, where the others stay. -/
theorem Inv.move (h : Inv index c s)
    (hlookup : s'.m_processorProvider.m_upstream = s.m_processorProvider.m_upstream)
    (hothers : ∀ r', r' ≠ r → s'.pc r' = s.pc r')
    (hcontainer : ∀ c', (s'.pc r).container = some c' → c' = c)
    (hinits : ∀ r' ∈ inits c s.events, r' ∈ inits c s'.events)
    (hreturns : ∀ r' ∈ returns c s'.events, r' = r ∨ r' ∈ returns c s.events)
    (hinitialising : s'.pc r = .endInit c → r ∈ inits c s'.events)
    (hreturned : r ∈ returns c s'.events →
      r ∈ inits c s'.events ∧ (s'.pc r = .tryAcquireProcessor c ∨ s'.pc r = .done)) :
    Inv index c s' := by
  refine ⟨by rw [hlookup, h.lookup], fun r' c' hc' => ?_, fun r' hr' => ?_, fun r' hr' => ?_⟩
  · by_cases heq : r' = r
    · subst heq
      exact hcontainer c' hc'
    · rw [hothers r' heq] at hc'
      exact h.container r' c' hc'
  · by_cases heq : r' = r
    · subst heq
      exact hinitialising hr'
    · rw [hothers r' heq] at hr'
      exact hinits r' (h.initialising r' hr')
  · by_cases heq : r' = r
    · subst heq
      exact hreturned hr'
    · obtain ⟨hinit, hpc⟩ := h.returned r' ((hreturns r' hr').resolve_left heq)
      rw [hothers r' heq]
      exact ⟨hinits r' hinit, hpc⟩

omit [DecidableEq ι] in
/-- A request where `init` has not returned. -/
theorem Inv.not_returned (h : Inv index c s) (hpc : s.pc r ≠ .tryAcquireProcessor c ∧ s.pc r ≠ .done) :
    r ∉ returns c s.events :=
  fun hr => (h.returned r hr).2.elim hpc.1 hpc.2

/-- A step of `r` to `q` that no container sees. -/
theorem Inv.silent {t : ParallelState ι} {q : RequestPc} (h : Inv index c s)
    (hpc : s.pc r ≠ .tryAcquireProcessor c ∧ s.pc r ≠ .done)
    (hlookup : t.m_processorProvider.m_upstream = s.m_processorProvider.m_upstream)
    (hevents : t.events = s.events) (hothers : t.pc = s.pc)
    (hcontainer : ∀ c', q.container = some c' → c' = c) (hinit : q ≠ .endInit c) :
    Inv index c (t.goto r q) := by
  have hq : (t.goto r q).pc r = q := by simp
  refine h.move (r := r) hlookup (fun r' hr' => ?_) ?_ ?_ ?_ ?_ ?_
  · rw [pc_goto_of_ne _ _ hr', hothers]
  · rwa [hq]
  · rw [events_goto, hevents]
    exact fun _ => id
  · rw [events_goto, hevents]
    exact fun _ => .inr
  · rw [hq]
    exact fun hr => absurd hr hinit
  · rw [events_goto, hevents]
    exact fun hr => absurd hr (h.not_returned hpc)

/-- **A step keeps it.** -/
theorem Inv.step (h : Inv index c s) (hs : step index s r = some s') : Inv index c s' := by
  rcases step_cases h hs with ⟨hpc, rfl⟩ | ⟨hpc, -, rfl⟩ | ⟨hpc, -, rfl⟩ | ⟨hpc, rfl⟩ |
    ⟨hpc, rfl⟩ | ⟨hpc, rfl⟩ | ⟨hpc, rfl⟩
  · -- the first four steps tell the container nothing
    exact h.silent (by simp [hpc]) rfl rfl rfl (by simp [RequestPc.container]) (by simp)
  · exact h.silent (by simp [hpc]) rfl rfl rfl (by simp [RequestPc.container]) (by simp)
  · exact h.silent (by simp [hpc]) rfl rfl rfl (by simp [RequestPc.container]) (by simp)
  · exact h.silent (by simp [hpc]) rfl rfl rfl (by simp [RequestPc.container]) (by simp)
  · -- `init` starts
    have hr := h.not_returned (r := r) (by simp [hpc])
    refine h.move rfl (fun r' => pc_goto_of_ne _ _) ?_ (fun r' hr' => ?_) (fun r' hr' => ?_) ?_ ?_
    · simp [RequestPc.container]
    · simp [hr']
    · exact .inr (by simpa using hr')
    · simp
    · simp [hr]
  · -- it returns
    have hr := h.initialising r hpc
    refine h.move rfl (fun r' => pc_goto_of_ne _ _) ?_ (fun r' hr' => ?_) (fun r' hr' => ?_) ?_ ?_
    · simp [RequestPc.container]
    · simp [hr']
    · simpa [or_comm] using hr'
    · simp
    · simp [hr]
  · refine h.move rfl (fun r' => pc_goto_of_ne _ _) ?_ (fun r' hr' => ?_) (fun r' hr' => ?_) ?_
      fun hr => ?_
    · simp [RequestPc.container]
    · simpa using hr'
    · exact .inr (by simpa using hr')
    · simp
    · have hreturned := (h.returned r (by simpa using hr)).1
      simp [hreturned]

/-- The other requests stay where they are. -/
theorem pc_step (hs : step index s r = some s') {r' : ι} (hne : r' ≠ r) : s'.pc r' = s.pc r' := by
  unfold ParallelState.step at hs
  split at hs
  case h_1 | h_2 => split at hs <;> (cases hs; exact pc_goto_of_ne _ _ hne)
  case h_7 => cases hs
  all_goals (cases hs; exact pc_goto_of_ne _ _ hne)

/-! ## Runs that keep to the condition -/

/-- A request that has not started `init`, and will not. -/
def Waiting (c : ContainerId) (pc : RequestPc) : Prop :=
  pc = .getContainer ∨ pc = .contains c ∨ pc = .tryAcquireProcessor c

/-- A request that may still find the index unmarked. -/
def Asking (c : ContainerId) (pc : RequestPc) : Prop :=
  pc = .getContainer ∨ pc = .contains c ∨ pc = .insert c

/-- A request that waits, or is over. -/
def Settled (c : ContainerId) (pc : RequestPc) : Prop := Waiting c pc ∨ pc = .done

/-- How far the container is: not marked, and one request at most about to mark it; marked by `r₀`, which is
going to run `init`; `r₀` in `init`; or initialised. -/
inductive Phase (index : Nat) (c : ContainerId) (s : ParallelState ι) : Prop where
  | unmarked (hmap : index ∉ s.m_processorProvider.m_initializedMap) (hevents : s.events = [])
      (hone : ∀ r r', s.pc r = .insert c → s.pc r' = .insert c → r = r')
      (hpc : ∀ r, Asking c (s.pc r))
  | marked (r₀ : ι) (hmap : index ∈ s.m_processorProvider.m_initializedMap) (hevents : s.events = [])
      (h₀ : s.pc r₀ = .startInit c) (hpc : ∀ r, r ≠ r₀ → Waiting c (s.pc r))
  | running (r₀ : ι) (hmap : index ∈ s.m_processorProvider.m_initializedMap)
      (hevents : s.events = [.initStarted r₀ c])
      (h₀ : s.pc r₀ = .endInit c) (hpc : ∀ r, r ≠ r₀ → Waiting c (s.pc r))
  | ready (r₀ : ι) (acquired : List ι) (hmap : index ∈ s.m_processorProvider.m_initializedMap)
      (hevents : s.events = .initStarted r₀ c :: .initReturned r₀ c ::
        acquired.map fun r => .tryAcquireProcessor r c)
      (hpc : ∀ r, Settled c (s.pc r))

omit [DecidableEq ι] in
theorem phase_start {p : ProcessorInitializer} (h : index ∉ p.m_initializedMap) :
    Phase index c (start p : ParallelState ι) :=
  .unmarked h rfl (fun _ _ hr => by cases hr) fun _ => .inl rfl

/-- A fact about every request but `r₀` is kept when it holds of the place where `r` goes. -/
theorem forall_goto {P : RequestPc → Prop} {r₀ : ι} (hpc : ∀ r', r' ≠ r₀ → P (s.pc r')) {pc : RequestPc}
    (hr : P pc) : ∀ r', r' ≠ r₀ → P ((s.goto r pc).pc r') := by
  intro r' hne
  by_cases heq : r' = r
  · subst heq
    rwa [pc_goto_self]
  · rw [pc_goto_of_ne _ _ heq]
    exact hpc r' hne

/-- The same where every request is meant. -/
theorem forall_goto' {P : RequestPc → Prop} (hpc : ∀ r', P (s.pc r')) {pc : RequestPc} (hr : P pc) :
    ∀ r', P ((s.goto r pc).pc r') := by
  intro r'
  by_cases heq : r' = r
  · subst heq
    rwa [pc_goto_self]
  · rw [pc_goto_of_ne _ _ heq]
    exact hpc r'

/-- While a container is marked and not ready, a step of a request that waits for it leaves it so. -/
theorem step_waiting (h : Inv index c s) (hs : step index s r = some s')
    (hmap : index ∈ s.m_processorProvider.m_initializedMap) (hwaiting : Waiting c (s.pc r)) :
    (∃ pc, Waiting c pc ∧ s' = s.goto r pc) ∨
      s.pc r = .tryAcquireProcessor c ∧ s' = (s.log (.tryAcquireProcessor r c)).goto r .done := by
  rcases step_cases h hs with ⟨-, rfl⟩ | ⟨-, -, rfl⟩ | ⟨-, hnot, -⟩ | ⟨hpc, -⟩ | ⟨hpc, -⟩ | ⟨hpc, -⟩ |
    ⟨hpc, rfl⟩
  · exact .inl ⟨_, .inr (.inl rfl), rfl⟩
  · exact .inl ⟨_, .inr (.inr rfl), rfl⟩
  · exact absurd hmap hnot
  · simp [Waiting, hpc] at hwaiting
  · simp [Waiting, hpc] at hwaiting
  · simp [Waiting, hpc] at hwaiting
  · exact .inr ⟨hpc, rfl⟩

/-- **An undisturbed step** leads from phase to phase. -/
theorem Phase.step (hphase : Phase index c s) (h : Inv index c s) (hguard : Undisturbed index s r)
    (hs : step index s r = some s') : Phase index c s' := by
  cases hphase with
  | unmarked hmap hevents hone hpcs =>
      rcases step_cases h hs with ⟨hpc, rfl⟩ | ⟨-, hmem, -⟩ | ⟨hpc, -, rfl⟩ | ⟨hpc, rfl⟩ | ⟨hpc, -⟩ |
        ⟨hpc, -⟩ | ⟨hpc, -⟩
      · -- a request takes the container
        refine .unmarked hmap hevents (fun r₁ r₂ h₁ h₂ => ?_) (forall_goto' hpcs (.inr (.inl rfl)))
        have hne : ∀ r', (s.goto r (.contains c)).pc r' = .insert c → r' ≠ r := by
          rintro r' hr' rfl
          simp at hr'
        rw [pc_goto_of_ne _ _ (hne r₁ h₁)] at h₁
        rw [pc_goto_of_ne _ _ (hne r₂ h₂)] at h₂
        exact hone r₁ r₂ h₁ h₂
      · exact absurd hmem hmap
      · -- it finds the model unmarked: the guard leaves it alone on the way to the mark
        simp only [Undisturbed, hpc] at hguard
        have hself : ∀ r', (s.goto r (.insert c)).pc r' = .insert c → r' = r := by
          intro r' hr'
          by_contra hne
          rw [pc_goto_of_ne _ _ hne] at hr'
          exact hguard hmap r' hne c hr'
        exact .unmarked hmap hevents (fun r₁ r₂ h₁ h₂ => (hself r₁ h₁).trans (hself r₂ h₂).symm)
          (forall_goto' hpcs (.inr (.inr rfl)))
      · -- it marks the model, and becomes the one request that initialises it
        refine .marked r (mem_markInitialized s index) hevents (pc_goto_self _ _ _) fun r' hne => ?_
        rw [pc_goto_of_ne _ _ hne]
        rcases hpcs r' with hpc' | hpc' | hpc'
        · exact .inl hpc'
        · exact .inr (.inl hpc')
        · exact absurd (hone r' r hpc' hpc) hne
      · simpa [Asking, hpc] using hpcs r
      · simpa [Asking, hpc] using hpcs r
      · simpa [Asking, hpc] using hpcs r
  | marked r₀ hmap hevents h₀ hpcs =>
      by_cases hr : r = r₀
      · subst hr
        obtain rfl := step_startInit h₀ hs
        refine .running r hmap (by simp [hevents]) (pc_goto_self _ _ _) fun r' hne => ?_
        rw [pc_goto_of_ne _ _ hne]
        exact hpcs r' hne
      · -- another request may come as far as the processor, which the guard keeps it from taking
        rcases step_waiting h hs hmap (hpcs r hr) with ⟨pc, hpc, rfl⟩ | ⟨hpc, -⟩
        · refine .marked r₀ hmap hevents ?_ (forall_goto hpcs hpc)
          rwa [pc_goto_of_ne _ _ (Ne.symm hr)]
        · simp only [Undisturbed, hpc] at hguard
          exact absurd h₀ (hguard r₀ (Ne.symm hr) c).1
  | running r₀ hmap hevents h₀ hpcs =>
      by_cases hr : r = r₀
      · subst hr
        obtain rfl := step_endInit h₀ hs
        -- `init` has returned before anyone has taken a processor
        refine .ready r [] hmap (by simp [hevents]) fun r' => ?_
        by_cases hne : r' = r
        · subst hne
          exact .inl (.inr (.inr (pc_goto_self _ _ _)))
        · rw [pc_goto_of_ne _ _ hne]
          exact .inl (hpcs r' hne)
      · rcases step_waiting h hs hmap (hpcs r hr) with ⟨pc, hpc, rfl⟩ | ⟨hpc, -⟩
        · refine .running r₀ hmap hevents ?_ (forall_goto hpcs hpc)
          rwa [pc_goto_of_ne _ _ (Ne.symm hr)]
        · simp only [Undisturbed, hpc] at hguard
          exact absurd h₀ (hguard r₀ (Ne.symm hr) c).2
  | ready r₀ acquired hmap hevents hpcs =>
      -- only the processors are taken now, after `init`
      rcases hpcs r with hwaiting | hdone
      · rcases step_waiting h hs hmap hwaiting with ⟨pc, hpc, rfl⟩ | ⟨-, rfl⟩
        · exact .ready r₀ acquired hmap hevents (forall_goto' hpcs (.inl hpc))
        · exact .ready r₀ (acquired ++ [r]) hmap (by simp [hevents]) (forall_goto' hpcs (.inr rfl))
      · unfold ParallelState.step at hs
        rw [hdone] at hs
        cases hs

omit [DecidableEq ι] in
/-- Asking for processors starts no `init`. -/
theorem inits_acquired (acquired : List ι) :
    inits c (acquired.map fun r => .tryAcquireProcessor r c) = [] := by
  induction acquired with
  | nil => rfl
  | cons r acquired ih => exact ih

omit [DecidableEq ι] in
/-- In every phase `init` was called once at most, and nobody came before it had returned. -/
theorem Phase.initOnce (hphase : Phase index c s) : InitOnce c s.events := by
  cases hphase with
  | unmarked hmap hevents | marked r₀ hmap hevents =>
      rw [hevents]
      exact ⟨Nat.zero_le 1, fun r hr => by simp at hr, fun r pre post h => by simp at h⟩
  | running r₀ hmap hevents =>
      rw [hevents]
      refine ⟨by simp, fun r hr => by simp at hr, fun r pre post h => ?_⟩
      have hmem : ContainerEvent.tryAcquireProcessor r c ∈ [.initStarted r₀ c] := by
        rw [h]
        simp
      simp at hmem
  | ready r₀ acquired hmap hevents =>
      have hinits : inits c s.events = [r₀] := by
        rw [hevents]
        show inits c ([.initStarted r₀ c] ++ ([.initReturned r₀ c] ++
          acquired.map fun r => .tryAcquireProcessor r c)) = [r₀]
        rw [inits_append, inits_append, inits_acquired]
        simp
      refine ⟨by simp [hinits], fun r _ => by simp [hinits], fun r pre post h => ?_⟩
      rw [hevents] at h
      -- the request cannot be one of the first two events
      match pre with
      | [] => cases h
      | [e] => cases h
      | e :: e' :: pre =>
          simp only [List.cons_append, List.cons.injEq] at h
          obtain ⟨rfl, rfl, -⟩ := h
          simp [returns]

/-- The phase after a run. -/
theorem phase_of_run {schedule : List ι} (h : Inv index c s) (hphase : Phase index c s)
    (hrun : run (step index) s schedule = some s')
    (hguarded : Guarded (step index) (Undisturbed index) s schedule) : Phase index c s' :=
  (guarded_invariant (I := fun s => Inv index c s ∧ Phase index c s)
    (fun _ _ _ hs hguard hstep => ⟨hs.1.step hstep, hs.2.step hs.1 hguard hstep⟩)
    ⟨h, hphase⟩ hrun hguarded).2

/-- A request that runs alone is undisturbed: it finds no other between two of its steps. -/
theorem guarded_alone (halone : ∀ r', r' ≠ r → s.pc r' = .getContainer ∨ s.pc r' = .done) (n : Nat) :
    Guarded (step index) (Undisturbed index) s (List.replicate n r) := by
  induction n generalizing s with
  | zero => exact guarded_nil
  | succ n ih =>
      refine ⟨?_, fun s' hs => ih fun r' hne => ?_⟩
      · unfold Undisturbed
        split
        · intro _ r' hne c' hpc
          simpa [hpc] using halone r' hne
        · intro r' hne c'
          rcases halone r' hne with hpc | hpc <;> simp [hpc]
        · trivial
      · rw [pc_step hs hne]
        exact halone r' hne

/-! ## Runs that do not -/

/-- A request that has started `init`, or is going to. -/
def Committed (c : ContainerId) (s : ParallelState ι) (r : ι) : Prop :=
  s.pc r = .insert c ∨ s.pc r = .startInit c ∨ r ∈ inits c s.events

/-- The damage: two requests run `init`, or one has asked for a processor before it returned. -/
def Damaged (c : ContainerId) (s : ParallelState ι) : Prop :=
  (∃ r r', r ≠ r' ∧ Committed c s r ∧ Committed c s r') ∨
    ∃ r pre post, s.events = pre ++ .tryAcquireProcessor r c :: post ∧ returns c pre = []

/-- A step only adds to what happened. -/
theorem step_events (h : Inv index c s) (hs : step index s r = some s') :
    ∃ es, s'.events = s.events ++ es := by
  rcases step_cases h hs with ⟨-, rfl⟩ | ⟨-, -, rfl⟩ | ⟨-, -, rfl⟩ | ⟨-, rfl⟩ | ⟨-, rfl⟩ | ⟨-, rfl⟩ |
    ⟨-, rfl⟩
  case inl | inr.inl | inr.inr.inl | inr.inr.inr.inl => exact ⟨[], (List.append_nil _).symm⟩
  all_goals exact ⟨_, rfl⟩

/-- Who is committed stays committed. -/
theorem Committed.step {r' : ι} (hr' : Committed c s r') (h : Inv index c s)
    (hs : step index s r = some s') : Committed c s' r' := by
  obtain ⟨es, hes⟩ := step_events h hs
  have hinits : r' ∈ inits c s.events → Committed c s' r' := fun hmem =>
    .inr (.inr (by rw [hes, inits_append]; exact List.mem_append_left _ hmem))
  by_cases heq : r' = r
  · subst heq
    rcases hr' with hpc' | hpc' | hmem
    · obtain rfl := step_insert hpc' hs
      exact .inr (.inl (pc_goto_self _ _ _))
    · obtain rfl := step_startInit hpc' hs
      exact .inr (.inr (by simp))
    · exact hinits hmem
  · have hsame := pc_step hs heq
    rcases hr' with hpc' | hpc' | hmem
    · exact .inl (hsame.trans hpc')
    · exact .inr (.inl (hsame.trans hpc'))
    · exact hinits hmem

/-- The damage stays. -/
theorem Damaged.step (hd : Damaged c s) (h : Inv index c s) (hs : step index s r = some s') :
    Damaged c s' := by
  rcases hd with ⟨r₁, r₂, hne, h₁, h₂⟩ | ⟨r₁, pre, post, hevents, hnone⟩
  · exact .inl ⟨r₁, r₂, hne, h₁.step h hs, h₂.step h hs⟩
  · obtain ⟨es, hes⟩ := step_events h hs
    exact .inr ⟨r₁, pre, post ++ es, by rw [hes, hevents]; simp, hnone⟩

/-- **A step that misses the condition does damage.** -/
theorem damaged_of_disturbed (h : Inv index c s) (hs : step index s r = some s')
    (hguard : ¬ Undisturbed index s r) : Damaged c s' := by
  rcases step_cases h hs with ⟨hpc, -⟩ | ⟨hpc, hmem, -⟩ | ⟨hpc, hnot, rfl⟩ | ⟨hpc, -⟩ | ⟨hpc, -⟩ |
    ⟨hpc, -⟩ | ⟨hpc, rfl⟩
  case inr.inr.inl =>
    -- another request has found the index unmarked as well
    simp only [Undisturbed, hpc] at hguard
    push Not at hguard
    obtain ⟨-, r', hne, c', hpc'⟩ := hguard
    cases h.container r' c' (by rw [hpc']; rfl)
    refine .inl ⟨r', r, hne, .inl ?_, .inl (pc_goto_self _ _ _)⟩
    rwa [pc_goto_of_ne _ _ hne]
  case inr.inr.inr.inr.inr.inr =>
    -- `r'` is in `init`, or about to run it
    simp only [Undisturbed, hpc] at hguard
    push Not at hguard
    obtain ⟨r', hne, c', hpc'⟩ := hguard
    have hinit : s.pc r' = .startInit c ∨ s.pc r' = .endInit c := by
      by_cases hstart : s.pc r' = .startInit c'
      · exact .inl (h.container r' c' (by rw [hstart]; rfl) ▸ hstart)
      · exact .inr (h.container r' c' (by rw [hpc' hstart]; rfl) ▸ hpc' hstart)
    have hcommitted : Committed c s r' :=
      hinit.elim (fun hstart => .inr (.inl hstart)) fun hrun => .inr (.inr (h.initialising r' hrun))
    by_cases hnone : returns c s.events = []
    · exact .inr ⟨r, s.events, [], by simp, hnone⟩
    · -- another `init` has returned already
      obtain ⟨r'', hmem⟩ := List.exists_mem_of_ne_nil _ hnone
      have hother : r'' ≠ r' := by
        rintro rfl
        exact h.not_returned (r := r'') (by rcases hinit with hpc' | hpc' <;> simp [hpc']) hmem
      have hcommitted' : Committed c s r'' := .inr (.inr (h.returned r'' hmem).1)
      exact .inl ⟨r'', r', hother, hcommitted'.step h hs, hcommitted.step h hs⟩
  all_goals simp [Undisturbed, hpc] at hguard
  exact absurd hmem hguard.1

omit [DecidableEq ι] in
/-- Damage shows when the requests are over. -/
theorem Damaged.not_initOnce (hd : Damaged c s) (hfinished : Finished s) : ¬ InitOnce c s.events := by
  intro honce
  rcases hd with ⟨r, r', hne, hr, hr'⟩ | ⟨r, pre, post, hevents, hnone⟩
  · have hmem : ∀ r, Committed c s r → r ∈ inits c s.events := by
      rintro r (hpc | hpc | hmem)
      · simpa [hpc] using hfinished r
      · simpa [hpc] using hfinished r
      · exact hmem
    have hlength := honce.at_most_once
    match hinits : inits c s.events with
    | [] => simpa [hinits] using hmem r hr
    | [r₀] =>
        have h₁ := hmem r hr
        have h₂ := hmem r' hr'
        rw [hinits, List.mem_singleton] at h₁ h₂
        exact hne (h₁.trans h₂.symm)
    | r₀ :: r₁ :: rest =>
        rw [hinits] at hlength
        simp at hlength
  · exact honce.returned_first r pre post hevents hnone

/-- **A request that runs alone** does to the provider what `acquireContainer` does in one go. -/
theorem run_alone_acquireContainer (hpc : s.pc r = .getContainer) {p' : ProcessorInitializer}
    {container : ContainerId}
    (hok : (s.m_processorProvider.acquireContainer index).result = .ok (p', container)) :
    ∃ n s', run (step index) s (List.replicate n r) = some s' ∧ s'.m_processorProvider = p' ∧
      s'.pc r = .tryAcquireProcessor container := by
  unfold ProcessorInitializer.acquireContainer at hok
  obtain ⟨container', hlookup, hok⟩ := Traced.result_bind_eq_ok hok
  have hfirst : step index s r = some (s.goto r (.contains container')) := by
    simp only [step, hpc, hlookup]
  split at hok
  · next hmem =>
    cases hok
    let s₁ := s.goto r (.contains container)
    have hsecond : step index s₁ r = some (s₁.goto r (.tryAcquireProcessor container)) := by
      simp [step, s₁, hmem]
    -- marked already: two steps
    exact ⟨2, _, run_trans (run_cons_of hfirst) (run_cons_of hsecond), rfl, pc_goto_self _ _ _⟩
  · next hmem =>
    cases hok
    -- not marked: mark, start and end of `init` come between, five steps in all
    let s₁ := s.goto r (.contains container)
    let s₂ := s₁.goto r (.insert container)
    let s₃ := (s₂.markInitialized index).goto r (.startInit container)
    let s₄ := (s₃.log (.initStarted r container)).goto r (.endInit container)
    have hsecond : step index s₁ r = some s₂ := by simp [step, s₂, s₁, hmem]
    have hthird : step index s₂ r = some s₃ := by simp [step, s₃, s₂]
    have hfourth : step index s₃ r = some s₄ := by simp [step, s₄, s₃]
    have hfifth : step index s₄ r = some
        ((s₄.log (.initReturned r container)).goto r (.tryAcquireProcessor container)) := by
      simp [step, s₄]
    refine ⟨5, _, run_trans (run_cons_of hfirst) (run_trans (run_cons_of hsecond) (run_trans
      (run_cons_of hthird) (run_trans (run_cons_of hfourth) (run_cons_of hfifth)))), ?_,
      pc_goto_self _ _ _⟩
    show ProcessorInitializer.mk (if index ∈ s.m_processorProvider.m_initializedMap then _ else _) _ = _
    rw [if_neg hmem]
    rfl

/-! ## Requests of a fresh application -/

end ParallelState

/-- `init` has no container initialised. -/
theorem App.initLoop_m_initializedMap (given : Nat → Bool) (remaining : Nat) {app app' : App} {i : Nat}
    {err : ReturnStatus} (h : (app.initLoop given i remaining).result = .ok (err, app')) :
    app'.m_mediaService.m_initializedMap = app.m_mediaService.m_initializedMap := by
  induction remaining generalizing app i with
  | zero =>
      cases h
      rfl
  | succ remaining ih =>
      unfold App.initLoop at h
      split at h
      · cases h
        rfl
      · split at h
        · next service hadd =>
          have hservice : service.m_initializedMap = app.m_mediaService.m_initializedMap :=
            (congrArg (·.2.m_initializedMap) hadd).symm
          rw [ih h, ← hservice]
          unfold App.addAvailableProcessor
          split <;> rfl
        · obtain ⟨-, -, h⟩ := Traced.result_bind_eq_ok h
          obtain ⟨loader, -, h⟩ := Traced.result_bind_eq_ok h
          cases h
          rfl

namespace ParallelState

variable {ι : Type} [DecidableEq ι]

/-- **`init` once, and before any processor is asked for**: for every application that `init` has set up,
every index that has a container, any number of requests and every interleaving of their steps. It is so in
every run whose steps are all undisturbed; and in a run that is over it is so in no other. -/
theorem init_once_iff {modules : List LoadedModule} {given : Nat → Bool} {err : ReturnStatus} {app : App}
    (hinit : ((App.new modules).init given).result = .ok (err, app)) {index : Nat} {c : ContainerId}
    (hstored : app.m_mediaService.m_upstream.acquireContainer index = pure c) {schedule : List ι}
    {s : ParallelState ι} (hrun : run (step index) (start app.m_mediaService) schedule = some s) :
    (Guarded (step index) (Undisturbed index) (start app.m_mediaService) schedule →
        InitOnce c s.events) ∧
      (Finished s → (InitOnce c s.events ↔
        Guarded (step index) (Undisturbed index) (start app.m_mediaService) schedule)) := by
  have hfresh : index ∉ app.m_mediaService.m_initializedMap := by
    rw [App.initLoop_m_initializedMap given _ hinit]
    exact List.not_mem_nil
  have hinv : Inv index c (start app.m_mediaService : ParallelState ι) := inv_start hstored
  have hgood : Guarded (step index) (Undisturbed index) (start app.m_mediaService) schedule →
      InitOnce c s.events :=
    fun hguarded => (phase_of_run hinv (phase_start hfresh) hrun hguarded).initOnce
  refine ⟨hgood, fun hfinished => ⟨fun honce => ?_, hgood⟩⟩
  exact guarded_of_not_bad (fun _ _ _ h hs => h.step hs)
    (fun _ _ _ h hs hguard => damaged_of_disturbed h hs hguard)
    (fun _ _ _ h hs hbad => hbad.step h hs) hinv hrun fun hbad => hbad.not_initOnce hfinished honce

/-- An application with one module, after `init`. -/
def oneContainer : App :=
  ⟨⟨[], ⟨[(0, 0)], by simp⟩⟩, ⟨[⟨"RMBG-1.4"⟩], [(0, 0)], 1⟩, [⟨"RMBG-1.4", 0⟩]⟩

theorem init_oneContainer :
    ((App.new [⟨"RMBG-1.4"⟩]).init fun _ => true).result = .ok (.kOk, oneContainer) := rfl

/-- The second request comes when the first is over. -/
theorem one_after_the_other_init_once : ∃ s : ParallelState Bool,
    run (step 0) (start oneContainer.m_mediaService)
      [false, false, false, false, false, false, true, true, true] = some s ∧ InitOnce 0 s.events := by
  obtain ⟨s, hrun⟩ : ∃ s : ParallelState Bool, run (step 0) (start oneContainer.m_mediaService)
      [false, false, false, false, false, false, true, true, true] = some s := ⟨_, rfl⟩
  refine ⟨s, hrun, (init_once_iff init_oneContainer rfl hrun).1 ?_⟩
  have hfirst : run (step 0) (start oneContainer.m_mediaService) (List.replicate 6 false) = some _ := rfl
  refine guarded_append hfirst (guarded_alone (fun _ _ => .inl rfl) 6) (guarded_alone (fun r' hne => ?_) 3)
  cases r' with
  | false => exact .inr rfl
  | true => exact absurd rfl hne

/-- The second request finds the index marked while the first is in `init`. -/
theorem second_during_init_not_once : ∃ s : ParallelState Bool,
    run (step 0) (start oneContainer.m_mediaService)
      [false, false, false, false, true, true, true] = some s ∧ ¬ InitOnce 0 s.events := by
  refine ⟨_, rfl, fun honce => ?_⟩
  exact honce.returned_first true [.initStarted false 0] [] rfl rfl

end ParallelState

end LimbWorker
