import LimbWorker.App
import LimbWorker.LoadDirectories

/-!
# The registries of an application

A container that `App::init` has taken is known in three places: the loader remembers its module, the image
service stores it under its index, and the capabilities announce that index. `init` fills them one after
another and stops at the first failure; `deinit` empties them in another order.

They agree after every call, because each iteration of `init` either registers the next index everywhere or
nowhere, and `deinit` walks over exactly the indices that are registered.
-/

namespace LimbWorker

open AppTasks ImageService Lib

/-- A call of a member function of `App`; `given i` says whether module `i` returns a container. -/
inductive AppCall where
  | init (given : Nat → Bool)
  | deinit
  | processImage (input : Request)

/-- The loader after calls of `allocateContainer` and `destroyContainer`, whatever the modules return. -/
inductive Used {M : Type} (s₀ : LoaderImpl M) : LoaderImpl M → Prop where
  | start : Used s₀ s₀
  | allocate {s : LoaderImpl M} (h : Used s₀ s) (index : Nat) (returned : Option ContainerId) :
      Used s₀ (s.allocateContainer index returned).2
  | destroy {s : LoaderImpl M} (h : Used s₀ s) (container : ContainerId) :
      Used s₀ (s.destroyContainer container).2

namespace App

/-- `App::getAppInfo`. -/
def getAppInfo (app : App) (totalCpuThreads : Nat) : AppInfoTask := ⟨app.m_capProvider, totalCpuThreads⟩

/-- Execute one call. An exception leaves `processImage` before anything is changed; where `init` or
`deinit` do not return there is no next state. -/
def perform (app : App) : AppCall → Option App
  | .init given =>
      match (app.init given).result with
      | .ok (_, app') => some app'
      | .error _ => none
  | .deinit =>
      match app.deinit.result with
      | .ok app' => some app'
      | .error _ => none
  | .processImage input =>
      match (app.processImage input).result with
      | .ok app' => some app'
      | .error _ => some app

/-- What the registries of `app` have in common. The loader is the one that `App` uses, seen as the whole
loader: `s` is where the calls that it got have brought it from `s₀`. -/
structure RegistriesAgree (s₀ : LoaderImpl LoadedModule) (app : App) : Prop where
  indices : ∀ totalCpuThreads i,
    i ∈ (app.getAppInfo totalCpuThreads).availableProcessors.map (·.index) ↔
      i ∈ app.m_mediaService.m_upstream.m_containers.map Prod.fst
  reported_once : ∀ totalCpuThreads,
    ((app.getAppInfo totalCpuThreads).availableProcessors.map (·.index)).Nodup
  names : ∀ totalCpuThreads, ∀ proc ∈ (app.getAppInfo totalCpuThreads).availableProcessors,
    proc.name = app.m_processorLoader.processorName proc.index
  containers : ∃ s, Used s₀ s ∧ Tracks app.m_processorLoader s ∧
    ∀ i container, (i, container) ∈ app.m_mediaService.m_upstream.m_containers →
      ∃ module, s₀.procModule i = some module ∧ s.allocatedBy container = some module ∧
        app.m_processorLoader.m_processors.lookup container = some i

/-! ## The invariant -/

/-- Indices `0, …, k - 1` are stored and announced, and the loader tracks the containers of those from
`gone` on. -/
structure Agree (s₀ : LoaderImpl LoadedModule) (k gone : Nat) (app : App)
    (s : LoaderImpl LoadedModule) : Prop where
  used : Used s₀ s
  tracks : Tracks app.m_processorLoader s
  keys : app.m_mediaService.m_upstream.m_containers.map Prod.fst = List.range k
  stored : ∀ i container, gone ≤ i → (i, container) ∈ app.m_mediaService.m_upstream.m_containers →
    s.m_processors container = some i
  reported : app.m_capProvider =
    (List.range k).map fun i => ⟨app.m_processorLoader.processorName i, i⟩
  initialized : ∀ i ∈ app.m_mediaService.m_initializedMap, i < k

end App

namespace Used

variable {M : Type} {s₀ s : LoaderImpl M}

/-- Using the loader loads nothing and drops nothing. -/
theorem modules_eq (h : Used s₀ s) : s.m_modules = s₀.m_modules ∧ s.dropped = s₀.dropped := by
  induction h with
  | start => exact ⟨rfl, rfl⟩
  | allocate _ index returned ih =>
      rw [← ih.1, ← ih.2]
      unfold LoaderImpl.allocateContainer
      split
      · exact ⟨rfl, rfl⟩
      · cases returned <;> exact ⟨rfl, rfl⟩
  | destroy _ container ih =>
      rw [← ih.1, ← ih.2]
      unfold LoaderImpl.destroyContainer
      split
      · exact ⟨rfl, rfl⟩
      · split <;> exact ⟨rfl, rfl⟩

/-- So every module object stays. -/
theorem procModule_eq (h : Used s₀ s) (index : Nat) : s.procModule index = s₀.procModule index := by
  rw [LoaderImpl.procModule, LoaderImpl.procModule, h.modules_eq.1, h.modules_eq.2]

/-- Containers are given back to their modules as long as the loader is only used. -/
theorem givenBack (h : Used s₀ s) (h₀ : LoaderImpl.GivenBack s₀) : LoaderImpl.GivenBack s := by
  induction h with
  | start => exact h₀
  | @allocate s _ index returned ih =>
      have hcall : ¬ s.LoadsAgain (.allocateContainer index returned) := id
      exact LoaderImpl.givenBack_of_not_loadsAgain ih hcall
  | @destroy s _ container ih =>
      have hcall : ¬ s.LoadsAgain (.destroyContainer container) := id
      exact LoaderImpl.givenBack_of_not_loadsAgain ih hcall

end Used

namespace ImageService.ProcessorStorage

/-- An index that is stored has its container. -/
theorem acquireContainer_of_mem {s : ProcessorStorage} {index : Nat}
    (h : index ∈ s.m_containers.map Prod.fst) :
    ∃ container, s.acquireContainer index = pure container ∧ (index, container) ∈ s.m_containers := by
  unfold acquireContainer
  cases hlookup : s.m_containers.lookup index with
  | some container =>
      obtain ⟨l₁, l₂, heq, -⟩ := List.lookup_eq_some_iff.mp hlookup
      exact ⟨container, rfl, by simp [heq]⟩
  | none =>
      obtain ⟨e, he, rfl⟩ := List.mem_map.mp h
      simpa using List.lookup_eq_none_iff.mp hlookup e he

/-- Any other index throws. -/
theorem acquireContainer_of_not_mem {s : ProcessorStorage} {index : Nat}
    (h : index ∉ s.m_containers.map Prod.fst) : s.acquireContainer index = .fault .outOfRange := by
  unfold acquireContainer
  rw [List.lookup_eq_none_iff.mpr]
  intro e he
  have hne : index ≠ e.1 := fun heq => h (heq ▸ List.mem_map_of_mem he)
  simpa using hne

end ImageService.ProcessorStorage

/-- Deinitialising what is initialised, one index after another, leaves nothing initialised. -/
theorem ImageService.ProcessorInitializer.foldlM_deinitContainer {p : ProcessorInitializer}
    {indices : List Nat} (hmap : p.m_initializedMap = indices)
    (hkeys : ∀ i ∈ indices, i ∈ p.m_upstream.m_containers.map Prod.fst) :
    (indices.foldlM deinitContainer p).result = .ok ⟨[], p.m_upstream⟩ := by
  induction indices generalizing p with
  | nil =>
      obtain ⟨initialized, upstream⟩ := p
      cases hmap
      rfl
  | cons i indices ih =>
      obtain ⟨container, hacquire, -⟩ :=
        ProcessorStorage.acquireContainer_of_mem (hkeys i List.mem_cons_self)
      have hdeinit : p.deinitContainer i = ⟨[.deinit container], .ok ⟨indices, p.m_upstream⟩⟩ := by
        simp only [deinitContainer, hmap, List.mem_cons_self, if_true, hacquire, Traced.pure_bind,
          List.erase_cons_head]
        rfl
      rw [List.foldlM_cons, hdeinit, Traced.ok_bind]
      exact ih rfl fun j hj => hkeys j (List.mem_cons_of_mem i hj)

/-- The two ways an allocation goes: nothing changes, or a new container is tracked. -/
theorem ProcessorLoader.allocateContainer_cases (l : ProcessorLoader) (index : Nat) (given : Bool) :
    l.allocateContainer index given = (l, none) ∨
      index < l.m_modules.length ∧ given = true ∧ l.allocateContainer index given =
        ({ l with
            m_processors := l.m_processors ++ [(l.allocated, index)]
            allocated := l.allocated + 1 }, some l.allocated) := by
  unfold allocateContainer
  by_cases hlt : index < l.m_modules.length
  · cases given with
    | false => exact .inl (by simp)
    | true => exact .inr ⟨hlt, rfl, by simp [hlt]⟩
  · exact .inl (by simp [hlt])

namespace App.Agree

variable {s₀ s : LoaderImpl LoadedModule} {k gone : Nat} {app : App}

/-- A newly constructed application has nothing registered. -/
theorem new (additionalDirectories : List String) (fs : FileSystem LoadedModule) :
    Agree (.new additionalDirectories fs) 0 0
      (.new (LoaderImpl.new additionalDirectories fs).m_modules) (.new additionalDirectories fs) where
  used := .start
  tracks := .new additionalDirectories fs
  keys := rfl
  stored := fun _ _ _ h => by cases h
  reported := rfl
  initialized := fun _ h => by cases h

theorem mem_keys_iff (h : Agree s₀ k gone app s) (i : Nat) :
    i ∈ app.m_mediaService.m_upstream.m_containers.map Prod.fst ↔ i < k := by
  rw [h.keys, List.mem_range]

/-- **Asking for a registered index** gives the container stored there, and has it initialised. -/
theorem acquireContainer (h : Agree s₀ k gone app s) {i : Nat} (hi : i < k) :
    ∃ p' container, (app.m_mediaService.acquireContainer i).result = .ok (p', container) ∧
      (i, container) ∈ app.m_mediaService.m_upstream.m_containers ∧
      Agree s₀ k gone { app with m_mediaService := p' } s := by
  obtain ⟨container, hacquire, hmem⟩ :=
    ProcessorStorage.acquireContainer_of_mem ((h.mem_keys_iff i).mpr hi)
  unfold ProcessorInitializer.acquireContainer
  rw [hacquire, Traced.pure_bind]
  split
  · exact ⟨_, container, rfl, hmem, h⟩
  · refine ⟨_, container, rfl, hmem, ?_⟩
    refine ⟨h.used, h.tracks, h.keys, h.stored, h.reported, fun j hj => ?_⟩
    rcases (List.mem_orderedInsert _).mp hj with rfl | hj'
    · exact hi
    · exact h.initialized j hj'

/-- The loader went on with the same modules, and the containers that are stored are still tracked. -/
theorem loader (h : Agree s₀ k gone app s) {l' : ProcessorLoader} {s' : LoaderImpl LoadedModule}
    (hused : Used s₀ s') (htracks : Tracks l' s') {gone' : Nat}
    (hstored : ∀ i container, gone' ≤ i →
      (i, container) ∈ app.m_mediaService.m_upstream.m_containers → s'.m_processors container = some i) :
    Agree s₀ k gone' { app with m_processorLoader := l' } s' where
  used := hused
  tracks := htracks
  keys := h.keys
  stored := hstored
  reported := by
    have hmodules : l'.m_modules = app.m_processorLoader.m_modules := by
      rw [htracks.modules, h.tracks.modules, hused.modules_eq.1, h.used.modules_eq.1]
    rw [h.reported]
    simp only [ProcessorLoader.processorName, hmodules]
  initialized := h.initialized

/-- **Destroying a container** that is tracked, and stored under none of the indices that remain. -/
theorem destroyContainer (h : Agree s₀ k gone app s) (h₀ : LoaderImpl.GivenBack s₀)
    {container : ContainerId} {i gone' : Nat} (hcontainer : s.m_processors container = some i)
    (hle : gone ≤ gone') (hother : ∀ j, gone' ≤ j →
      (j, container) ∉ app.m_mediaService.m_upstream.m_containers) :
    ∃ l' s', app.m_processorLoader.destroyContainer container =
        ⟨[.deallocate container], .ok l'⟩ ∧
      Agree s₀ k gone' { app with m_processorLoader := l' } s' := by
  obtain ⟨module, -, hdestroys⟩ :=
    (h.used.givenBack h₀).destroys container (by rw [hcontainer]; simp)
  have htracks := h.tracks.destroyContainer container
  rw [hdestroys] at htracks
  obtain ⟨l', hl', htracks'⟩ := htracks
  refine ⟨l', _, hl', h.loader (.destroy h.used container) htracks' fun j c hj hmem => ?_⟩
  have hne : c ≠ container := fun heq => hother j hj (heq ▸ hmem)
  rw [LoaderImpl.m_processors_destroyContainer_of_ne _ hne]
  exact h.stored j c (Nat.le_trans hle hj) hmem

/-- **Allocating a container**: it is tracked, and not stored yet. -/
theorem allocateContainer (h : Agree s₀ k 0 app s) {i : Nat} (given : Bool) {l' : ProcessorLoader}
    {container : ContainerId}
    (hallocate : app.m_processorLoader.allocateContainer i given = (l', some container)) :
    ∃ s', Agree s₀ k 0 { app with m_processorLoader := l' } s' ∧
      s'.m_processors container = some i ∧
      ∀ j, (j, container) ∉ app.m_mediaService.m_upstream.m_containers := by
  rcases app.m_processorLoader.allocateContainer_cases i given with hnone | ⟨hlt, rfl, hsome⟩
  · rw [hnone] at hallocate
    cases hallocate
  · obtain ⟨-, htracks⟩ := h.tracks.allocateContainer i true
    rw [hsome] at hallocate htracks
    cases hallocate
    have hnew : ∀ j, (j, app.m_processorLoader.allocated) ∉
        app.m_mediaService.m_upstream.m_containers := by
      intro j hmem
      have hstored := h.stored j _ (Nat.zero_le j) hmem
      rw [h.tracks.fresh _ (Nat.le_refl _)] at hstored
      cases hstored
    have hprocessors := LoaderImpl.m_processors_allocateContainer (h.tracks.modules ▸ hlt)
    refine ⟨_, h.loader (.allocate h.used i _) htracks fun j c _ hmem => ?_, ?_, hnew⟩
    · have hne : c ≠ app.m_processorLoader.allocated := fun heq => hnew j (heq ▸ hmem)
      simp only [if_true, hprocessors, if_neg hne]
      exact h.stored j c (Nat.zero_le j) hmem
    · simp [hprocessors]

/-- An index that is stored is refused. -/
theorem addContainer_of_lt (h : Agree s₀ k gone app s) {i : Nat} (hi : i < k)
    (container : ContainerId) :
    app.m_mediaService.addContainer i container = (.kAlreadyExists, app.m_mediaService) := by
  simp only [ProcessorInitializer.addContainer, ProcessorStorage.addContainer,
    (h.mem_keys_iff i).mpr hi, dite_true]

/-- **Registering the next index**, in the image service and in the capabilities. -/
theorem addContainer (h : Agree s₀ k 0 app s) {container : ContainerId}
    (hcontainer : s.m_processors container = some k) :
    ∃ service, app.m_mediaService.addContainer k container = (.kOk, service) ∧
      Agree s₀ (k + 1) 0 ({ app with m_mediaService := service }.addAvailableProcessor
        (app.m_processorLoader.processorName k) k) s := by
  have hfree : k ∉ app.m_mediaService.m_upstream.m_containers.map Prod.fst :=
    fun hmem => Nat.lt_irrefl k ((h.mem_keys_iff k).mp hmem)
  simp only [ProcessorInitializer.addContainer, ProcessorStorage.addContainer, hfree, dite_false]
  refine ⟨_, rfl, ?_⟩
  have hunknown : (app.m_capProvider.any fun proc => proc.index = k) = false := by
    rw [h.reported]
    simp
    omega
  simp only [addAvailableProcessor, hunknown, Bool.false_eq_true, if_false]
  refine ⟨h.used, h.tracks, ?_, fun i c hle hmem => ?_, ?_, fun i hi =>
    Nat.lt_succ_of_lt (h.initialized i hi)⟩
  · simp [h.keys, List.range_succ]
  · rcases List.mem_append.mp hmem with hold | hnew
    · exact h.stored i c hle hold
    · obtain ⟨rfl, rfl⟩ := Prod.mk.inj (List.mem_singleton.mp hnew)
      exact hcontainer
  · simp [h.reported, List.range_succ]

/-- **The loop of `init`** from an index on that is stored or the next one. -/
theorem initLoop (given : Nat → Bool) (h₀ : LoaderImpl.GivenBack s₀) (remaining : Nat) {i : Nat}
    (h : Agree s₀ k 0 app s) (hi : i ≤ k) :
    ∃ err app' k' s', (app.initLoop given i remaining).result = .ok (err, app') ∧
      Agree s₀ k' 0 app' s' := by
  induction remaining generalizing app s k i with
  | zero => exact ⟨.kOk, app, k, s, rfl, h⟩
  | succ remaining ih =>
      unfold App.initLoop
      split
      · exact ⟨.kInvalidInput, app, k, s, rfl, h⟩
      · next l' container hallocate =>
        obtain ⟨s', h', hcontainer, hnew⟩ := h.allocateContainer (given i) hallocate
        rcases Nat.lt_or_eq_of_le hi with hlt | rfl
        · -- the index is taken: the new container is given back
          rw [h.addContainer_of_lt hlt container]
          obtain ⟨l'', s'', hdestroy, h''⟩ :=
            h'.destroyContainer h₀ hcontainer (Nat.le_refl 0) fun j _ => hnew j
          dsimp only at hdestroy ⊢
          rw [hdestroy]
          exact ⟨.kAlreadyExists, _, k, s'', rfl, h''⟩
        · obtain ⟨service, hadd, h''⟩ := h'.addContainer hcontainer
          dsimp only at hadd
          rw [hadd]
          exact ih h'' (Nat.le_refl _)

/-- **The loop of `deinit`** destroys the containers one after another. -/
theorem deinitLoop (h₀ : LoaderImpl.GivenBack s₀) (remaining : Nat)
    (h : Agree s₀ k gone app s) (hk : gone + remaining = k) :
    ∃ app' s', (app.deinitLoop gone remaining).result = .ok app' ∧ Agree s₀ k k app' s' := by
  induction remaining generalizing app s gone with
  | zero =>
      cases hk
      exact ⟨app, s, rfl, h⟩
  | succ remaining ih =>
      obtain ⟨p', container, hacquire, hmem, h'⟩ := h.acquireContainer (i := gone) (by omega)
      have hcontainer := h.stored gone container (Nat.le_refl gone) hmem
      have hother : ∀ j, gone + 1 ≤ j → (j, container) ∉ p'.m_upstream.m_containers := by
        intro j hj hmem'
        have hstored := h'.stored j container (by omega) hmem'
        rw [hcontainer] at hstored
        cases hstored
        omega
      obtain ⟨l', s', hdestroy, h''⟩ := h'.destroyContainer h₀ hcontainer (Nat.le_succ gone) hother
      obtain ⟨app', s'', hrest, hdone⟩ := ih h'' (by omega)
      rw [App.deinitLoop, Traced.bind_of_ok _ hacquire]
      dsimp only at hdestroy ⊢
      rw [hdestroy, Traced.ok_bind]
      exact ⟨app', s'', hrest, hdone⟩

/-- **Clearing the image service** leaves it empty. -/
theorem clear (h : Agree s₀ k gone app s) : app.m_mediaService.clear.result = .ok .empty := by
  unfold ProcessorInitializer.clear
  rw [Traced.bind_of_ok _ (ProcessorInitializer.foldlM_deinitContainer rfl fun i hi =>
    (h.mem_keys_iff i).mpr (h.initialized i hi))]
  rfl

/-! ## Every call keeps the registries in agreement -/

/-- `init`, however far it comes. -/
theorem init (h : Agree s₀ k 0 app s) (h₀ : LoaderImpl.GivenBack s₀) (given : Nat → Bool) :
    ∃ err app' k' s', (app.init given).result = .ok (err, app') ∧ Agree s₀ k' 0 app' s' :=
  h.initLoop given h₀ _ (Nat.zero_le k)

/-- `deinit` leaves nothing registered. -/
theorem deinit (h : Agree s₀ k 0 app s) (h₀ : LoaderImpl.GivenBack s₀) :
    ∃ app' s', app.deinit.result = .ok app' ∧ Agree s₀ 0 0 app' s' := by
  have hcount : app.m_mediaService.processorCount = k := by
    have hlength := congrArg List.length h.keys
    rwa [List.length_map, List.length_range] at hlength
  obtain ⟨app', s', hloop, h'⟩ := h.deinitLoop h₀ k (Nat.zero_add k)
  unfold App.deinit
  rw [hcount, Traced.bind_of_ok _ hloop]
  dsimp only
  rw [Traced.bind_of_ok _ h'.clear]
  refine ⟨_, s', rfl, h'.used, h'.tracks, rfl, fun _ _ _ hmem => ?_, rfl, fun _ hmem => ?_⟩
  · cases hmem
  · cases hmem

/-- A request changes nothing that is registered; one for an unknown index throws. -/
theorem processImage (h : Agree s₀ k 0 app s) (input : Request) :
    (∃ app', (app.processImage input).result = .ok app' ∧ Agree s₀ k 0 app' s) ∨
      ∃ e, (app.processImage input).result = .error e := by
  unfold App.processImage
  cases input.decoded with
  | false => exact .inl ⟨app, rfl, h⟩
  | true =>
      simp only [Bool.true_eq_false, if_false]
      by_cases hi : input.modelId < k
      · obtain ⟨p', container, hacquire, -, h'⟩ := h.acquireContainer hi
        rw [Traced.bind_of_ok _ hacquire]
        refine .inl ⟨{ app with m_mediaService := p' }, ?_, h'⟩
        cases input.processor <;> rfl
      · have hunknown := ProcessorStorage.acquireContainer_of_not_mem
          fun hmem => hi ((h.mem_keys_iff _).mp hmem)
        exact .inr ⟨.outOfRange, by simp [ProcessorInitializer.acquireContainer, hunknown]⟩

/-- **One call.** -/
theorem perform (h : Agree s₀ k 0 app s) (h₀ : LoaderImpl.GivenBack s₀) (call : AppCall) :
    ∃ app' k' s', app.perform call = some app' ∧ Agree s₀ k' 0 app' s' := by
  cases call with
  | init given =>
      obtain ⟨err, app', k', s', hinit, h'⟩ := h.init h₀ given
      exact ⟨app', k', s', by simp [App.perform, hinit], h'⟩
  | deinit =>
      obtain ⟨app', s', hdeinit, h'⟩ := h.deinit h₀
      exact ⟨app', 0, s', by simp [App.perform, hdeinit], h'⟩
  | processImage input =>
      rcases h.processImage input with ⟨app', hok, h'⟩ | ⟨e, herr⟩
      · exact ⟨app', k, s, by simp [App.perform, hok], h'⟩
      · exact ⟨app, k, s, by simp [App.perform, herr], h⟩

/-- A whole run. -/
theorem run (h : Agree s₀ k 0 app s) (h₀ : LoaderImpl.GivenBack s₀) (calls : List AppCall) :
    ∃ app' k' s', Lib.run App.perform app calls = some app' ∧ Agree s₀ k' 0 app' s' := by
  induction calls generalizing app k s with
  | nil => exact ⟨app, k, s, rfl, h⟩
  | cons call calls ih =>
      obtain ⟨app₁, k₁, s₁, hcall, h₁⟩ := h.perform h₀ call
      obtain ⟨app', k', s', hrest, h'⟩ := ih h₁
      exact ⟨app', k', s', by rw [run_cons, hcall]; exact hrest, h'⟩

/-- What the invariant says of the registries. -/
theorem registriesAgree (h : Agree s₀ k 0 app s) (h₀ : LoaderImpl.GivenBack s₀) :
    RegistriesAgree s₀ app := by
  have hindices : app.m_capProvider.map (·.index) = List.range k := by
    rw [h.reported, List.map_map]
    exact List.map_id _
  refine ⟨fun _ i => ?_, fun _ => ?_, fun _ proc hproc => ?_, s, h.used, h.tracks,
    fun i container hmem => ?_⟩
  · rw [h.keys]
    exact hindices ▸ Iff.rfl
  · exact hindices ▸ List.nodup_range
  · have hreported : proc ∈ app.m_capProvider := hproc
    rw [h.reported] at hreported
    obtain ⟨i, -, rfl⟩ := List.mem_map.mp hreported
    rfl
  · have hstored := h.stored i container (Nat.zero_le i) hmem
    obtain ⟨module, hmodule, howner⟩ :=
      (LoaderImpl.givenBack_iff s).mp (h.used.givenBack h₀) container i hstored
    exact ⟨module, (h.used.procModule_eq i).symm.trans hmodule, howner,
      (h.tracks.processors container).trans hstored⟩

end App.Agree

/-- **The registries agree** after every call of `init`, `deinit` and `processImage`, in any order and
however many, whatever the loader has found and whichever modules return a container at each `init`; and
every such call comes back. -/
theorem registries_agree (additionalDirectories : List String) (fs : FileSystem LoadedModule)
    (calls : List AppCall) :
    ∃ app, run App.perform (.new (LoaderImpl.new additionalDirectories fs).m_modules) calls = some app ∧
      app.RegistriesAgree (.new additionalDirectories fs) := by
  have h₀ := LoaderImpl.givenBack_new additionalDirectories fs
  obtain ⟨app, k, s, hrun, h⟩ := (App.Agree.new additionalDirectories fs).run h₀ calls
  exact ⟨app, hrun, h.registriesAgree h₀⟩

end LimbWorker
