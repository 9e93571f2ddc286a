import LimbWorker.App

/-!
# The life of a container

Which orders of calls are legal for a container, and when a run of the program keeps to them.

`App::deinit` reaches the containers through the initialising `getContainer`, destroys them, and clears
the image service afterwards, which deinitialises what it still believes to be initialised. So every
container that was registered is called after its deallocation, and the runs with legal orders are those
in which none was registered.
-/

namespace LimbWorker

open ImageService Lib

/-! ## Legal orders -/

/-- The calls that one container may see: one `init` at most, and that before any processor is
acquired; no `init` without a request; before its deallocation one `deinit` if there was an `init`; and
nothing after it. -/
structure LegalFor (c : ContainerId) (trace : List ContainerCall) : Prop where
  init_once : trace.count (.init c) ≤ 1
  init_first : ∀ pre post, trace = pre ++ .tryAcquireProcessor c :: post → .init c ∈ pre
  init_used : .init c ∈ trace → .tryAcquireProcessor c ∈ trace
  deinit_once : ∀ pre post, trace = pre ++ .deallocate c :: post → .init c ∈ pre →
    pre.count (.deinit c) = 1
  deallocated : ∀ pre post, trace = pre ++ .deallocate c :: post →
    .init c ∉ post ∧ .deinit c ∉ post ∧ .tryAcquireProcessor c ∉ post ∧
      .reclaimProcessor c ∉ post ∧ .deallocate c ∉ post

/-- Every container sees a legal order of calls. -/
def Legal (trace : List ContainerCall) : Prop := ∀ c, LegalFor c trace

namespace App

/-! ## What is registered -/

/-- Containers `0, …, k - 1` are registered under their own number, and the loader tracks them. -/
structure Registered (k : Nat) (app : App) : Prop where
  containers : app.m_mediaService.m_upstream.m_containers = (List.range k).map fun i => (i, i)
  processors : app.m_processorLoader.m_processors = (List.range k).map fun i => (i, i)
  modules : k ≤ app.m_processorLoader.m_modules.length
  initialized : ∀ i ∈ app.m_mediaService.m_initializedMap, i < k

theorem registered_new (modules : List LoadedModule) : Registered 0 (new modules) where
  containers := rfl
  processors := rfl
  modules := Nat.zero_le _
  initialized := fun i h => by simp [new, ProcessorInitializer.empty] at h

theorem lookup_range (k i : Nat) :
    ((List.range k).map fun i => (i, i)).lookup i = if i < k then some i else none := by
  induction k with
  | zero => rfl
  | succ k ih =>
      rw [List.range_succ, List.map_append, List.lookup_append, ih]
      by_cases hi : i < k
      · simp [hi, Nat.lt_succ_of_lt hi]
      · by_cases heq : i = k
        · simp [heq]
        · have hge : ¬ i < k + 1 := by omega
          simp [hi, hge, heq]

/-- Asking for a registered index gives its container and has it initialised. -/
theorem acquireContainer_ok {p : ProcessorInitializer} {k i : Nat}
    (h : p.m_upstream.m_containers = (List.range k).map fun i => (i, i)) (hi : i < k) :
    ∃ p', (p.acquireContainer i).result = .ok (p', i) ∧ p'.m_upstream = p.m_upstream ∧
      ∀ j, j ∈ p'.m_initializedMap ↔ j = i ∨ j ∈ p.m_initializedMap := by
  have hlookup : p.m_upstream.acquireContainer i = pure i := by
    rw [ProcessorStorage.acquireContainer, h, lookup_range, if_pos hi]
  unfold ProcessorInitializer.acquireContainer
  rw [hlookup, Traced.pure_bind]
  split
  · next hmem =>
    refine ⟨p, rfl, rfl, fun j => ⟨.inr, ?_⟩⟩
    rintro (rfl | hj)
    · exact hmem
    · exact hj
  · exact ⟨_, rfl, rfl, fun j => List.mem_orderedInsert _⟩

/-- Announcing a processor touches neither the containers nor the loader. -/
theorem addAvailableProcessor_eq (app : App) (name : String) (i : Nat) :
    ∃ capProvider, app.addAvailableProcessor name i = { app with m_capProvider := capProvider } := by
  unfold addAvailableProcessor
  split
  · exact ⟨_, rfl⟩
  · exact ⟨_, rfl⟩

/-- One more container, under the next number. -/
theorem Registered.succ {i : Nat} {app : App} (h : Registered i app)
    (hlt : i < app.m_processorLoader.m_modules.length)
    (hnodup : ((app.m_mediaService.m_upstream.m_containers ++ [(i, i)]).map Prod.fst).Nodup)
    (capProvider : List AppTasks.AppInfoTask.AvailableProcessor) :
    Registered (i + 1)
      ⟨⟨app.m_mediaService.m_initializedMap,
          ⟨app.m_mediaService.m_upstream.m_containers ++ [(i, i)], hnodup⟩⟩,
        ⟨app.m_processorLoader.m_modules, app.m_processorLoader.m_processors ++ [(i, i)], i + 1⟩,
        capProvider⟩ where
  containers := by simp [h.containers, List.range_succ]
  processors := by simp [h.processors, List.range_succ]
  modules := hlt
  initialized := fun j hj => Nat.lt_succ_of_lt (h.initialized j hj)

/-- The loop of `init` registers container after container and calls none of them; it stops at the first
module that returns none. -/
theorem initLoop_registered (given : Nat → Bool) {app : App} {i : Nat} (remaining : Nat)
    (h : Registered i app) (hnext : app.m_processorLoader.allocated = i)
    (hlen : i + remaining = app.m_processorLoader.m_modules.length) :
    ∃ err app' k, app.initLoop given i remaining = ⟨[], .ok (err, app')⟩ ∧ Registered k app' ∧
      i ≤ k ∧ (k = i ↔ remaining = 0 ∨ given i = false) := by
  induction remaining generalizing app i with
  | zero => exact ⟨.kOk, app, i, rfl, h, Nat.le_refl i, by simp⟩
  | succ remaining ih =>
      have hlt : i < app.m_processorLoader.m_modules.length := by omega
      cases hgiven : given i with
      | false =>
          -- the first module that gives no container ends the loop
          refine ⟨.kInvalidInput, app, i, ?_, h, Nat.le_refl i, by simp⟩
          simp only [initLoop, ProcessorLoader.allocateContainer, hlt, hgiven, if_true,
            Bool.false_eq_true, if_false]
          rfl
      | true =>
          -- the indexes registered so far are those below `i`
          have hfree : i ∉ app.m_mediaService.m_upstream.m_containers.map Prod.fst := by
            simp [h.containers]
          have hnodup : ((app.m_mediaService.m_upstream.m_containers ++ [(i, i)]).map
              Prod.fst).Nodup := by
            rw [List.map_append]
            exact app.m_mediaService.m_upstream.nodup.append (List.nodup_singleton i)
              (by simpa using hfree)
          simp only [initLoop, ProcessorLoader.allocateContainer, hlt, hgiven, if_true, hnext,
            ProcessorInitializer.addContainer, ProcessorStorage.addContainer, hfree, dite_false]
          obtain ⟨capProvider, hcap⟩ := addAvailableProcessor_eq
            ⟨⟨app.m_mediaService.m_initializedMap,
              ⟨app.m_mediaService.m_upstream.m_containers ++ [(i, i)], hnodup⟩⟩,
              ⟨app.m_processorLoader.m_modules, app.m_processorLoader.m_processors ++ [(i, i)], i + 1⟩,
              app.m_capProvider⟩ _ i
          rw [hcap]
          obtain ⟨err, app', k, happ, hreg, hle, -⟩ := ih (h.succ hlt hnodup capProvider) rfl
            (show i + 1 + remaining = app.m_processorLoader.m_modules.length by omega)
          exact ⟨err, app', k, happ, hreg, by omega, by simp; omega⟩

/-! ## Requests -/

/-- A request keeps everything registered, and can only be one of a registered container. -/
theorem processImage_registered {k : Nat} {app : App} (h : Registered k app) (input : Request) :
    (∃ app', (app.processImage input).result = .ok app' ∧ Registered k app') ∧
      (k = 0 → (app.processImage input).events = []) ∨
    ∃ e, (app.processImage input).result = .error e ∧ (app.processImage input).events = [] := by
  unfold processImage
  cases input.decoded with
  | false => exact .inl ⟨⟨app, rfl, h⟩, fun _ => rfl⟩
  | true =>
      simp only [Bool.true_eq_false, if_false]
      by_cases hi : input.modelId < k
      · obtain ⟨p', hok, hup, hinit⟩ := acquireContainer_ok h.containers hi
        refine .inl ⟨⟨{ app with m_mediaService := p' }, ?_, ?_⟩, fun hk => by omega⟩
        · rw [Traced.bind_of_ok _ hok]
          cases input.processor <;> rfl
        · refine ⟨by rw [← h.containers, hup], h.processors, h.modules, fun j hj => ?_⟩
          rcases (hinit j).mp hj with rfl | hj'
          · exact hi
          · exact h.initialized j hj'
      · refine .inr ⟨.outOfRange, ?_⟩
        have hlookup : app.m_mediaService.m_upstream.acquireContainer input.modelId =
            .fault .outOfRange := by
          rw [ProcessorStorage.acquireContainer, h.containers, lookup_range, if_neg hi]
        simp [ProcessorInitializer.acquireContainer, hlookup]

/-- Requests keep everything registered; without a registered container they call none. -/
theorem requests_registered {k : Nat} {app : App} (h : Registered k app) (inputs : List Request) :
    (∃ app', (app.requests inputs).result = .ok app' ∧ Registered k app') ∧
      (k = 0 → (app.requests inputs).events = []) := by
  induction inputs generalizing app with
  | nil => exact ⟨⟨app, rfl, h⟩, fun _ => rfl⟩
  | cons input rest ih =>
      simp only [requests]
      rcases processImage_registered h input with ⟨⟨app', hok, hreg⟩, hnone⟩ | ⟨e, herr, hnone⟩
      · obtain ⟨hrest, hevents⟩ := ih hreg
        rw [hok]
        exact ⟨hrest, fun hk => by simp [hnone hk, hevents hk]⟩
      · obtain ⟨hrest, hevents⟩ := ih h
        rw [herr]
        exact ⟨hrest, fun hk => by simp [hnone, hevents hk]⟩

/-! ## Destruction -/

/-- The loop of `deinit` destroys the remaining containers, and leaves all of them marked as
initialised. -/
theorem deinitLoop_registered {k : Nat} {app : App} {i : Nat} (remaining : Nat)
    (hcontainers : app.m_mediaService.m_upstream.m_containers = (List.range k).map fun i => (i, i))
    (hprocessors : ∀ j, i ≤ j → j < k → app.m_processorLoader.m_processors.lookup j = some j)
    (hmodules : k ≤ app.m_processorLoader.m_modules.length) (hk : i + remaining = k)
    (hinit : ∀ j ∈ app.m_mediaService.m_initializedMap, j < k) :
    ∃ app', (app.deinitLoop i remaining).result = .ok app' ∧
      app'.m_mediaService.m_upstream = app.m_mediaService.m_upstream ∧
      (∀ j, j ∈ app'.m_mediaService.m_initializedMap ↔
        j ∈ app.m_mediaService.m_initializedMap ∨ i ≤ j ∧ j < k) ∧
      ∀ j, i ≤ j → j < k → .deallocate j ∈ (app.deinitLoop i remaining).events := by
  induction remaining generalizing app i with
  | zero => exact ⟨app, rfl, rfl, fun j => by simp; omega, fun j _ _ => by omega⟩
  | succ remaining ih =>
      have hi : i < k := by omega
      -- the container is acquired first, which marks and initialises it
      obtain ⟨p', hok, hup, hinit'⟩ := acquireContainer_ok hcontainers hi
      obtain ⟨module, hmodule⟩ : ∃ m, app.m_processorLoader.m_modules[i]? = some m :=
        ⟨_, List.getElem?_eq_getElem (by omega)⟩
      -- then it is destroyed, which takes it from the loader only
      have hdestroy : app.m_processorLoader.destroyContainer i = ⟨[.deallocate i], .ok
          { app.m_processorLoader with
            m_processors := app.m_processorLoader.m_processors.filter fun e => e.1 ≠ i }⟩ := by
        rw [ProcessorLoader.destroyContainer, hprocessors i (Nat.le_refl i) hi]
        simp only [hmodule]
        rfl
      have hrest : ∀ j, i + 1 ≤ j → j < k →
          (app.m_processorLoader.m_processors.filter fun e => e.1 ≠ i).lookup j = some j := by
        intro j hij hjk
        rw [ProcessorLoader.lookup_filter_ne, if_neg (show ¬ j = i by omega)]
        exact hprocessors j (by omega) hjk
      have hinit'' : ∀ j ∈ p'.m_initializedMap, j < k := by
        intro j hj
        rcases (hinit' j).mp hj with rfl | hj'
        · exact hi
        · exact hinit j hj'
      -- the storage still knows it when the loop goes on
      obtain ⟨app', hres, hup', hset, hdealloc⟩ := @ih
        { app with
          m_mediaService := p'
          m_processorLoader := { app.m_processorLoader with
            m_processors := app.m_processorLoader.m_processors.filter fun e => e.1 ≠ i } }
        (i + 1) (by rw [← hcontainers]; exact congrArg _ hup) hrest hmodules (by omega) hinit''
      rw [deinitLoop, Traced.bind_of_ok _ hok]
      simp only [hdestroy, Traced.ok_bind]
      refine ⟨app', hres, hup'.trans hup, fun j => ?_, fun j hij hjk => ?_⟩
      · rw [hset, hinit']
        constructor
        · rintro ((rfl | hj) | ⟨h1, h2⟩)
          · exact .inr ⟨Nat.le_refl _, hi⟩
          · exact .inl hj
          · exact .inr ⟨by omega, h2⟩
        · rintro (hj | ⟨h1, h2⟩)
          · exact .inl (.inr hj)
          · rcases Nat.eq_or_lt_of_le h1 with rfl | hlt
            · exact .inl (.inl rfl)
            · exact .inr ⟨hlt, h2⟩
      · rcases Nat.eq_or_lt_of_le hij with rfl | hlt
        · simp
        · exact List.mem_append_right _ (List.mem_cons_of_mem _ (hdealloc j hlt hjk))

/-- Clearing deinitialises every index that was marked, whether or not its container still exists. -/
theorem deinit_mem_foldlM {k j : Nat} {p : ProcessorInitializer} (indices : List Nat)
    (hcontainers : p.m_upstream.m_containers = (List.range k).map fun i => (i, i))
    (hinit : ∀ i ∈ p.m_initializedMap, i < k) (hmem : j ∈ p.m_initializedMap) (hj : j ∈ indices) :
    .deinit j ∈ (indices.foldlM ProcessorInitializer.deinitContainer p).events := by
  induction indices generalizing p with
  | nil => simp at hj
  | cons i indices ih =>
      rw [List.foldlM_cons]
      by_cases hi : i ∈ p.m_initializedMap
      · -- the set shrinks by `i`, so `j` stays in it unless it is `i`
        have hdeinit : p.deinitContainer i = ⟨[.deinit i], .ok
            { p with m_initializedMap := p.m_initializedMap.erase i }⟩ := by
          simp only [ProcessorInitializer.deinitContainer, hi, if_true,
            ProcessorStorage.acquireContainer, hcontainers, lookup_range, hinit i hi]
          rfl
        rw [hdeinit, Traced.ok_bind]
        by_cases hij : i = j
        · simp [hij]
        · have hrest : j ∈ indices := by
            rcases List.mem_cons.mp hj with heq | hrest
            · exact absurd heq.symm hij
            · exact hrest
          refine List.mem_append_right _ (ih hcontainers ?_ ?_ hrest)
          · exact fun i' hi' => hinit i' (List.mem_of_mem_erase hi')
          · exact (List.mem_erase_of_ne (Ne.symm hij)).mpr hmem
      · have hrest : j ∈ indices := by
          rcases List.mem_cons.mp hj with rfl | hrest
          · exact absurd hmem hi
          · exact hrest
        -- an index that is not in the set is passed over
        have hskip : p.deinitContainer i = pure p := by
          simp only [ProcessorInitializer.deinitContainer, hi, if_false]
        rw [hskip, Traced.pure_bind]
        exact ih hcontainers hinit hmem hrest

/-- **A registered container is called after its deallocation** by `deinit`. -/
theorem deinit_after_deallocate {k : Nat} {app : App} (h : Registered k app) (hk : 0 < k) :
    ∃ pre post, app.deinit.events = pre ++ .deallocate 0 :: post ∧ .deinit 0 ∈ post := by
  have hcount : app.m_mediaService.processorCount = k := by
    simp [ProcessorInitializer.processorCount, ProcessorStorage.processorCount, h.containers]
  obtain ⟨app', hok, hup, hset, hdealloc⟩ := deinitLoop_registered k h.containers
    (i := 0) (fun j _ hj => by rw [h.processors, lookup_range, if_pos hj]) h.modules
    (Nat.zero_add k) h.initialized
  obtain ⟨pre, post, hevents⟩ := List.append_of_mem (hdealloc 0 (Nat.le_refl 0) hk)
  have hmarked : 0 ∈ app'.m_mediaService.m_initializedMap :=
    (hset 0).mpr (.inr ⟨Nat.le_refl 0, hk⟩)
  have hclear : .deinit 0 ∈ app'.m_mediaService.clear.events := by
    unfold ProcessorInitializer.clear
    rw [Traced.events_bind_pure]
    exact deinit_mem_foldlM _ (by rw [hup]; exact h.containers)
      (fun i hi => ((hset i).mp hi).elim (h.initialized i) And.right) hmarked hmarked
  have hdeinit : app.deinit.events =
      (app.deinitLoop 0 k).events ++ app'.m_mediaService.clear.events := by
    unfold deinit
    rw [hcount, Traced.bind_of_ok _ hok]
    dsimp only
    rw [Traced.events_bind_pure]
  rw [hdeinit, hevents, List.append_assoc, List.cons_append]
  exact ⟨pre, _, rfl, List.mem_append_right _ hclear⟩

/-- Destroying nothing and clearing nothing calls nothing, and leaves nothing registered. -/
theorem deinit_of_registered_zero {app : App} (h : Registered 0 app) :
    ∃ app', app.deinit = ⟨[], .ok app'⟩ ∧ Registered 0 app' := by
  have hnone : app.m_mediaService.m_initializedMap = [] := by
    rw [List.eq_nil_iff_forall_not_mem]
    exact fun i hi => Nat.not_lt_zero i (h.initialized i hi)
  have hcount : app.m_mediaService.processorCount = 0 := by
    simp [ProcessorInitializer.processorCount, ProcessorStorage.processorCount, h.containers]
  refine ⟨{ app with
    m_capProvider := [], m_mediaService := ⟨app.m_mediaService.m_initializedMap, .empty⟩ }, ?_,
    ⟨rfl, h.processors, h.modules, h.initialized⟩⟩
  unfold deinit
  rw [hcount]
  simp only [deinitLoop, ProcessorInitializer.clear, hnone, List.foldlM_nil, Traced.pure_bind]
  rfl

end App

/-! ## Legal runs -/

/-- Nothing is a legal order. -/
theorem legal_nil : Legal [] := by
  intro c
  refine ⟨by simp, ?_, by simp, ?_, ?_⟩
  all_goals
    intro pre post h
    simp at h

/-- A call after the deallocation is not. -/
theorem not_legal_of_deinit_after_deallocate {pre post : List ContainerCall} {c : ContainerId}
    (h : .deinit c ∈ post) : ¬ Legal (pre ++ .deallocate c :: post) :=
  fun hlegal => ((hlegal c).deallocated pre post rfl).2.1 h

/-- No container was ever registered: there is no module, or the first one returns no container. -/
def NothingRegistered (modules : List LoadedModule) (given : Nat → Bool) : Prop :=
  modules = [] ∨ given 0 = false

/-- **Containers see a legal order of calls exactly when none was registered**: for every list of
modules, every answer of their `allocateContainer`, and every sequence of requests. -/
theorem lifecycle_legal_iff (modules : List LoadedModule) (given : Nat → Bool)
    (inputs : List Request) :
    Legal (App.lifecycle modules given inputs).events ↔ NothingRegistered modules given := by
  obtain ⟨err, app, k, hinit, hreg, -, hk⟩ := App.initLoop_registered given
    modules.length (App.registered_new modules) rfl (Nat.zero_add _)
  have hzero : k = 0 ↔ NothingRegistered modules given := by
    rw [hk, NothingRegistered, List.length_eq_zero_iff]
  obtain ⟨⟨app', hok, hreg'⟩, hquiet⟩ := App.requests_registered hreg inputs
  have hinit' : (App.new modules).init given = ⟨[], .ok (err, app)⟩ := hinit
  -- what is heard: the requests, and the two calls of `deinit` at the end
  have hevents : (App.lifecycle modules given inputs).events =
      (app.requests inputs).events ++ (app'.deinit >>= fun app => app.deinit >>= fun _ =>
        (pure () : Service Unit)).events := by
    unfold App.lifecycle
    rw [hinit', Traced.ok_bind]
    dsimp only
    rw [List.nil_append, Traced.bind_of_ok _ hok]
  rw [hevents, ← hzero]
  by_cases h0 : k = 0
  · -- without containers there is nothing to hear
    subst h0
    obtain ⟨app₁, hdeinit, hreg₁⟩ := App.deinit_of_registered_zero hreg'
    obtain ⟨app₂, hdeinit', -⟩ := App.deinit_of_registered_zero hreg₁
    rw [hquiet rfl, hdeinit, Traced.ok_bind]
    dsimp only
    rw [hdeinit']
    exact iff_of_true legal_nil rfl
  · refine iff_of_false (fun hlegal => ?_) h0
    -- with one, the first `deinit` deallocates it before it is deinitialised
    obtain ⟨pre, post, hdeinit, hpost⟩ :=
      App.deinit_after_deallocate hreg' (Nat.pos_of_ne_zero h0)
    obtain ⟨tail, htail⟩ : ∃ tail, (app'.deinit >>= fun app => app.deinit >>= fun _ =>
        (pure () : Service Unit)).events = app'.deinit.events ++ tail :=
      Traced.events_bind_prefix _
    rw [htail, hdeinit, List.append_assoc, ← List.append_assoc, List.cons_append] at hlegal
    exact not_legal_of_deinit_after_deallocate (List.mem_append_left _ hpost) hlegal

/-- One module and one request: the container is deinitialised after it was deallocated. -/
theorem one_container_not_legal :
    ¬ Legal (App.lifecycle [⟨"loopback"⟩] (fun _ => true) [⟨0, true, true⟩]).events := by
  have htrace : (App.lifecycle [⟨"loopback"⟩] (fun _ => true) [⟨0, true, true⟩]).events =
      [.init 0, .tryAcquireProcessor 0, .reclaimProcessor 0] ++ .deallocate 0 :: [.deinit 0] := by
    rfl
  rw [htrace]
  exact not_legal_of_deinit_after_deallocate (by simp)

end LimbWorker
