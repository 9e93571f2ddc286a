import LimbWorker.ImageService.ImageService

/-!
# Requests that have to be refused

Two kinds of request end before a container is used: the file is neither PNG nor JPEG, or the model is not
registered. The first calls a member of a null codec, the second lets the exception of `std::map::at` escape.
What a request leaves in the provider of the containers is followed here too, as an exception does not take
it back.
-/

namespace LimbWorker.ImageService

open AppTasks Image Lib

/-! ## The provider over a sequence of calls -/

/-- A call of the provider by its owner or by a request. -/
inductive ProviderCall where
  | addContainer (index : Nat) (container : ContainerId)
  | removeContainer (index : Nat)
  | acquireContainer (index : Nat)
  | clear

namespace ProcessorInitializer

/-- The provider after `acquireContainer`. `at` throws before anything is written. -/
def afterAcquire (p : ProcessorInitializer) (index : Nat) : ProcessorInitializer :=
  match (p.acquireContainer index).result with
  | .ok (p', _) => p'
  | .error _ => p

/-- One call; an exception out of `clear` would end the run. -/
def step (p : ProcessorInitializer) : ProviderCall → Option ProcessorInitializer
  | .addContainer index container => some (p.addContainer index container).2
  | .removeContainer index =>
      match (p.removeContainer index).result with
      | .ok (_, p') => some p'
      | .error _ => some p
  | .acquireContainer index => some (p.afterAcquire index)
  | .clear =>
      match p.clear.result with
      | .ok p' => some p'
      | .error _ => none

/-- The indices that containers are registered under. -/
def registered (p : ProcessorInitializer) : List Nat := p.m_upstream.m_containers.map Prod.fst

/-- The set has no index twice, and only of containers that are registered. -/
structure Inv (p : ProcessorInitializer) : Prop where
  nodup : p.m_initializedMap.Nodup
  registered : ∀ index ∈ p.m_initializedMap, index ∈ p.registered

variable {p p' : ProcessorInitializer} {index : Nat}

theorem inv_empty : Inv empty := ⟨List.nodup_nil, fun _ h => absurd h List.not_mem_nil⟩

/-- Asking for an index that is not registered throws. -/
theorem acquireContainer_of_not_mem (h : index ∉ p.registered) :
    p.m_upstream.acquireContainer index = .fault .outOfRange := by
  have hlookup : p.m_upstream.m_containers.lookup index = none := by
    rw [List.lookup_eq_none_iff]
    intro entry hentry
    have hne : index ≠ entry.1 := by
      rintro rfl
      exact h (List.mem_map_of_mem hentry)
    simpa using hne
  rw [ProcessorStorage.acquireContainer, hlookup]

/-- Asking for one that is registered gives a container. -/
theorem acquireContainer_of_mem (h : index ∈ p.registered) :
    ∃ container, p.m_upstream.acquireContainer index = pure container := by
  cases hlookup : p.m_upstream.m_containers.lookup index with
  | none =>
      obtain ⟨entry, hentry, rfl⟩ := List.mem_map.mp h
      have hne := (List.lookup_eq_none_iff.mp hlookup) entry hentry
      simp at hne
  | some container => exact ⟨container, by rw [ProcessorStorage.acquireContainer, hlookup]⟩

/-- Where the storage throws, the initializer has written nothing. -/
theorem afterAcquire_of_not_mem (h : index ∉ p.registered) : p.afterAcquire index = p := by
  unfold afterAcquire acquireContainer
  rw [acquireContainer_of_not_mem h, Traced.fault_bind]
  rfl

theorem Inv.acquire (h : Inv p) (index : Nat) : Inv (p.afterAcquire index) := by
  by_cases hmem : index ∈ p.registered
  · obtain ⟨container, hcontainer⟩ := acquireContainer_of_mem hmem
    unfold afterAcquire acquireContainer
    rw [hcontainer, Traced.pure_bind]
    split
    · next hinit =>
      split at hinit
      · cases hinit
        exact h
      · next hnew =>
        cases hinit
        refine ⟨?_, fun i hi => ?_⟩
        · exact ((List.perm_orderedInsert _ index p.m_initializedMap).nodup_iff).mpr
            (List.nodup_cons.mpr ⟨hnew, h.nodup⟩)
        · rcases (List.mem_orderedInsert _).mp hi with rfl | hi
          · exact hmem
          · exact h.registered i hi
    · exact h
  · rwa [afterAcquire_of_not_mem hmem]

/-- `deinitContainer` takes one index out of the set. -/
theorem Inv.deinit (h : Inv p) (index : Nat) :
    ∃ p', (p.deinitContainer index).result = .ok p' ∧ p'.m_upstream = p.m_upstream ∧
      p'.m_initializedMap = p.m_initializedMap.erase index := by
  unfold deinitContainer
  split
  · next hmem =>
    obtain ⟨container, hcontainer⟩ := acquireContainer_of_mem (h.registered index hmem)
    rw [hcontainer]
    exact ⟨_, rfl, rfl, rfl⟩
  · next hmem => exact ⟨p, rfl, rfl, (List.erase_of_not_mem hmem).symm⟩

theorem Inv.of_erase (h : Inv p) (hup : p'.m_upstream = p.m_upstream)
    (herase : p'.m_initializedMap = p.m_initializedMap.erase index) : Inv p' := by
  refine ⟨by rw [herase]; exact h.nodup.erase index, fun i hi => ?_⟩
  rw [herase] at hi
  unfold ProcessorInitializer.registered
  rw [hup]
  exact h.registered i (List.mem_of_mem_erase hi)

/-- The loop of `clear` takes its indices out of the set. -/
theorem Inv.clear_loop (indices : List Nat) (h : Inv p) :
    ∃ p', (indices.foldlM deinitContainer p).result = .ok p' ∧ Inv p' ∧
      ∀ i ∈ p'.m_initializedMap, i ∈ p.m_initializedMap ∧ i ∉ indices := by
  induction indices generalizing p with
  | nil => exact ⟨p, rfl, h, fun i hi => ⟨hi, List.not_mem_nil⟩⟩
  | cons index rest ih =>
      obtain ⟨p₁, hfirst, hup, herase⟩ := h.deinit index
      obtain ⟨p₂, hrest, hinv, hset⟩ := ih (h.of_erase hup herase)
      refine ⟨p₂, ?_, hinv, fun i hi => ?_⟩
      · rw [List.foldlM_cons, Traced.bind_of_ok _ hfirst]
        exact hrest
      · obtain ⟨hi, hnot⟩ := hset i hi
        rw [herase, h.nodup.mem_erase_iff] at hi
        refine ⟨hi.2, fun hmem => ?_⟩
        rcases List.mem_cons.mp hmem with rfl | hmem
        · exact hi.1 rfl
        · exact hnot hmem

/-- **No call of the provider throws out of its own loops**, and every one keeps the set within what is
registered. -/
theorem Inv.step (h : Inv p) (call : ProviderCall) : ∃ p', p.step call = some p' ∧ Inv p' := by
  cases call with
  | addContainer index container =>
      refine ⟨_, rfl, h.nodup, fun i hi => ?_⟩
      have hold : i ∈ p.m_upstream.m_containers.map Prod.fst := h.registered i hi
      show i ∈ (p.m_upstream.addContainer index container).2.m_containers.map Prod.fst
      unfold ProcessorStorage.addContainer
      split
      · exact hold
      · rw [List.map_append]
        exact List.mem_append_left _ hold
  | removeContainer index =>
      obtain ⟨p₁, hdeinit, hup, herase⟩ := h.deinit index
      have hinv := h.of_erase hup herase
      have hresult : (p.removeContainer index).result =
          .ok ((p₁.m_upstream.removeContainer index).1,
            { p₁ with m_upstream := (p₁.m_upstream.removeContainer index).2 }) := by
        unfold ProcessorInitializer.removeContainer
        rw [Traced.bind_of_ok _ hdeinit]
        rfl
      refine ⟨{ p₁ with m_upstream := (p₁.m_upstream.removeContainer index).2 },
        by rw [ProcessorInitializer.step, hresult], hinv.nodup, fun i hi => ?_⟩
      obtain ⟨entry, hentry, rfl⟩ := List.mem_map.mp (hinv.registered i hi)
      -- the index that is removed is no longer in the set
      have hne : entry.1 ≠ index := by
        have hmem : entry.1 ∈ p.m_initializedMap.erase index := herase ▸ hi
        exact (h.nodup.mem_erase_iff.mp hmem).1
      exact List.mem_map_of_mem (List.mem_filter.mpr ⟨hentry, by simpa using hne⟩)
  | acquireContainer index => exact ⟨_, rfl, h.acquire index⟩
  | clear =>
      -- the loop deinitialises every index of the set
      obtain ⟨p₁, hloop, -, hset⟩ := h.clear_loop p.m_initializedMap
      have hresult : p.clear.result = .ok { p₁ with m_upstream := .empty } := by
        unfold ProcessorInitializer.clear
        rw [Traced.bind_of_ok _ hloop]
        rfl
      refine ⟨{ p₁ with m_upstream := .empty }, by rw [ProcessorInitializer.step, hresult], ?_⟩
      have hempty : p₁.m_initializedMap = [] :=
        List.eq_nil_iff_forall_not_mem.mpr fun i hi => (hset i hi).2 (hset i hi).1
      refine ⟨by rw [hempty]; exact List.nodup_nil, fun i hi => ?_⟩
      rw [hempty] at hi
      exact absurd hi List.not_mem_nil

/-- Every sequence of calls can be made. -/
theorem run_provider (calls : List ProviderCall) :
    ∃ p, run ProcessorInitializer.step empty calls = some p ∧ Inv p := by
  suffices h : ∀ p, Inv p → ∃ p', run ProcessorInitializer.step p calls = some p' ∧ Inv p' from
    h empty inv_empty
  induction calls with
  | nil => exact fun p h => ⟨p, rfl, h⟩
  | cons call rest ih =>
      intro p h
      obtain ⟨p₁, hstep, h₁⟩ := h.step call
      obtain ⟨p₂, hrest, h₂⟩ := ih p₁ h₁
      exact ⟨p₂, by rw [run_cons, hstep]; exact hrest, h₂⟩

end ProcessorInitializer

namespace Environment

variable (env : Environment)

/-! ## Models that are not registered -/

/-- The provider after a request. Of its parts only `getContainer` touches it, once the file is decoded. -/
def providerAfter (p : ProcessorInitializer) (factory : CodecFactory) (input : ImageTask) :
    ProcessorInitializer :=
  match env.getImageById input.imageId with
  | (.kOk, inImage) =>
      match factory.acquireFromData inImage with
      | some (some codec, _) =>
          match env.decode codec inImage with
          | (.kOk, _) => p.afterAcquire input.modelId
          | _ => p
      | _ => p
  | _ => p

/-- The repository has a file under this name, and it is one that the codecs can decode. -/
structure StoresValid (imageId : String) (inImage : Bytes) : Prop where
  read : env.getImageById imageId = (.kOk, inImage)
  signature : HasPngSignature inImage ∨ HasJpegMarkers inImage
  decodes : ∀ codec, ∃ inPixel, env.decode codec inImage = (.kOk, inPixel)

/-- The request returns a status that says it failed; the provider (its storage and its set) and the
repository are as they were. -/
structure RefusedCleanly (p : ProcessorInitializer) (factory : CodecFactory) (input : ImageTask) :
    Prop where
  refused : ∃ ret, ret ≠ .kOk ∧ (env.processImage p factory input).result = .ok ret
  provider : env.providerAfter p factory input = p
  repository : updates (env.processImage p factory input).events = []

variable {env} {p : ProcessorInitializer} {input : ImageTask} {inImage : Bytes}

/-- A file that carries a signature gets a codec. -/
theorem acquire_of_signature {γ : Type} {pool : PoolState γ} (hinv : pool.Inv)
    (h : HasPngSignature inImage ∨ HasJpegMarkers inImage) :
    ∃ type codec factory', pool.factory.acquireFromData inImage = some (some codec, factory') ∧
      CodecFactory.Acquired pool.factory type codec factory' := by
  rcases CodecFactory.acquireFromData_spec hinv.filed inImage with
    ⟨type, codec, factory', -, -, hacquire, hspec⟩ | ⟨hpng, hjpg, -⟩
  · exact ⟨type, codec, factory', hacquire, hspec⟩
  · rw [← PngCodec.canDecode_iff, ← JpgCodec.canDecode_iff, hpng, hjpg] at h
    simp at h

/-- From the codec on, where the model is not registered. -/
theorem useCodec_of_not_mem {factory : CodecFactory} {codec : CodecId} {inPixel : Picture}
    (hmodel : input.modelId ∉ p.registered) (hdecode : env.decode codec inImage = (.kOk, inPixel)) :
    env.useCodec p factory codec input inImage = ⟨[.decode codec], .error .outOfRange⟩ := by
  unfold useCodec ProcessorInitializer.acquireContainer
  rw [hdecode, ProcessorInitializer.acquireContainer_of_not_mem hmodel]
  rfl

/-- **An unknown model is never refused with a status**: the exception of `at` escapes, however the containers
came to be registered. It leaves the provider and the repository as they were. -/
theorem processImage_unknown_model {γ : Type} [DecidableEq γ] (env : Environment)
    {pool : PoolState γ} {poolCalls : List (PoolCall γ)}
    (hpool : run PoolState.step PoolState.start poolCalls = some pool) (calls : List ProviderCall) :
    ∃ p, run ProcessorInitializer.step .empty calls = some p ∧ ∀ input inImage,
      env.StoresValid input.imageId inImage → input.modelId ∉ p.registered →
        ¬ env.RefusedCleanly p pool.factory input ∧
        (env.processImage p pool.factory input).result = .error .outOfRange ∧
        env.providerAfter p pool.factory input = p ∧
        updates (env.processImage p pool.factory input).events = [] := by
  have hinv : pool.Inv := run_invariant (fun _ _ _ h hs => h.step hs) PoolState.inv_start hpool
  obtain ⟨p, hp, -⟩ := ProcessorInitializer.run_provider calls
  refine ⟨p, hp, fun input inImage hvalid hmodel => ?_⟩
  obtain ⟨type, codec, factory', hacquire, -⟩ := acquire_of_signature hinv hvalid.signature
  obtain ⟨inPixel, hdecode⟩ := hvalid.decodes codec
  -- the codec is given back by its guard while the exception passes
  have hcall : env.processImage p pool.factory input =
      ⟨[.getImageById input.imageId, .acquireCodec codec, .decode codec, .reclaimCodec codec],
        .error .outOfRange⟩ := by
    unfold processImage
    rw [hvalid.read, Traced.emit_bind]
    dsimp only
    rw [hacquire]
    dsimp only
    rw [Traced.emit_bind, useCodec_of_not_mem hmodel hdecode]
    rfl
  refine ⟨fun h => ?_, by rw [hcall], ?_, by rw [hcall]; rfl⟩
  · obtain ⟨ret, -, hret⟩ := h.refused
    rw [hcall] at hret
    cases hret
  · unfold providerAfter
    rw [hvalid.read]
    dsimp only
    rw [hacquire]
    dsimp only
    rw [hdecode]
    exact ProcessorInitializer.afterAcquire_of_not_mem hmodel

/-- A repository with a PNG file, and codecs that decode it. -/
def withFile : Environment where
  getImageById := fun _ => (.kOk, pngSignature)
  updateImageById := fun _ _ _ => .kOk
  decode := fun _ _ => (.kOk, ⟨some [1, 2, 3], 3, 1, 1, 3⟩)
  encode := fun _ _ => .called (some [0]) 1 id
  tryAcquireProcessor := fun _ => some fun picture => (.kOk, picture)

theorem withFile_storesValid : withFile.StoresValid "image" pngSignature where
  read := rfl
  signature := .inl List.prefix_rfl
  decodes := fun _ => ⟨_, rfl⟩

/-- Container `7` is registered as model `0`, and the request is for model `1`. -/
theorem withFile_unknown_model :
    ∃ p, run ProcessorInitializer.step .empty [.addContainer 0 7] = some p ∧ ∀ input inImage,
      withFile.StoresValid input.imageId inImage → input.modelId ∉ p.registered →
        ¬ withFile.RefusedCleanly p .empty input ∧
        (withFile.processImage p .empty input).result = .error .outOfRange ∧
        withFile.providerAfter p .empty input = p ∧
        updates (withFile.processImage p .empty input).events = [] := by
  have hpool : run PoolState.step (PoolState.start : PoolState Unit) [] = some .start := rfl
  exact processImage_unknown_model withFile hpool [.addContainer 0 7]

/-- There the request does not return. -/
theorem withFile_throws : ∃ p, run ProcessorInitializer.step .empty [.addContainer 0 7] = some p ∧
    withFile.StoresValid "image" pngSignature ∧ 1 ∉ p.registered ∧
    ¬ withFile.RefusedCleanly p .empty ⟨1, "image"⟩ := by
  refine ⟨_, rfl, withFile_storesValid, by decide, fun h => ?_⟩
  obtain ⟨ret, -, hret⟩ := h.refused
  cases hret

/-! ## Files that no codec can decode -/

/-- What a request does with containers. -/
def containerCalls (calls : List ServiceCall) : List ServiceCall :=
  calls.filter fun
    | .container _ => true
    | .process_image _ => true
    | .reclaimContainer _ => true
    | _ => false

/-- No member of a null codec is called; and a file that no codec can decode ends the request with a status
that says so, before a container is acquired and with the repository as it was. -/
structure Survives (env : Environment) (p : ProcessorInitializer) (factory : CodecFactory)
    (input : ImageTask) : Prop where
  codec : (env.processImage p factory input).result ≠ .error .undefinedBehaviour
  unrecognised : ∀ inImage, env.getImageById input.imageId = (.kOk, inImage) →
    PngCodec.canDecode inImage = false → JpgCodec.canDecode inImage = false →
    ∃ ret, ret ≠ .kOk ∧ (env.processImage p factory input).result = .ok ret ∧
      containerCalls (env.processImage p factory input).events = [] ∧
      env.providerAfter p factory input = p ∧
      updates (env.processImage p factory input).events = []

/-- From the container on, a request returns. -/
theorem useContainer_ok {factory : CodecFactory} {codec : CodecId} {type : CodecType}
    (htype : factory.type codec = some type) (hfiled : CodecFactory.Filed factory)
    (hfree : factory.pooled codec = 0) (imageId : String) (inPixel : Picture)
    (container : ContainerId) :
    ∃ calls ret, env.useContainer factory codec imageId inPixel container = ⟨calls, .ok ret⟩ := by
  cases hprocessor : env.tryAcquireProcessor container with
  | none => exact ⟨_, _, useContainer_of_none hprocessor inPixel⟩
  | some processor =>
      cases hprocessed : checked (processor { inPixel with size := 0 }) with
      | error ret => exact ⟨_, _, useContainer_of_some hprocessor (process_of_error hprocessed)⟩
      | ok outPixel =>
          obtain ⟨encoder, pre, post, -, -, hstore⟩ :=
            store_cases env imageId htype hfiled hfree outPixel
          exact ⟨_, _, useContainer_of_some hprocessor (process_of_ok hprocessed hstore)⟩

/-- From the codec on, it returns or the lookup of the container throws. -/
theorem useCodec_result (env : Environment) {factory : CodecFactory} {codec : CodecId} {type : CodecType}
    (htype : factory.type codec = some type) (hfiled : CodecFactory.Filed factory)
    (hfree : factory.pooled codec = 0) (p : ProcessorInitializer) (input : ImageTask)
    (inImage : Bytes) :
    ∃ calls, (∃ ret, env.useCodec p factory codec input inImage = ⟨calls, .ok ret⟩) ∨
      env.useCodec p factory codec input inImage = ⟨calls, .error .outOfRange⟩ := by
  cases hdecoded : checked (env.decode codec inImage) with
  | error ret => exact ⟨_, .inl ⟨ret, useCodec_of_error hdecoded⟩⟩
  | ok inPixel =>
      by_cases hmodel : input.modelId ∈ p.registered
      · obtain ⟨container, hcontainer⟩ := ProcessorInitializer.acquireContainer_of_mem hmodel
        obtain ⟨inits, -, huse⟩ := useCodec_of_ok factory hcontainer hdecoded
        obtain ⟨calls, ret, hcalls⟩ :=
          useContainer_ok htype hfiled hfree input.imageId inPixel container
        exact ⟨_, .inl ⟨ret, huse calls ret hcalls⟩⟩
      · exact ⟨_, .inr (useCodec_of_not_mem hmodel (eq_of_checked_ok hdecoded))⟩

/-- A file that could be read and that a codec can decode: no null codec is used. -/
theorem processImage_of_signature {γ : Type} {pool : PoolState γ} (hinv : pool.Inv)
    (p : ProcessorInitializer) (hread : env.getImageById input.imageId = (.kOk, inImage))
    (h : HasPngSignature inImage ∨ HasJpegMarkers inImage) :
    (env.processImage p pool.factory input).result ≠ .error .undefinedBehaviour := by
  obtain ⟨type, codec, factory', hacquire, hspec⟩ := acquire_of_signature hinv h
  obtain ⟨calls, hbody⟩ := useCodec_result env hspec.type_eq hspec.filed
    (hinv.pooled_acquired hspec) p input inImage
  unfold processImage
  rw [hread, Traced.emit_bind]
  dsimp only
  rw [hacquire]
  dsimp only
  rcases hbody with ⟨ret, hret⟩ | hthrow
  · rw [Traced.emit_bind, hret]
    exact fun h => by cases h
  · rw [Traced.emit_bind, hthrow]
    exact fun h => by cases h

/-- A file that no codec can decode: a member of a null codec is called. -/
theorem processImage_of_unrecognised {γ : Type} {pool : PoolState γ} (hinv : pool.Inv)
    (p : ProcessorInitializer) (hread : env.getImageById input.imageId = (.kOk, inImage))
    (h : ¬ (HasPngSignature inImage ∨ HasJpegMarkers inImage)) :
    (env.processImage p pool.factory input).result = .error .undefinedBehaviour := by
  rcases CodecFactory.acquireFromData_spec hinv.filed inImage with
    ⟨type, -, -, htype, hdecode, -, -⟩ | ⟨-, -, hacquire⟩
  · cases type with
    | kPng => exact absurd (.inl ((PngCodec.canDecode_iff inImage).mp hdecode)) h
    | kJpg => exact absurd (.inr ((JpgCodec.canDecode_iff inImage).mp hdecode)) h
    | Count => exact absurd rfl htype
  · unfold processImage
    rw [hread, Traced.emit_bind]
    dsimp only
    rw [hacquire]
    rfl

/-- **Which stored bytes are survived**: exactly those with a PNG signature or with both JPEG markers, and
those that could not be read. -/
theorem survives_iff {γ : Type} [DecidableEq γ] (env : Environment) {pool : PoolState γ}
    {poolCalls : List (PoolCall γ)}
    (hpool : run PoolState.step PoolState.start poolCalls = some pool) (p : ProcessorInitializer)
    (input : ImageTask) :
    env.Survives p pool.factory input ↔ ∀ inImage,
      env.getImageById input.imageId = (.kOk, inImage) →
        HasPngSignature inImage ∨ HasJpegMarkers inImage := by
  have hinv : pool.Inv := run_invariant (fun _ _ _ h hs => h.step hs) PoolState.inv_start hpool
  constructor
  · intro h inImage hread
    by_contra hnone
    exact h.codec (processImage_of_unrecognised hinv p hread hnone)
  · intro h
    refine ⟨?_, fun inImage hread hpng hjpg => ?_⟩
    · rcases hread : env.getImageById input.imageId with ⟨status, inImage⟩
      by_cases hok : status = .kOk
      · subst hok
        exact processImage_of_signature hinv p hread (h inImage hread)
      · rw [processImage_of_unread hread hok]
        exact fun h => by cases h
    · exact absurd ⟨hpng, hjpg⟩ (recognised (h inImage hread))

/-- One stray byte after the end marker. -/
def strayByte : Bytes := [0xFF, 0xD8, 0xFF, 0xD9, 0x00]

/-- A repository with that file. -/
def withStrayByte : Environment := { withFile with getImageById := fun _ => (.kOk, strayByte) }

/-- The request does not survive it. -/
theorem withStrayByte_not_survives : ¬ withStrayByte.Survives .empty .empty ⟨0, "image"⟩ :=
  fun h => h.codec rfl

/-- With a PNG file it does. -/
theorem withFile_survives : withFile.Survives .empty .empty ⟨0, "image"⟩ ↔ ∀ inImage,
    withFile.getImageById "image" = (.kOk, inImage) →
      HasPngSignature inImage ∨ HasJpegMarkers inImage := by
  have hpool : run PoolState.step (PoolState.start : PoolState Unit) [] = some .start := rfl
  exact survives_iff withFile hpool .empty ⟨0, "image"⟩

end Environment

end LimbWorker.ImageService
