import LimbWorker.AppTasks.TaskParser
import LimbWorker.Image.CodecFactory
import LimbWorker.ImageService.ProcessorProvider

/-!
# `ImageService::processImage`

One request: read the file, decode it, have it processed, and write the result back. Codecs, containers and
processors are given back by the destructors of the local variables, in the reverse order; the repository is
written from within the callback of the encoder.

What the repository, the codecs and the processors answer is the environment, whatever they answer. The trace
is every call that is made.
-/

namespace LimbWorker.ImageService

open AppTasks Image Lib

/-- `image::Container` and `ImageInfo`; `data` may be null. -/
structure Picture where
  data : Option Bytes
  size : Nat
  w : Int
  h : Int
  c : Int
  deriving DecidableEq

/-- How `encode` goes: it returns without having called its callback, or calls it once with a buffer and a
size and returns what `returned` makes of the status of the callback. -/
inductive EncodeOutcome where
  | refused (ret : ReturnStatus)
  | called (data : Option Bytes) (size : Nat) (returned : ReturnStatus → ReturnStatus)

/-- `ImageProcessor`, as far as `process_image` goes. -/
abbrev ImageProcessor := Picture → ReturnStatus × Picture

/-- What the service calls into. Codecs have a state, so their answers may depend on the object. -/
structure Environment where
  getImageById : String → ReturnStatus × Bytes
  updateImageById : String → Option Bytes → Nat → ReturnStatus
  decode : CodecId → Bytes → ReturnStatus × Picture
  encode : CodecId → Picture → EncodeOutcome
  tryAcquireProcessor : ContainerId → Option ImageProcessor

/-- A call that the service makes. -/
inductive ServiceCall where
  | getImageById (imageId : String)
  | acquireCodec (codec : CodecId)
  | decode (codec : CodecId)
  | container (call : ContainerCall)
  | process_image (c : ContainerId)
  | encode (codec : CodecId)
  | updateImageById (imageId : String) (data : Option Bytes) (size : Nat)
  | reclaimContainer (c : ContainerId)
  | reclaimCodec (codec : CodecId)
  deriving DecidableEq

/-- An exception unwinds the stack; undefined behaviour does not. -/
def Fault.unwinds : Fault → Bool
  | .outOfRange => true
  | .undefinedBehaviour => false

abbrev RequestTrace := Traced ServiceCall Fault

namespace Environment

variable (env : Environment)

/-- `codec->encode(outPixel, encodeCb)`. -/
def encodeWith (codec : CodecId) (imageId : String) (outPixel : Picture) : RequestTrace ReturnStatus := do
  .emit (.encode codec)
  match env.encode codec outPixel with
  | .refused ret => return ret
  | .called data size returned =>
      .emit (.updateImageById imageId data size)
      return returned (env.updateImageById imageId data size)

/-- From the processed picture on: a picture with four channels is not written as JPEG. -/
def store (factory : CodecFactory) (codec : CodecId) (imageId : String) (outPixel : Picture) :
    RequestTrace ReturnStatus :=
  if outPixel.c = 4 ∧ factory.type codec = some .kJpg then
    match factory.acquireFromType .kPng with
    | none => .fault .undefinedBehaviour
    | some (pngCodec, _) => do
        .emit (.acquireCodec pngCodec)
        (env.encodeWith pngCodec imageId outPixel).scope Fault.unwinds (.reclaimCodec pngCodec)
  else env.encodeWith codec imageId outPixel

/-- From the processor on. -/
def process (factory : CodecFactory) (codec : CodecId) (imageId : String) (inPixel : Picture)
    (container : ContainerId) (processor : ImageProcessor) : RequestTrace ReturnStatus := do
  .emit (.process_image container)
  match processor { inPixel with size := 0 } with
  | (.kOk, outPixel) => env.store factory codec imageId outPixel
  | (ret, _) => return ret

/-- From the container on. A container that is stored is not null. -/
def useContainer (factory : CodecFactory) (codec : CodecId) (imageId : String) (inPixel : Picture)
    (container : ContainerId) : RequestTrace ReturnStatus := do
  .emit (.container (.tryAcquireProcessor container))
  match env.tryAcquireProcessor container with
  | none => return .kAborted
  | some processor =>
      (env.process factory codec imageId inPixel container processor).scope Fault.unwinds
        (.container (.reclaimProcessor container))

/-- From the codec on. -/
def useCodec (p : ProcessorInitializer) (factory : CodecFactory) (codec : CodecId) (input : ImageTask)
    (inImage : Bytes) : RequestTrace ReturnStatus := do
  .emit (.decode codec)
  match env.decode codec inImage with
  | (.kOk, inPixel) =>
      let (_, container) ← (p.acquireContainer input.modelId).mapEvents ServiceCall.container
      (env.useContainer factory codec input.imageId inPixel container).scope Fault.unwinds
        (.reclaimContainer container)
  | (ret, _) => return ret

/-- `ImageService::processImage`, with the containers in `p` and the codecs in `factory`. A member of a null
codec is called where neither codec can decode the file. -/
def processImage (p : ProcessorInitializer) (factory : CodecFactory) (input : ImageTask) :
    RequestTrace ReturnStatus := do
  .emit (.getImageById input.imageId)
  match env.getImageById input.imageId with
  | (.kOk, inImage) =>
      match factory.acquireFromData inImage with
      | some (some codec, factory) => do
          .emit (.acquireCodec codec)
          (env.useCodec p factory codec input inImage).scope Fault.unwinds (.reclaimCodec codec)
      | _ => .fault .undefinedBehaviour
  | (ret, _) => return ret

/-! ## What a request is for -/

/-- A status and what came with it, as a step that succeeds or fails. -/
def checked {α : Type} : ReturnStatus × α → Except ReturnStatus α
  | (.kOk, a) => .ok a
  | (ret, _) => .error ret

/-- The picture that is to be written back, or the status of the first step that failed. -/
def finishedPicture (codec : CodecId) (container : ContainerId) (inImage : Bytes) :
    Except ReturnStatus Picture := do
  let inPixel ← checked (env.decode codec inImage)
  match env.tryAcquireProcessor container with
  | none => .error .kAborted
  | some processor => checked (processor { inPixel with size := 0 })

/-- The codec that is to write the picture, which is `codec` unless that one would lose the alpha channel. -/
def IsEncoder (factory : CodecFactory) (type : CodecType) (codec : CodecId) (outPixel : Picture)
    (encoder : CodecId) : Prop :=
  if outPixel.c = 4 ∧ type = .kJpg then
    encoder ≠ codec ∧ ∃ factory', factory.acquireFromType .kPng = some (encoder, factory') ∧
      factory'.type encoder = some .kPng
  else encoder = codec

/-- The writes to the repository. -/
def updates (calls : List ServiceCall) : List ServiceCall :=
  calls.filter fun
    | .updateImageById _ _ _ => true
    | _ => false

/-- The calls that get and give back codecs. -/
def codecCalls (calls : List ServiceCall) : List ServiceCall :=
  calls.filter fun
    | .acquireCodec _ => true
    | .reclaimCodec _ => true
    | _ => false

/-- The calls of and about containers, their initialisation apart. -/
def processorCalls (calls : List ServiceCall) : List ServiceCall :=
  calls.filter fun
    | .container (.tryAcquireProcessor _) => true
    | .container (.reclaimProcessor _) => true
    | .reclaimContainer _ => true
    | _ => false

/-- Every codec that was acquired is given back once: none, one, or a second one within the first. -/
def CodecsGivenBack (calls : List ServiceCall) : Prop :=
  codecCalls calls = [] ∨
    (∃ codec, codecCalls calls = [.acquireCodec codec, .reclaimCodec codec]) ∨
    ∃ codec pngCodec, pngCodec ≠ codec ∧ codecCalls calls =
      [.acquireCodec codec, .acquireCodec pngCodec, .reclaimCodec pngCodec, .reclaimCodec codec]

/-- A processor that was acquired is given back once, and then its container. -/
def ProcessorGivenBack (container : ContainerId) (calls : List ServiceCall) : Prop :=
  processorCalls calls = [] ∨ processorCalls calls = .container (.tryAcquireProcessor container) ::
    (if (env.tryAcquireProcessor container).isSome then [.container (.reclaimProcessor container)]
      else []) ++ [.reclaimContainer container]

/-- **The repository is written at most once, and only with a finished result.** `call` is the request for
`input` with the container that is registered for its model. -/
structure WritesOnlyFinished (factory : CodecFactory) (input : ImageTask) (container : ContainerId)
    (call : RequestTrace ReturnStatus) : Prop where
  unread : ∀ ret inImage, env.getImageById input.imageId = (ret, inImage) → ret ≠ .kOk →
    call.result = .ok ret ∧ updates call.events = []
  read : ∀ inImage, env.getImageById input.imageId = (.kOk, inImage) →
    ∃ codec factory' type, factory.acquireFromData inImage = some (some codec, factory') ∧
      factory'.type codec = some type ∧ type.canDecode inImage = true ∧
      (∀ ret, env.finishedPicture codec container inImage = .error ret →
        call.result = .ok ret ∧ updates call.events = []) ∧
      ∀ outPixel, env.finishedPicture codec container inImage = .ok outPixel →
        ∃ encoder, IsEncoder factory' type codec outPixel encoder ∧
          match env.encode encoder outPixel with
          | .refused ret => call.result = .ok ret ∧ updates call.events = []
          | .called data size returned =>
              call.result = .ok (returned (env.updateImageById input.imageId data size)) ∧
              updates call.events = [.updateImageById input.imageId data size] ∧
              ∃ pre post, call.events =
                pre ++ .encode encoder :: .updateImageById input.imageId data size :: post
  codecs : CodecsGivenBack call.events
  processor : env.ProcessorGivenBack container call.events

/-! ## The courses that a request can take -/

variable {env} {factory : CodecFactory} {codec : CodecId} {imageId : String} {container : ContainerId}

/-- A step that succeeded. -/
theorem eq_of_checked_ok {α : Type} {x : ReturnStatus × α} {a : α} (h : checked x = .ok a) :
    x = (.kOk, a) := by
  obtain ⟨status, a'⟩ := x
  cases status <;> cases h
  rfl

/-- A step that failed. -/
theorem eq_of_checked_error {α : Type} {x : ReturnStatus × α} {ret : ReturnStatus}
    (h : checked x = .error ret) : ret ≠ .kOk ∧ ∃ a, x = (ret, a) := by
  obtain ⟨status, a⟩ := x
  cases status <;> cases h <;> exact ⟨by decide, a, rfl⟩

/-- The calls of an encoder, and the status it returns. -/
def encodeCalls (env : Environment) (encoder : CodecId) (imageId : String) (outPixel : Picture) :
    List ServiceCall × ReturnStatus :=
  match env.encode encoder outPixel with
  | .refused ret => ([.encode encoder], ret)
  | .called data size returned =>
      ([.encode encoder, .updateImageById imageId data size],
        returned (env.updateImageById imageId data size))

theorem encodeWith_eq (encoder : CodecId) (outPixel : Picture) :
    env.encodeWith encoder imageId outPixel =
      ⟨(env.encodeCalls encoder imageId outPixel).1,
        .ok (env.encodeCalls encoder imageId outPixel).2⟩ := by
  unfold encodeWith encodeCalls
  cases env.encode encoder outPixel <;> rfl

/-- **Writing the picture back**: with the codec of the file, or with a PNG codec that is given back. -/
theorem store_cases (env : Environment) (imageId : String) {type : CodecType}
    (htype : factory.type codec = some type) (hfiled : CodecFactory.Filed factory)
    (hpool : factory.pooled codec = 0) (outPixel : Picture) :
    ∃ encoder pre post, IsEncoder factory type codec outPixel encoder ∧
      (pre = [] ∧ post = [] ∨
        encoder ≠ codec ∧ pre = [.acquireCodec encoder] ∧ post = [.reclaimCodec encoder]) ∧
      env.store factory codec imageId outPixel =
        ⟨pre ++ (env.encodeCalls encoder imageId outPixel).1 ++ post,
          .ok (env.encodeCalls encoder imageId outPixel).2⟩ := by
  unfold store IsEncoder
  rw [htype]
  simp only [Option.some.injEq]
  split
  · obtain ⟨encoder, factory', hacquire, hspec⟩ :=
      CodecFactory.acquireFromType_spec hfiled (show CodecType.kPng ≠ .Count by decide)
    have hne : encoder ≠ codec := by
      -- the codec of the file is in nobody's vector
      rintro rfl
      have hpooled := hspec.pooled encoder
      have hlt := CodecFactory.type_eq_some_lt htype
      have hold : ¬ (factory.created.length ≤ encoder ∧ encoder < factory'.created.length) :=
        fun h => Nat.not_lt.mpr h.1 hlt
      rw [if_pos rfl, if_neg hold, hpool] at hpooled
      omega
    refine ⟨encoder, _, _, ⟨hne, factory', hacquire, hspec.type_eq⟩, .inr ⟨hne, rfl, rfl⟩, ?_⟩
    rw [hacquire]
    dsimp only
    rw [encodeWith_eq, Traced.scope_ok]
    rfl
  · refine ⟨codec, [], [], rfl, .inl ⟨rfl, rfl⟩, ?_⟩
    rw [encodeWith_eq, List.nil_append, List.append_nil]

/-- From the processor on, where processing fails. -/
theorem process_of_error {inPixel : Picture} {processor : ImageProcessor} {ret : ReturnStatus}
    (h : checked (processor { inPixel with size := 0 }) = .error ret) :
    env.process factory codec imageId inPixel container processor =
      ⟨[.process_image container], .ok ret⟩ := by
  obtain ⟨hne, outPixel, hprocessor⟩ := eq_of_checked_error h
  unfold process
  rw [hprocessor]
  cases ret with
  | kOk => exact absurd rfl hne
  | _ => rfl

/-- From the processor on, where it succeeds. -/
theorem process_of_ok {inPixel outPixel : Picture} {processor : ImageProcessor} {ret : ReturnStatus}
    {calls : List ServiceCall} (h : checked (processor { inPixel with size := 0 }) = .ok outPixel)
    (hstore : env.store factory codec imageId outPixel = ⟨calls, .ok ret⟩) :
    env.process factory codec imageId inPixel container processor =
      ⟨.process_image container :: calls, .ok ret⟩ := by
  unfold process
  rw [eq_of_checked_ok h, Traced.emit_bind]
  dsimp only
  rw [hstore]

/-- From the container on, without a processor. -/
theorem useContainer_of_none (h : env.tryAcquireProcessor container = none) (inPixel : Picture) :
    env.useContainer factory codec imageId inPixel container =
      ⟨[.container (.tryAcquireProcessor container)], .ok .kAborted⟩ := by
  unfold useContainer
  rw [h]
  rfl

/-- From the container on, with one: it is given back in the end. -/
theorem useContainer_of_some {processor : ImageProcessor}
    (h : env.tryAcquireProcessor container = some processor) {inPixel : Picture}
    {calls : List ServiceCall} {ret : ReturnStatus}
    (hprocess : env.process factory codec imageId inPixel container processor = ⟨calls, .ok ret⟩) :
    env.useContainer factory codec imageId inPixel container =
      ⟨.container (.tryAcquireProcessor container) :: calls ++
        [.container (.reclaimProcessor container)], .ok ret⟩ := by
  unfold useContainer
  rw [h, Traced.emit_bind]
  dsimp only
  rw [hprocess, Traced.scope_ok]
  rfl

/-- Asking for a registered container initialises it or does not. -/
theorem acquireContainer_calls {p : ProcessorInitializer} {index : Nat}
    (h : p.m_upstream.acquireContainer index = pure container) :
    ∃ p' inits, (inits = [] ∨ inits = [ServiceCall.container (.init container)]) ∧
      (p.acquireContainer index).mapEvents ServiceCall.container = ⟨inits, .ok (p', container)⟩ := by
  unfold ProcessorInitializer.acquireContainer
  rw [h, Traced.pure_bind]
  split
  · exact ⟨_, [], .inl rfl, rfl⟩
  · exact ⟨_, _, .inr rfl, rfl⟩

/-- From the codec on, where decoding fails. -/
theorem useCodec_of_error {p : ProcessorInitializer} {input : ImageTask} {inImage : Bytes}
    {ret : ReturnStatus} (h : checked (env.decode codec inImage) = .error ret) :
    env.useCodec p factory codec input inImage = ⟨[.decode codec], .ok ret⟩ := by
  obtain ⟨hne, inPixel, hdecode⟩ := eq_of_checked_error h
  unfold useCodec
  rw [hdecode]
  cases ret with
  | kOk => exact absurd rfl hne
  | _ => rfl

/-- From the codec on, where it succeeds: the container is given back in the end. -/
theorem useCodec_of_ok (factory : CodecFactory) {p : ProcessorInitializer} {input : ImageTask}
    (hregistered : p.m_upstream.acquireContainer input.modelId = pure container) {inImage : Bytes}
    {inPixel : Picture} (h : checked (env.decode codec inImage) = .ok inPixel) :
    ∃ inits, (inits = [] ∨ inits = [.container (.init container)]) ∧
      ∀ calls ret, env.useContainer factory codec input.imageId inPixel container = ⟨calls, .ok ret⟩ →
        env.useCodec p factory codec input inImage =
          ⟨.decode codec :: inits ++ calls ++ [.reclaimContainer container], .ok ret⟩ := by
  obtain ⟨p', inits, hinits, hacquire⟩ := acquireContainer_calls hregistered
  refine ⟨inits, hinits, fun calls ret huse => ?_⟩
  unfold useCodec
  rw [eq_of_checked_ok h, Traced.emit_bind]
  dsimp only
  rw [hacquire, Traced.ok_bind]
  dsimp only
  rw [huse, Traced.scope_ok]
  simp

/-! ## What the trace shows -/

section Calls

variable (calls calls' : List ServiceCall)

@[simp] theorem updates_append : updates (calls ++ calls') = updates calls ++ updates calls' :=
  List.filter_append _ _

@[simp] theorem codecCalls_append :
    codecCalls (calls ++ calls') = codecCalls calls ++ codecCalls calls' :=
  List.filter_append _ _

@[simp] theorem processorCalls_append :
    processorCalls (calls ++ calls') = processorCalls calls ++ processorCalls calls' :=
  List.filter_append _ _

/-- An encoder acquires nothing. -/
@[simp] theorem codecCalls_encodeCalls (encoder : CodecId) (outPixel : Picture) :
    codecCalls (env.encodeCalls encoder imageId outPixel).1 = [] := by
  unfold encodeCalls
  cases env.encode encoder outPixel <;> rfl

@[simp] theorem processorCalls_encodeCalls (encoder : CodecId) (outPixel : Picture) :
    processorCalls (env.encodeCalls encoder imageId outPixel).1 = [] := by
  unfold encodeCalls
  cases env.encode encoder outPixel <;> rfl

end Calls

theorem encodeCalls_of_refused {encoder : CodecId} {outPixel : Picture} {ret : ReturnStatus}
    (h : env.encode encoder outPixel = .refused ret) :
    env.encodeCalls encoder imageId outPixel = ([.encode encoder], ret) := by
  rw [encodeCalls, h]

theorem encodeCalls_of_called {encoder : CodecId} {outPixel : Picture} {data : Option Bytes}
    {size : Nat} {returned : ReturnStatus → ReturnStatus}
    (h : env.encode encoder outPixel = .called data size returned) :
    env.encodeCalls encoder imageId outPixel = ([.encode encoder, .updateImageById imageId data size],
      returned (env.updateImageById imageId data size)) := by
  rw [encodeCalls, h]

/-- Putting it together: the request of a file that could be read, seen from between the first codec's
acquisition and its return. -/
theorem writesOnlyFinished_of_body {p : ProcessorInitializer} {input : ImageTask} {inImage : Bytes}
    {factory' : CodecFactory} {type : CodecType} {body : List ServiceCall} {ret : ReturnStatus}
    (hread : env.getImageById input.imageId = (.kOk, inImage))
    (hacquire : factory.acquireFromData inImage = some (some codec, factory'))
    (htype : factory'.type codec = some type) (hdecode : type.canDecode inImage = true)
    (hbody : env.useCodec p factory' codec input inImage = ⟨body, .ok ret⟩)
    (hfailed : ∀ ret', env.finishedPicture codec container inImage = .error ret' →
      ret = ret' ∧ updates body = [])
    (hencoded : ∀ outPixel, env.finishedPicture codec container inImage = .ok outPixel →
      ∃ encoder, IsEncoder factory' type codec outPixel encoder ∧ ∃ before after,
        body = before ++ (env.encodeCalls encoder input.imageId outPixel).1 ++ after ∧
        ret = (env.encodeCalls encoder input.imageId outPixel).2 ∧ updates before = [] ∧
        updates after = [])
    (hcodecs : codecCalls body = [] ∨ ∃ pngCodec, pngCodec ≠ codec ∧
      codecCalls body = [.acquireCodec pngCodec, .reclaimCodec pngCodec])
    (hprocessor : env.ProcessorGivenBack container body) :
    env.WritesOnlyFinished factory input container (env.processImage p factory input) := by
  -- the calls around the body: the read, the codec, and the codec given back
  have hcall : env.processImage p factory input =
      ⟨[.getImageById input.imageId, .acquireCodec codec] ++ body ++ [.reclaimCodec codec], .ok ret⟩ := by
    unfold processImage
    rw [hread, Traced.emit_bind]
    dsimp only
    rw [hacquire]
    dsimp only
    rw [Traced.emit_bind]
    dsimp only
    rw [hbody]
    rfl
  rw [hcall]
  constructor
  · intro ret' inImage' hread' hne
    rw [hread] at hread'
    cases hread'
    exact absurd rfl hne
  · intro inImage' hread'
    rw [hread] at hread'
    cases hread'
    refine ⟨codec, factory', type, hacquire, htype, hdecode, fun ret' hfinished => ?_,
      fun outPixel hfinished => ?_⟩
    · -- no finished picture: nothing is written
      obtain ⟨rfl, hupdates⟩ := hfailed ret' hfinished
      refine ⟨rfl, ?_⟩
      simp only [updates_append, hupdates]
      rfl
    · obtain ⟨encoder, hencoder, before, after, rfl, rfl, hbefore, hafter⟩ := hencoded outPixel hfinished
      refine ⟨encoder, hencoder, ?_⟩
      -- a codec that refuses the picture writes nothing, one that is called writes once
      cases hencode : env.encode encoder outPixel with
      | refused ret =>
          rw [encodeCalls_of_refused hencode]
          refine ⟨rfl, ?_⟩
          simp only [updates_append, hbefore, hafter]
          rfl
      | called data size returned =>
          rw [encodeCalls_of_called hencode]
          refine ⟨rfl, ?_, [.getImageById input.imageId, .acquireCodec codec] ++ before,
            after ++ [.reclaimCodec codec], by simp⟩
          simp only [updates_append, hbefore, hafter]
          rfl
  · -- the codecs are given back in the opposite order
    rcases hcodecs with hnone | ⟨pngCodec, hne, hpng⟩
    · refine .inr (.inl ⟨codec, ?_⟩)
      simp only [codecCalls_append, hnone]
      rfl
    · refine .inr (.inr ⟨codec, pngCodec, hne, ?_⟩)
      simp only [codecCalls_append, hpng]
      rfl
  · have hcalls : processorCalls ([.getImageById input.imageId, .acquireCodec codec] ++ body ++
        [.reclaimCodec codec]) = processorCalls body := by
      simp only [processorCalls_append]
      exact List.append_nil _
    unfold ProcessorGivenBack
    rw [hcalls]
    exact hprocessor

/-- A request without a finished picture stores nothing and needs no second codec. -/
theorem writesOnlyFinished_of_failed {p : ProcessorInitializer} {input : ImageTask} {inImage : Bytes}
    {factory' : CodecFactory} {type : CodecType} {body : List ServiceCall} {ret : ReturnStatus}
    (hread : env.getImageById input.imageId = (.kOk, inImage))
    (hacquire : factory.acquireFromData inImage = some (some codec, factory'))
    (htype : factory'.type codec = some type) (hdecode : type.canDecode inImage = true)
    (hbody : env.useCodec p factory' codec input inImage = ⟨body, .ok ret⟩)
    (hfinished : env.finishedPicture codec container inImage = .error ret) (hupdates : updates body = [])
    (hcodecs : codecCalls body = []) (hprocessor : env.ProcessorGivenBack container body) :
    env.WritesOnlyFinished factory input container (env.processImage p factory input) := by
  refine writesOnlyFinished_of_body hread hacquire htype hdecode hbody (fun ret' h => ?_)
    (fun outPixel h => ?_) (.inl hcodecs) hprocessor
  · rw [hfinished] at h
    cases h
    exact ⟨rfl, hupdates⟩
  · rw [hfinished] at h
    cases h

/-- The rest of a request whose file has been decoded. -/
theorem finishedPicture_of_decoded (container : ContainerId) {inImage : Bytes} {inPixel : Picture}
    (h : checked (env.decode codec inImage) = .ok inPixel) :
    env.finishedPicture codec container inImage =
      match env.tryAcquireProcessor container with
      | none => .error .kAborted
      | some processor => checked (processor { inPixel with size := 0 }) := by
  unfold finishedPicture
  rw [h]
  rfl

/-- A request whose file has been read, and whose codec is nobody else's. -/
theorem writesOnlyFinished_of_read {p : ProcessorInitializer} {input : ImageTask} {inImage : Bytes}
    {factory' : CodecFactory} {type : CodecType}
    (hregistered : p.m_upstream.acquireContainer input.modelId = pure container)
    (hread : env.getImageById input.imageId = (.kOk, inImage))
    (hacquire : factory.acquireFromData inImage = some (some codec, factory'))
    (hspec : CodecFactory.Acquired factory type codec factory') (hfree : factory'.pooled codec = 0)
    (hdecode : type.canDecode inImage = true) :
    env.WritesOnlyFinished factory input container (env.processImage p factory input) := by
  cases hdecoded : checked (env.decode codec inImage) with
  | error ret =>
      -- the picture does not decode: the container is not asked for
      have hfinished : env.finishedPicture codec container inImage = .error ret := by
        unfold finishedPicture
        rw [hdecoded]
        rfl
      exact writesOnlyFinished_of_failed hread hacquire hspec.type_eq hdecode (useCodec_of_error hdecoded)
        hfinished rfl rfl (.inl rfl)
  | ok inPixel =>
      obtain ⟨inits, hinits, huse⟩ := useCodec_of_ok factory' hregistered hdecoded
      have hfinished := finishedPicture_of_decoded container hdecoded
      cases hprocessor : env.tryAcquireProcessor container with
      | none =>
          rw [hprocessor] at hfinished
          -- no processor is free: the container still goes back
          refine writesOnlyFinished_of_failed hread hacquire hspec.type_eq hdecode
            (huse _ _ (useContainer_of_none hprocessor inPixel)) hfinished ?_ ?_ (.inr ?_)
          · rcases hinits with rfl | rfl <;> rfl
          · rcases hinits with rfl | rfl <;> rfl
          · rw [hprocessor]
            rcases hinits with rfl | rfl <;> rfl
      | some processor =>
          rw [hprocessor] at hfinished
          dsimp only at hfinished
          -- from here on the processor is given back whatever it answers
          cases hprocessed : checked (processor { inPixel with size := 0 }) with
          | error ret =>
              rw [hprocessed] at hfinished
              refine writesOnlyFinished_of_failed hread hacquire hspec.type_eq hdecode
                (huse _ _ (useContainer_of_some hprocessor (process_of_error hprocessed))) hfinished
                ?_ ?_ (.inr ?_)
              · rcases hinits with rfl | rfl <;> rfl
              · rcases hinits with rfl | rfl <;> rfl
              · rw [hprocessor]
                rcases hinits with rfl | rfl <;> rfl
          | ok outPixel =>
              rw [hprocessed] at hfinished
              -- a finished picture goes to the codec that read it, or to a PNG codec if it has an alpha channel
              obtain ⟨encoder, pre, post, hencoder, hcodecs, hstore⟩ :=
                store_cases env input.imageId hspec.type_eq hspec.filed hfree outPixel
              have hbody := huse _ _ (useContainer_of_some hprocessor (process_of_ok hprocessed hstore))
              -- what comes before the encoder's calls, and what comes after them
              let before := .decode codec :: inits ++
                [.container (.tryAcquireProcessor container), .process_image container] ++ pre
              let after := post ++
                [.container (.reclaimProcessor container), .reclaimContainer container]
              have hsplit : ServiceCall.decode codec :: inits ++
                  (.container (.tryAcquireProcessor container) :: (.process_image container ::
                    (pre ++ (env.encodeCalls encoder input.imageId outPixel).1 ++ post)) ++
                      [.container (.reclaimProcessor container)]) ++ [.reclaimContainer container] =
                  before ++ (env.encodeCalls encoder input.imageId outPixel).1 ++ after := by
                simp [before, after]
              rw [hsplit] at hbody
              refine writesOnlyFinished_of_body hread hacquire hspec.type_eq hdecode hbody
                (fun ret' h => ?_) (fun outPixel' h => ?_) ?_ (.inr ?_)
              · rw [hfinished] at h
                cases h
              · rw [hfinished] at h
                cases h
                refine ⟨encoder, hencoder, before, after, rfl, rfl, ?_, ?_⟩
                · rcases hinits with rfl | rfl <;> rcases hcodecs with ⟨rfl, -⟩ | ⟨-, rfl, -⟩ <;> rfl
                · rcases hcodecs with ⟨-, rfl⟩ | ⟨-, -, rfl⟩ <;> rfl
              · simp only [codecCalls_append, codecCalls_encodeCalls]
                rcases hcodecs with ⟨rfl, rfl⟩ | ⟨hne, rfl, rfl⟩
                · exact .inl (by rcases hinits with rfl | rfl <;> rfl)
                · exact .inr ⟨encoder, hne, by rcases hinits with rfl | rfl <;> rfl⟩
              · rw [hprocessor]
                simp only [processorCalls_append, processorCalls_encodeCalls]
                rcases hinits with rfl | rfl <;>
                  rcases hcodecs with ⟨rfl, rfl⟩ | ⟨-, rfl, rfl⟩ <;> rfl

/-- A file that could not be read. -/
theorem processImage_of_unread {p : ProcessorInitializer} {input : ImageTask} {inImage : Bytes}
    {status : ReturnStatus} (hread : env.getImageById input.imageId = (status, inImage))
    (hne : status ≠ .kOk) :
    env.processImage p factory input = ⟨[.getImageById input.imageId], .ok status⟩ := by
  unfold processImage
  rw [hread]
  cases status with
  | kOk => exact absurd rfl hne
  | _ => rfl

/-- A file with a signature has a codec. -/
theorem recognised {inImage : Bytes} (h : HasPngSignature inImage ∨ HasJpegMarkers inImage) :
    ¬ (PngCodec.canDecode inImage = false ∧ JpgCodec.canDecode inImage = false) := by
  rintro ⟨hpng, hjpg⟩
  rcases h with h | h
  · rw [← PngCodec.canDecode_iff, hpng] at h
    cases h
  · rw [← JpgCodec.canDecode_iff, hjpg] at h
    cases h

/-- **The repository is written at most once, and only with a finished result**: for every request whose model
is registered and whose file, where it can be read, carries a PNG or JPEG signature; whatever the repository,
the codecs and the processors answer, and whatever other requests have done with the pool of codecs before. -/
theorem processImage_writesOnlyFinished {γ : Type} [DecidableEq γ] (env : Environment)
    {pool : PoolState γ} {poolCalls : List (PoolCall γ)}
    (hpool : run PoolState.step PoolState.start poolCalls = some pool) {p : ProcessorInitializer}
    {input : ImageTask} {container : ContainerId}
    (hregistered : p.m_upstream.acquireContainer input.modelId = pure container)
    (hsignature : ∀ inImage, env.getImageById input.imageId = (.kOk, inImage) →
      HasPngSignature inImage ∨ HasJpegMarkers inImage) :
    env.WritesOnlyFinished pool.factory input container (env.processImage p pool.factory input) := by
  have hinv : pool.Inv := run_invariant (fun _ _ _ h hs => h.step hs) PoolState.inv_start hpool
  rcases hread : env.getImageById input.imageId with ⟨status, inImage⟩
  by_cases hok : status = .kOk
  · subst hok
    -- a codec is found because the bytes have a signature
    rcases CodecFactory.acquireFromData_spec hinv.filed inImage with
      ⟨type, codec, factory', -, hdecode, hacquire, hspec⟩ | ⟨hpng, hjpg, -⟩
    · exact writesOnlyFinished_of_read hregistered hread hacquire hspec (hinv.pooled_acquired hspec) hdecode
    · exact absurd ⟨hpng, hjpg⟩ (recognised (hsignature inImage hread))
  · rw [processImage_of_unread hread hok]
    refine ⟨fun ret _ h _ => ?_, fun _ h => ?_, .inl rfl, .inl rfl⟩
    · rw [hread] at h
      cases h
      exact ⟨rfl, rfl⟩
    · rw [hread] at h
      cases h
      exact absurd rfl hok

/-- A JPEG file from which the processor makes a picture with an alpha channel. -/
def withAlpha : Environment where
  getImageById := fun _ => (.kOk, [0xFF, 0xD8, 0xFF, 0xD9])
  updateImageById := fun _ _ _ => .kOk
  decode := fun _ _ => (.kOk, ⟨some [1, 2, 3], 3, 1, 1, 3⟩)
  encode := fun _ _ => .called (some [0]) 1 id
  tryAcquireProcessor := fun _ => some fun _ => (.kOk, ⟨some [1, 2, 3, 255], 4, 1, 1, 4⟩)

/-- It is written as PNG. -/
theorem withAlpha_writesOnlyFinished : withAlpha.WritesOnlyFinished .empty ⟨0, "image"⟩ 7
    (withAlpha.processImage ⟨[], ⟨[(0, 7)], by simp⟩⟩ .empty ⟨0, "image"⟩) := by
  have hpool : run PoolState.step (PoolState.start : PoolState Unit) [] = some .start := rfl
  refine processImage_writesOnlyFinished withAlpha hpool rfl fun inImage hread => .inr ⟨[], ?_⟩
  cases hread
  rfl

end Environment

end LimbWorker.ImageService
