import LimbWorker.ImageService.ImageService
import LimbWorker.MediaRepository.Transactions

/-!
# Tasks at the same time

The workers process tasks at the same time, and all of them read and write one repository. A task reads the image at
its beginning and writes it near its end, in several calls to the database each, and the calls of other tasks come in
between.

`processed_one_by_one` says that this makes no difference for tasks on different images: whatever the order of the
calls, every task returns what it would have returned alone, and the repository holds what it would hold if the
tasks had been processed one after the other. What counts is the object id: two ways to write one id are one image.

The repository is all that the tasks share here: each has codecs, processors and answers of the driver of its own. What
the workers do to the processors that they share, whose lazy initialisation takes no lock, is in `ParallelInit`. A task
that runs into undefined behaviour is left out.
-/

namespace LimbWorker

open AppTasks Image ImageService Lib MediaRepository

/-! ## What a request makes of the repository -/

namespace ImageService.Environment

/-- How a request depends on what `updateImageById` answers: not at all, as it writes nothing, or only in the status
that the encoder returns last. -/
inductive WritesOnce (imageId : String)
    (x : (String → Option Bytes → Nat → ReturnStatus) → RequestTrace ReturnStatus) : Prop where
  | never (events : List ServiceCall) (result : Except Fault ReturnStatus) (h : updates events = [])
      (hx : ∀ answer, x answer = ⟨events, result⟩)
  | once (events : List ServiceCall) (data : Option Bytes) (size : Nat) (returned : ReturnStatus → ReturnStatus)
      (h : updates events = [.updateImageById imageId data size])
      (hx : ∀ answer, x answer = ⟨events, .ok (returned (answer imageId data size))⟩)

namespace WritesOnce

variable {imageId : String} {x : (String → Option Bytes → Nat → ReturnStatus) → RequestTrace ReturnStatus}

theorem const (y : RequestTrace ReturnStatus) (h : updates y.events = []) :
    WritesOnce imageId fun _ => y :=
  .never y.events y.result h fun _ => rfl

/-- Something else comes first. -/
theorem after {α : Type} {y : RequestTrace α} {f : _ → α → RequestTrace ReturnStatus} (hy : updates y.events = [])
    (h : ∀ a, y.result = .ok a → WritesOnce imageId (f · a)) : WritesOnce imageId fun answer => y >>= f answer := by
  obtain ⟨first, result⟩ := y
  cases result with
  | error e => exact .never first (.error e) hy fun _ => rfl
  | ok a =>
      cases h a rfl with
      | never events result hevents hx =>
          refine .never (first ++ events) result ?_ fun answer => by rw [Traced.ok_bind, hx]
          rw [updates, List.filter_append]
          exact List.append_eq_nil_iff.mpr ⟨hy, hevents⟩
      | once events data size returned hevents hx =>
          refine .once (first ++ events) data size returned ?_ fun answer => by rw [Traced.ok_bind, hx]
          rw [updates, List.filter_append]
          exact (congrArg₂ (· ++ ·) hy hevents)

/-- Something else comes when the scope is left. -/
theorem scope (h : WritesOnce imageId x) {call : ServiceCall} (hcall : updates [call] = []) :
    WritesOnce imageId fun answer => (x answer).scope Fault.unwinds call := by
  cases h with
  | never events result hevents hx =>
      refine .never ((⟨events, result⟩ : RequestTrace ReturnStatus).scope Fault.unwinds call).events
        ((⟨events, result⟩ : RequestTrace ReturnStatus).scope Fault.unwinds call).result ?_ fun answer => by rw [hx]
      have hboth : updates (events ++ [call]) = [] := by
        rw [updates, List.filter_append]
        exact List.append_eq_nil_iff.mpr ⟨hevents, hcall⟩
      unfold Traced.scope
      split
      · exact hboth
      · split
        · exact hboth
        · exact hevents
  | once events data size returned hevents hx =>
      refine .once (events ++ [call]) data size returned ?_ fun answer => by rw [hx, Traced.scope_ok]
      rw [updates, List.filter_append]
      exact congrArg₂ (· ++ ·) hevents hcall

end WritesOnce

variable (env : Environment) (factory : CodecFactory) (codec : CodecId) (imageId : String)

theorem encodeWith_writesOnce (outPixel : Picture) : WritesOnce imageId fun answer =>
    { env with updateImageById := answer }.encodeWith codec imageId outPixel := by
  unfold encodeWith
  refine .after rfl fun _ _ => ?_
  dsimp only
  split
  · exact .const _ rfl
  · next data size returned _ =>
    exact .once [.updateImageById imageId data size] data size returned rfl fun _ => rfl

theorem store_writesOnce (outPixel : Picture) : WritesOnce imageId fun answer =>
    { env with updateImageById := answer }.store factory codec imageId outPixel := by
  unfold store
  split
  · split
    · exact .const _ rfl
    · exact .after rfl fun _ _ => (encodeWith_writesOnce env _ imageId outPixel).scope rfl
  · exact encodeWith_writesOnce env codec imageId outPixel

theorem useContainer_writesOnce (inPixel : Picture) (container : ContainerId) : WritesOnce imageId fun answer =>
    { env with updateImageById := answer }.useContainer factory codec imageId inPixel container := by
  unfold useContainer
  refine .after rfl fun _ _ => ?_
  dsimp only
  split
  · exact .const _ rfl
  · next processor _ =>
    refine .scope ?_ rfl
    unfold process
    refine .after rfl fun _ _ => ?_
    split
    · exact store_writesOnce env factory codec imageId _
    · exact .const _ rfl

/-- **A request** writes the repository at most once, and only under the id of its image. -/
theorem processImage_writesOnce (p : ProcessorInitializer) (input : ImageTask) : WritesOnce input.imageId fun answer =>
    { env with updateImageById := answer }.processImage p factory input := by
  unfold processImage
  refine .after rfl fun _ _ => ?_
  dsimp only
  split
  · split
    · next codec factory' _ =>
      refine .after rfl fun _ _ => .scope ?_ rfl
      unfold useCodec
      refine .after rfl fun _ _ => ?_
      dsimp only
      split
      · refine .after ?_ fun a _ => .scope (useContainer_writesOnce env factory' codec input.imageId _ _) rfl
        rw [updates, List.filter_eq_nil_iff]
        intro call hcall
        obtain ⟨call', -, rfl⟩ := List.mem_map.mp hcall
        exact Bool.false_ne_true
      · exact .const _ rfl
    · exact .const _ rfl
  · exact .const _ rfl

end ImageService.Environment

/-! ## A task -/

/-- What the service gets to see of a download. One that is `kOk` is read as far as its size says. -/
def MediaRepository.Download.image (d : Download) : Option (ReturnStatus × Bytes) :=
  if d.status ≠ .kOk then some (d.status, [])
  else d.filedata.bytes.bind fun bytes => if bytes.length = d.filesize then some (.kOk, bytes) else none

/-- The bytes that an encoder hands over; all of them must be there. -/
def handedOver (data : Option Bytes) (size : Nat) : Option Bytes :=
  if size ≤ (data.getD []).length then some ((data.getD []).take size) else none

/-- A task, with what codecs, processors and the driver answer while it is processed: these are its own, only the
repository is shared. -/
structure Job where
  env : Environment
  p : ProcessorInitializer
  factory : CodecFactory
  input : ImageTask
  download : DownloadResults
  update : DriverResults

namespace Job

variable {Oid Metadata : Type} (bson_oid_init_from_string : String → Oid) (job : Job)

/-- `input.imageId.size()`. -/
def size : Nat := job.input.imageId.utf8ByteSize

/-- The object id of the image. -/
def key : Oid := bson_oid_init_from_string job.input.imageId

/-- `processImage`, where the repository answers with this image and this status. -/
def answered (image : ReturnStatus × Bytes) (status : ReturnStatus) : RequestTrace ReturnStatus :=
  { job.env with getImageById := fun _ => image, updateImageById := fun _ _ _ => status }.processImage job.p
    job.factory job.input

/-- `processImage` on the repository; `none` where its behaviour is undefined. What the encoder hands over does not
depend on the status of the update. -/
def program : Transaction (Option (GridFile Metadata)) (Option (Except Fault ReturnStatus)) := do
  let download ← downloadTransaction job.download job.size
  match download.bind Download.image with
  | none => return none
  | some image =>
      match Environment.updates (job.answered image .kOk).events with
      | .updateImageById _ data size :: _ =>
          match handedOver data size with
          | none => return none
          | some filedata => do
              let status ← updateTransaction job.update job.size filedata
              return status.map fun status => (job.answered image status).result
      | _ => return some (job.answered image .kOk).result

/-- The task is processed by itself: from `store`, which is left as `store'`, the service reads an image, and either
writes nothing or gets `status` for what it writes. -/
def Processes [DecidableEq Oid] (store : Store Oid Metadata) (result : Except Fault ReturnStatus)
    (store' : Store Oid Metadata) : Prop :=
  ∃ image status,
    (getImageById bson_oid_init_from_string job.download store job.input.imageId job.size).bind Download.image =
        some image ∧
      result = (job.answered image status).result ∧
      (Environment.updates (job.answered image status).events = [] ∧ store' = store ∨
        ∃ data size filedata,
          Environment.updates (job.answered image status).events =
              [.updateImageById job.input.imageId data size] ∧
            handedOver data size = some filedata ∧
            updateImageById bson_oid_init_from_string job.update store job.input.imageId job.size filedata =
              some (status, store'))

variable [DecidableEq Oid] {bson_oid_init_from_string} {job} {store : Store Oid Metadata}

theorem answered_writesOnce (job : Job) (image : ReturnStatus × Bytes) :
    Environment.WritesOnce job.input.imageId fun answer =>
      { job.env with getImageById := fun _ => image, updateImageById := answer }.processImage job.p job.factory
        job.input :=
  Environment.processImage_writesOnce { job.env with getImageById := fun _ => image } job.factory job.p job.input

/-- The transaction does what the service does. -/
theorem processes_of_exec {result : Except Fault ReturnStatus} {file : Option (GridFile Metadata)}
    (h : job.program.exec (store (job.key bson_oid_init_from_string)) = (some result, file)) :
    job.Processes bson_oid_init_from_string store result
      (Function.update store (job.key bson_oid_init_from_string) file) := by
  unfold program at h
  rw [Transaction.exec_bind, key, exec_download] at h
  dsimp only at h
  split at h
  · cases h
  next image himage =>
  -- the service writes not at all or once, whatever status the write will have
  cases answered_writesOnce job image with
  | never events result' hnone hx =>
      have hanswered : ∀ status, job.answered image status = ⟨events, result'⟩ := fun _ => hx _
      simp only [hanswered, hnone] at h
      obtain ⟨hresult, hfile⟩ := Prod.mk.inj h
      refine ⟨image, .kOk, himage, ?_, .inl ⟨?_, ?_⟩⟩
      · rw [hanswered, Option.some.inj hresult]
      · rw [hanswered]
        exact hnone
      · rw [← hfile, key, Function.update_eq_self]
  | once events data size returned honce hx =>
      have hanswered : ∀ status, job.answered image status = ⟨events, .ok (returned status)⟩ := fun _ => hx _
      simp only [hanswered, honce] at h
      split at h
      · cases h
      next filedata hdata =>
      rw [Transaction.exec_bind] at h
      obtain ⟨hresult, hfile⟩ := Prod.mk.inj h
      obtain ⟨status, hstatus, rfl⟩ := Option.map_eq_some_iff.mp hresult
      refine ⟨image, status, himage, by rw [hanswered], .inr ⟨data, size, filedata, ?_, hdata, ?_⟩⟩
      · rw [hanswered]
        exact honce
      · rw [exec_update, onFile, hstatus, ← hfile]
        rfl

variable (bson_oid_init_from_string) in
/-- The tasks are processed one after the other, from `store`, which is left as `store'`, and every one returns. -/
def OneByOne (store : Store Oid Metadata) :
    List (Job × Option (Except Fault ReturnStatus)) → Store Oid Metadata → Prop
  | [], store' => store' = store
  | (job, returned) :: rest, store' =>
      ∃ result between, returned = some result ∧ job.Processes bson_oid_init_from_string store result between ∧
        OneByOne between rest store'

theorem oneByOne_serially (jobs : List Job)
    (h : ∀ e ∈ serialResults (key bson_oid_init_from_string) program store jobs, e.2.isSome) :
    OneByOne bson_oid_init_from_string store (serialResults (key bson_oid_init_from_string) program store jobs)
      (serially (key bson_oid_init_from_string) program store jobs) := by
  induction jobs generalizing store with
  | nil => rfl
  | cons job jobs ih =>
      obtain ⟨hfirst, hrest⟩ := List.forall_mem_cons.mp h
      obtain ⟨result, hresult⟩ := Option.isSome_iff_exists.mp hfirst
      exact ⟨result, _, hresult, processes_of_exec (Prod.ext hresult rfl), ih hrest⟩

/-- **Tasks on different images do not disturb each other**: whatever the order of the calls that the workers make to
the database, the tasks that have ended returned what they would have returned one after the other, and the
repository holds what it would hold then, apart from the images that are still being processed. No task that has ended
ran into undefined behaviour. -/
theorem processed_one_by_one {τ : Type} [DecidableEq τ] {acts : List (SharedAction τ Job)}
    {s : Shared τ Job Oid (Option (GridFile Metadata)) (Option (Except Fault ReturnStatus))}
    (h : run (Shared.step (key bson_oid_init_from_string) program) (.start store) acts = some s)
    (hapart : Guarded (Shared.step (key bson_oid_init_from_string) program)
      (Shared.Apart (key bson_oid_init_from_string)) (.start store) acts)
    (hdefined : ∀ e ∈ s.ended, e.2.isSome) :
    ∃ store', OneByOne bson_oid_init_from_string store s.ended store' ∧
      ∀ oid, (∀ t o, s.opened t = some o → o.job.key bson_oid_init_from_string ≠ oid) → s.store oid = store' oid := by
  have hserial := Shared.serializable h hapart
  have hresults := hserial.results
  refine ⟨serially (key bson_oid_init_from_string) program store (s.ended.map Prod.fst), ?_, hserial.untouched⟩
  rw [hresults] at hdefined
  have hone := oneByOne_serially _ hdefined
  rwa [← hresults] at hone

/-- A task on the image `imageId`, with a driver that works. -/
def working (imageId : String) : Job where
  env := .withAlpha
  p := ⟨[], ⟨[(0, 7)], by simp⟩⟩
  factory := .empty
  input := ⟨0, imageId⟩
  download := ⟨true, true, true, true, .opened, fun content => [.bytes content], fun _ => true⟩
  update := ⟨true, true, true, true, true, .found, true, true, fun _ => 1⟩

/-- Two tasks on two photos, call by call in turn. -/
def inTurn : List (SharedAction Bool Job) :=
  .begin false (working "aaaaaaaaaaaaaaaaaaaaaaaa") :: .begin true (working "bbbbbbbbbbbbbbbbbbbbbbbb") ::
    (List.replicate 6 [.go false, .go true]).flatten

/-- Object ids that tell the two photos apart. -/
def firstLetter (id : String) : Option Char := id.toList.head?

/-- Every image is a photo. -/
def photos : Store (Option Char) Unit := fun _ => some ⟨"photo", (), [0xFF, 0xD8, 0xFF, 0xD9]⟩

theorem inTurn_apart : Guarded (Shared.step (key firstLetter) program) (Shared.Apart (key firstLetter))
    (.start photos) inTurn := by
  unfold inTurn
  refine ⟨fun t o h => (by cases h), fun s₁ h₁ => ⟨?_, fun s₂ _ => ?_⟩⟩
  · cases h₁
    rintro (_ | _) o h
    · cases h
      decide
    · cases h
  · exact guarded_of_invariant (I := fun _ => True) (K := fun act => ∃ t, act = .go t)
      (fun _ act _ hact => by
        obtain ⟨t, rfl⟩ := hact
        exact trivial)
      (fun _ _ _ _ _ _ => trivial) trivial (by simp)

theorem inTurn_processed_one_by_one :
    ∃ s, run (Shared.step (key firstLetter) program) (.start photos) inTurn = some s ∧
      ∃ store', OneByOne firstLetter photos s.ended store' ∧
        ∀ oid, (∀ t o, s.opened t = some o → o.job.key firstLetter ≠ oid) → s.store oid = store' oid :=
  ⟨_, rfl, processed_one_by_one rfl inTurn_apart
    (List.forall_mem_cons.mpr ⟨rfl, List.forall_mem_cons.mpr ⟨rfl, List.forall_mem_nil _⟩⟩)⟩

end Job

end LimbWorker
