import LimbWorker.Image.JpgCodec

/-!
# `PngCodec`, and encoding that fails

Both codecs hand what the compressor made to a callback that writes the repository. `encode_follows_iff` says
when a compressor that fails is noticed before that.
-/

namespace LimbWorker.Image

open ImageService ImageService.Environment Lib

/-- What `stb_image` answers: the pixels of a file with their dimensions, or the buffer of a written file with
its length; `none` is null. -/
structure StbImage where
  stbi_load_from_memory : Bytes → Option (Bytes × Int × Int × Int)
  write_png_to_mem : Picture → Option (Bytes × Nat)
  length_lt : ∀ container data length, write_png_to_mem container = some (data, length) →
    length < 2 ^ 31

namespace PngCodec

/-- `PngCodec::decode`: the status, and the container as it is left. -/
def decode (stb : StbImage) (encoded : Bytes) (container : Picture) : ReturnStatus × Picture :=
  if PngCodec.canDecode encoded = false then (.kInvalidInput, container)
  else
    match stb.stbi_load_from_memory encoded with
    | none => (.kAborted, { container with data := none })
    | some (pixels, w, h, c) =>
        let product : IntExpr := w * h * c
        (.kOk, ⟨some pixels, uint64 product.value, w, h, c⟩)

/-- `PngCodec::encode`; `outSize` is declared without a value. -/
def encode (stb : StbImage) (uninitialised : Int) (container : Picture) : EncodeOutcome :=
  if container.data = none then .refused .kInvalidInput
  else
    let (data, outSize) :=
      match stb.write_png_to_mem container with
      | some (buffer, length) => (some buffer, (length : Int))
      | none => (none, uninitialised)
    .called data (uint64 outSize) id

end PngCodec

/-! ## Encoding that fails -/

/-- The callback is invoked once with what the compressor made; where it made nothing, it is not invoked and the
status says so. -/
def FollowsCompressor (compressed : Option (Bytes × Nat)) (result : EncodeOutcome) : Prop :=
  match compressed with
  | some (buffer, length) => result = .called (some buffer) length id
  | none => ∃ ret, ret ≠ .kOk ∧ result = .refused ret

/-- What follows the compressor writes the repository only with what was made. -/
theorem updates_of_follows {env : Environment} {codec : CodecId} {imageId : String} {outPixel : Picture}
    {compressed : Option (Bytes × Nat)}
    (h : FollowsCompressor compressed (env.encode codec outPixel)) :
    updates (env.encodeWith codec imageId outPixel).events =
      match compressed with
      | some (buffer, length) => [.updateImageById imageId (some buffer) length]
      | none => [] := by
  rw [Environment.encodeWith_eq]
  cases compressed with
  | some made =>
      rw [Environment.encodeCalls_of_called h]
      rfl
  | none =>
      obtain ⟨ret, -, hret⟩ := h
      rw [Environment.encodeCalls_of_refused hret]
      rfl

/-- **JPEG**: a failure is noticed where the variable for the buffer happens to hold null. -/
theorem JpgCodec.encode_follows_iff (turbo : Turbojpeg) (uninitialised : EncodeLocals)
    {container : Picture} (hdata : container.data ≠ none) :
    FollowsCompressor (turbo.tjCompress2 container (if container.c = 3 then .TJPF_RGB else .TJPF_GRAY))
        (JpgCodec.encode turbo uninitialised container) ↔
      turbo.tjCompress2 container (if container.c = 3 then .TJPF_RGB else .TJPF_GRAY) ≠ none ∨
        uninitialised.jpegBuf = none := by
  unfold JpgCodec.encode FollowsCompressor
  rw [if_neg hdata]
  dsimp only
  cases turbo.tjCompress2 container (if container.c = 3 then .TJPF_RGB else .TJPF_GRAY) with
  | some made => simp
  | none =>
      cases uninitialised.jpegBuf with
      | none => simp
      | some garbage => simp

/-- **PNG**: a failure is never noticed. -/
theorem PngCodec.encode_follows_iff (stb : StbImage) (uninitialised : Int) {container : Picture}
    (hdata : container.data ≠ none) :
    FollowsCompressor (stb.write_png_to_mem container) (PngCodec.encode stb uninitialised container) ↔
      stb.write_png_to_mem container ≠ none := by
  unfold PngCodec.encode FollowsCompressor
  rw [if_neg hdata]
  dsimp only
  cases hwrite : stb.write_png_to_mem container with
  | some made =>
      have hlength : uint64 made.2 = made.2 := by
        have hlt := stb.length_lt container made.1 made.2 hwrite
        have h := uint64_of_nonneg (x := made.2) (by omega) (by omega)
        exact_mod_cast h
      simp [hlength]
  | none => simp

/-- **When a failed encode stays away from the repository**: with JPEG, if the variable that turbojpeg has left
alone holds null; with PNG, never. A successful one is handed on by both. -/
theorem failed_encode_iff (turbo : Turbojpeg) (stb : StbImage) (jpgLocals : JpgCodec.EncodeLocals)
    (pngLocal : Int) (container : Picture) (hdata : container.data ≠ none) :
    let jpg := turbo.tjCompress2 container (if container.c = 3 then .TJPF_RGB else .TJPF_GRAY)
    let png := stb.write_png_to_mem container
    (FollowsCompressor jpg (JpgCodec.encode turbo jpgLocals container) ↔
        jpg ≠ none ∨ jpgLocals.jpegBuf = none) ∧
      (FollowsCompressor png (PngCodec.encode stb pngLocal container) ↔ png ≠ none) :=
  ⟨JpgCodec.encode_follows_iff turbo jpgLocals hdata, PngCodec.encode_follows_iff stb pngLocal hdata⟩

/-- A picture that is wider than a JPEG file can be. -/
def wide : Picture := ⟨some [1, 2, 3], 3, 80000, 1, 3⟩

/-- A turbojpeg that compresses nothing. -/
def failing : Turbojpeg where
  tjDecompressHeader2 := fun _ => none
  tjDecompress2 := fun _ => (false, [])
  tjCompress2 := fun _ _ => none

/-- A `stb_image` that writes nothing. -/
def nothingWritten : StbImage where
  stbi_load_from_memory := fun _ => none
  write_png_to_mem := fun _ => none
  length_lt := fun _ _ _ h => by cases h

/-- The encoders of a service whose compressors fail: codec `0` is one for PNG, the others are for JPEG. -/
def failingEncoders : Environment where
  getImageById := fun _ => (.kNotFound, [])
  updateImageById := fun _ _ _ => .kOk
  decode := fun _ _ => (.kInvalidInput, ⟨none, 0, 0, 0, 0⟩)
  encode := fun codec picture =>
    if codec = 0 then PngCodec.encode nothingWritten 7 picture
    else JpgCodec.encode failing ⟨some [0xAB], 5⟩ picture
  tryAcquireProcessor := fun _ => none

/-- Both codecs have the repository written with what they did not make. -/
theorem wide_not_followed :
    ¬ FollowsCompressor (failing.tjCompress2 wide .TJPF_RGB)
        (JpgCodec.encode failing ⟨some [0xAB], 5⟩ wide) ∧
      updates (failingEncoders.encodeWith 1 "image" wide).events =
        [.updateImageById "image" (some [0xAB]) 5] ∧
      ¬ FollowsCompressor (nothingWritten.write_png_to_mem wide)
        (PngCodec.encode nothingWritten 7 wide) ∧
      updates (failingEncoders.encodeWith 0 "image" wide).events =
        [.updateImageById "image" none 7] := by
  refine ⟨?_, rfl, ?_, rfl⟩
  · rintro ⟨ret, -, hret⟩
    cases hret
  · rintro ⟨ret, -, hret⟩
    cases hret

/-- The same picture, as the general statement sees it. -/
theorem wide_follows_iff :
    let jpg := failing.tjCompress2 wide (if wide.c = 3 then .TJPF_RGB else .TJPF_GRAY)
    let png := nothingWritten.write_png_to_mem wide
    (FollowsCompressor jpg (JpgCodec.encode failing ⟨none, 0⟩ wide) ↔
        jpg ≠ none ∨ (⟨none, 0⟩ : JpgCodec.EncodeLocals).jpegBuf = none) ∧
      (FollowsCompressor png (PngCodec.encode nothingWritten 0 wide) ↔ png ≠ none) :=
  failed_encode_iff failing nothingWritten ⟨none, 0⟩ 0 wide (by decide)

end LimbWorker.Image
