import LimbWorker.ImageService.ImageService
import LimbWorker.Lib.IntExpr

/-!
# `JpgCodec`

Decoding allocates a block for the pixels and has turbojpeg write into it; encoding hands the buffer that
turbojpeg makes to a callback. turbojpeg and the allocator may answer anything that they are documented to
answer.

The number of bytes is a product of `int`s, so that the header of a large picture can name one that is small
after wrapping: `decode_sound_iff` says for which headers the block is as large as the picture.
-/

namespace LimbWorker.Image

open ImageService Lib

/-! ## turbojpeg and memory -/

inductive TJSAMP where
  | TJSAMP_444
  | TJSAMP_422
  | TJSAMP_420
  | TJSAMP_GRAY
  | TJSAMP_440
  | TJSAMP_411
  deriving DecidableEq, Repr

/-- The pixel formats that the codec asks for. -/
inductive TJPF where
  | TJPF_RGB
  | TJPF_GRAY
  deriving DecidableEq, Repr

/-- What `tjDecompressHeader2` finds. -/
structure JpegHeader where
  w : Int
  h : Int
  jpegSubsamp : TJSAMP
  deriving DecidableEq, Repr

/-- The channels of the decoded picture. -/
def JpegHeader.c (header : JpegHeader) : Int := if header.jpegSubsamp = .TJSAMP_GRAY then 1 else 3

/-- The bytes of the decoded picture. -/
def JpegHeader.bytes (header : JpegHeader) : Int := header.w * header.h * header.c

/-- What turbojpeg answers: the header, whether the pixels can be decoded and what is written of them, and the
buffer and length of a compressed picture. `none` is a result other than `0`. -/
structure Turbojpeg where
  tjDecompressHeader2 : Bytes → Option JpegHeader
  tjDecompress2 : Bytes → Bool × Bytes
  tjCompress2 : Picture → TJPF → Option (Bytes × Nat)

/-- Whether `new (std::nothrow)` gives so many bytes. More than half of the address space is never given. -/
structure Allocator where
  given : Nat → Bool
  given_of_le : ∀ count, 2 ^ 63 ≤ count → given count = false

/-- A block after `pixels` were written from its start on. -/
def overwrite (block pixels : Bytes) : Bytes := pixels.take block.length ++ block.drop pixels.length

/-! ## `decode` -/

/-- The calls of `decode` that have to do with memory; `capacity` is the size of the block that
`tjDecompress2` is given. -/
inductive DecodeCall where
  | new (count : Nat)
  | tjDecompress2 (capacity : Nat) (format : TJPF)
  deriving DecidableEq, Repr

/-- A run of `decode`. -/
structure DecodeRun where
  calls : List DecodeCall
  status : ReturnStatus
  container : Picture
  deriving DecidableEq

/-- `JpgCodec::decode`. A negative count is converted like any other. -/
def JpgCodec.decode (turbo : Turbojpeg) (alloc : Allocator) (encoded : Bytes) (container : Picture) :
    DecodeRun :=
  if JpgCodec.canDecode encoded = false then ⟨[], .kInvalidInput, container⟩
  else
    match turbo.tjDecompressHeader2 encoded with
    | none => ⟨[], .kInvalidInput, container⟩
    | some ⟨w, h, jpegSubsamp⟩ =>
        let format : TJPF := if jpegSubsamp = .TJSAMP_GRAY then .TJPF_GRAY else .TJPF_RGB
        let c : Int := if jpegSubsamp = .TJSAMP_GRAY then 1 else 3
        let product : IntExpr := w * h * c
        let count := uint64 product.value
        if alloc.given count = false then
          ⟨[.new count], .kOutOfMemory, { container with data := none }⟩
        else
          let (decompressed, pixels) := turbo.tjDecompress2 encoded
          let calls := [.new count, .tjDecompress2 count format]
          let container := { container with data := some (overwrite (List.replicate count 0) pixels) }
          if decompressed = false then ⟨calls, .kInvalidInput, container⟩
          else ⟨calls, .kOk, { container with size := uint64 product.value, w := w, h := h, c := c }⟩

/-- `tjDecompress2` is called with a block of exactly the bytes that it writes, or `decode` fails without
calling it; and where it succeeds, the size of the container is that of its picture. -/
structure DecodeRun.Sound (run : DecodeRun) (header : JpegHeader) : Prop where
  exact : ∀ (capacity : Nat) format, .tjDecompress2 capacity format ∈ run.calls →
    .new capacity ∈ run.calls ∧ (capacity : Int) = header.bytes
  refused : (∀ capacity format, .tjDecompress2 capacity format ∉ run.calls) → run.status ≠ .kOk
  size : run.status = .kOk → run.container.w = header.w ∧ run.container.h = header.h ∧
    run.container.c = header.c ∧
    (run.container.size : Int) = run.container.w * run.container.h * run.container.c

/-- A run that fails without calling `tjDecompress2`. -/
theorem DecodeRun.Sound.of_refused {run : DecodeRun} {header : JpegHeader}
    (hno : ∀ (capacity : Nat) format, .tjDecompress2 capacity format ∉ run.calls)
    (hstatus : run.status ≠ .kOk) : run.Sound header :=
  ⟨fun capacity format h => absurd h (hno capacity format), fun _ => hstatus,
    fun h => absurd h hstatus⟩

namespace JpgCodec

variable {turbo : Turbojpeg} {alloc : Allocator} {encoded : Bytes} {header : JpegHeader}

/-- The count that the code computes. -/
def count (header : JpegHeader) : Nat := uint64 (int32 header.bytes)

/-- **How a file with this header is decoded**: not at all; or there is no memory; or into a block of as many
bytes as the code computes. -/
theorem decode_cases (alloc : Allocator) (hheader : turbo.tjDecompressHeader2 encoded = some header)
    (container : Picture) :
    canDecode encoded = false ∧ (decode turbo alloc encoded container).calls = [] ∧
        (decode turbo alloc encoded container).status = .kInvalidInput ∨
      alloc.given (count header) = false ∧
        (decode turbo alloc encoded container).calls = [.new (count header)] ∧
        (decode turbo alloc encoded container).status = .kOutOfMemory ∨
      alloc.given (count header) = true ∧ ∃ format,
        (decode turbo alloc encoded container).calls =
          [.new (count header), .tjDecompress2 (count header) format] ∧
        ((decode turbo alloc encoded container).status = .kOk →
          (decode turbo alloc encoded container).container.w = header.w ∧
          (decode turbo alloc encoded container).container.h = header.h ∧
          (decode turbo alloc encoded container).container.c = header.c ∧
          (decode turbo alloc encoded container).container.size = count header) := by
  obtain ⟨w, h, jpegSubsamp⟩ := header
  -- the product is taken as an `int` and then converted
  have hcount : uint64 ((w * h * (if jpegSubsamp = .TJSAMP_GRAY then 1 else 3 : Int) : IntExpr)).value =
      count ⟨w, h, jpegSubsamp⟩ := by
    unfold count JpegHeader.bytes JpegHeader.c
    rw [IntExpr.value_mul_val, IntExpr.value_mul_val, int32_int32_mul]
    rfl
  unfold decode
  by_cases hcan : canDecode encoded = false
  · rw [if_pos hcan]
    exact .inl ⟨hcan, rfl, rfl⟩
  · rw [if_neg hcan, hheader]
    dsimp only
    rw [hcount]
    cases hgiven : alloc.given (count ⟨w, h, jpegSubsamp⟩) with
    | false =>
        rw [if_pos rfl]
        exact .inr (.inl ⟨rfl, rfl, rfl⟩)
    | true =>
        rw [if_neg (by decide)]
        refine .inr (.inr ⟨rfl, if jpegSubsamp = .TJSAMP_GRAY then .TJPF_GRAY else .TJPF_RGB, ?_⟩)
        cases (turbo.tjDecompress2 encoded).1 with
        | false => exact ⟨rfl, fun h => by cases h⟩
        | true => exact ⟨rfl, fun _ => ⟨rfl, rfl, rfl, rfl⟩⟩

/-- The dimensions of a JPEG header. -/
def InRange (header : JpegHeader) : Prop :=
  (1 ≤ header.w ∧ header.w ≤ 65500) ∧ 1 ≤ header.h ∧ header.h ≤ 65500

/-- The count is the number of bytes, too large to be given, or too small. -/
theorem InRange.bytes_lt (h : InRange header) : 0 < header.bytes ∧ header.bytes < 2 ^ 34 := by
  obtain ⟨⟨hw, hw'⟩, hh, hh'⟩ := h
  have hpos : 0 < header.w * header.h := Int.mul_pos (by omega) (by omega)
  have hle : header.w * header.h ≤ 65500 * 65500 := Int.mul_le_mul hw' hh' (by omega) (by omega)
  unfold JpegHeader.bytes JpegHeader.c
  split <;> omega

/-- Nothing wraps. -/
theorem count_of_lt (h : InRange header) (hlt : header.bytes < 2 ^ 31) :
    (count header : Int) = header.bytes := by
  have hpos := h.bytes_lt.1
  unfold count
  rw [int32_eq_self_iff.mpr ⟨by omega, hlt⟩]
  exact uint64_of_nonneg hpos.le (by omega)

/-- The product wraps to a negative number: that much memory is never given. -/
theorem given_of_neg (alloc : Allocator) (h : 2 ^ 31 ≤ header.bytes % 2 ^ 32) :
    alloc.given (count header) = false := by
  have hneg := int32_neg h
  have hrange := isInt32_int32 header.bytes
  exact alloc.given_of_le _ (le_uint64_of_neg hneg (by unfold IsInt32 at hrange; omega))

/-- The product wraps to a number that is not negative, and smaller. -/
theorem count_of_wrapped (hle : 2 ^ 31 ≤ header.bytes) (h : header.bytes % 2 ^ 32 < 2 ^ 31) :
    (count header : Int) ≠ header.bytes ∧ count header < 2 ^ 63 := by
  have hnonneg := Int.emod_nonneg header.bytes (show (2 ^ 32 : Int) ≠ 0 by decide)
  have hcount : (count header : Int) = header.bytes % 2 ^ 32 := by
    unfold count
    rw [int32_eq_emod h]
    exact uint64_of_nonneg hnonneg (by omega)
  omega

/-- A file with nothing but the markers. -/
def markers : Bytes := [0xFF, 0xD8, 0xFF, 0xD9]

/-- A machine that gives all the memory there is. -/
def ample : Allocator where
  given := fun count => decide (count < 2 ^ 63)
  given_of_le := fun count h => by simpa using h

/-- A turbojpeg that finds this header in every file and can decode all of them. -/
def finds (header : JpegHeader) : Turbojpeg where
  tjDecompressHeader2 := fun _ => some header
  tjDecompress2 := fun _ => (true, [])
  tjCompress2 := fun _ _ => none

/-- With memory, a file with this header is decoded into what is given. -/
theorem decode_finds (container : Picture) (hlt : count header < 2 ^ 63) :
    ∃ format, .tjDecompress2 (count header) format ∈
      (decode (finds header) ample markers container).calls := by
  have hgiven : ample.given (count header) = true := decide_eq_true hlt
  have hheader : (finds header).tjDecompressHeader2 markers = some header := rfl
  rcases decode_cases ample hheader container with
    ⟨hmarkers, -⟩ | ⟨hnone, -⟩ | ⟨-, format, hcalls, -⟩
  · cases hmarkers
  · rw [hgiven] at hnone
    cases hnone
  · exact ⟨format, by rw [hcalls]; simp⟩

/-- **Which headers are decoded into a block of the right size**: those of a picture whose bytes fit in an
`int`, and those whose number of bytes wraps to a negative one, which ends in a refusal. -/
theorem decode_sound_iff (header : JpegHeader) (h : InRange header) :
    (∀ turbo alloc encoded container, turbo.tjDecompressHeader2 encoded = some header →
        (decode turbo alloc encoded container).Sound header) ↔
      header.bytes < 2 ^ 31 ∨ 2 ^ 31 ≤ header.bytes % 2 ^ 32 := by
  constructor
  · intro hsound
    -- a wrapped count that is not negative gets its memory, and the decoder is called with it
    by_contra hwrapped
    rw [not_or, not_lt, not_le] at hwrapped
    obtain ⟨hne, hlt⟩ := count_of_wrapped hwrapped.1 hwrapped.2
    obtain ⟨format, hcall⟩ := decode_finds ⟨none, 0, 0, 0, 0⟩ hlt
    exact hne ((hsound (finds header) ample markers _ rfl).exact _ _ hcall).2
  · intro hfits turbo alloc encoded container hheader
    rcases decode_cases alloc hheader container with
      ⟨-, hcalls, hstatus⟩ | ⟨-, hcalls, hstatus⟩ | ⟨hgiven, format, hcalls, hok⟩
    · exact .of_refused (by simp [hcalls]) (by simp [hstatus])
    · exact .of_refused (by simp [hcalls]) (by simp [hstatus])
    · -- memory was given, so the count is not a negative one
      have hlt : header.bytes < 2 ^ 31 := by
        rcases hfits with hlt | hneg
        · exact hlt
        · rw [given_of_neg alloc hneg] at hgiven
          cases hgiven
      have hcount := count_of_lt h hlt
      refine ⟨fun capacity format' hmem => ?_, fun hno => ?_, fun hstatus => ?_⟩
      · rw [hcalls] at hmem ⊢
        have hcall : capacity = count header ∧ format' = format := by simpa using hmem
        rw [hcall.1]
        exact ⟨by simp, hcount⟩
      · exact absurd (by simp [hcalls]) (hno (count header) format)
      · obtain ⟨hw, hh, hc, hsize⟩ := hok hstatus
        refine ⟨hw, hh, hc, ?_⟩
        rw [hsize, hw, hh, hc]
        exact hcount

/-- A picture of more than 4 GiB, of which 175436 bytes are asked for. -/
def large : JpegHeader := ⟨37838, 37838, .TJSAMP_444⟩

theorem large_not_sound :
    ¬ (decode (finds large) ample markers ⟨none, 0, 0, 0, 0⟩).Sound large := by
  intro h
  have hlt : count large < 2 ^ 63 := by decide
  obtain ⟨format, hcall⟩ := decode_finds ⟨none, 0, 0, 0, 0⟩ hlt
  have hbytes := (h.exact _ _ hcall).2
  revert hbytes
  decide

/-- A photograph. -/
theorem photograph_sound_iff :
    let header : JpegHeader := ⟨4000, 3000, .TJSAMP_420⟩
    (∀ turbo alloc encoded container, turbo.tjDecompressHeader2 encoded = some header →
        (decode turbo alloc encoded container).Sound header) ↔
      header.bytes < 2 ^ 31 ∨ 2 ^ 31 ≤ header.bytes % 2 ^ 32 :=
  decode_sound_iff ⟨4000, 3000, .TJSAMP_420⟩ ⟨⟨by decide, by decide⟩, by decide, by decide⟩

/-! ## `encode` -/

/-- What the variables that are declared without a value hold. -/
structure EncodeLocals where
  jpegBuf : Option Bytes
  outSize : Nat

/-- `JpgCodec::encode`. The result of `tjCompress2` is not looked at; where it is not `0`, the variables keep
what they hold. -/
def encode (turbo : Turbojpeg) (uninitialised : EncodeLocals) (container : Picture) : EncodeOutcome :=
  if container.data = none then .refused .kInvalidInput
  else
    let format : TJPF := if container.c = 3 then .TJPF_RGB else .TJPF_GRAY
    let (jpegBuf, outSize) :=
      match turbo.tjCompress2 container format with
      | some (buffer, length) => (some buffer, length)
      | none => (uninitialised.jpegBuf, uninitialised.outSize)
    -- the test of `compressed` that follows is one of the same pointer
    if jpegBuf = none then .refused .kAborted else .called jpegBuf outSize id

end JpgCodec

end LimbWorker.Image
