import LimbWorker.Utils.Basic
import Mathlib.Data.List.Basic
import Mathlib.Data.List.Infix

/-!
# Codecs

The two codecs, and how each recognises its files: a PNG file by the eight bytes it starts with, a JPEG
file by the two bytes it starts with and the two it ends with.
-/

namespace LimbWorker.Image

/-- `CodecType`; `Count` is the number of codecs and not the type of one. -/
inductive CodecType where
  | kPng
  | kJpg
  | Count
  deriving DecidableEq, Repr

def pngSignature : Bytes := [0x89, 0x50, 0x4E, 0x47, 0x0D, 0x0A, 0x1A, 0x0A]

def jpegSignatureStart : Bytes := [0xFF, 0xD8]

def jpegSignatureEnd : Bytes := [0xFF, 0xD9]

/-- The loop that compares `encoded` from `offset` on with a signature. -/
def matchesAt (encoded : Bytes) (offset : Nat) (signature : Bytes) : Bool :=
  (List.range signature.length).all fun i => encoded[offset + i]? = signature[i]?

/-- `PngCodec::canDecode`. -/
def PngCodec.canDecode (encoded : Bytes) : Bool :=
  if encoded.length < pngSignature.length then false
  else matchesAt encoded 0 pngSignature

/-- `JpgCodec::canDecode`. -/
def JpgCodec.canDecode (encoded : Bytes) : Bool :=
  if encoded.length < jpegSignatureStart.length + jpegSignatureEnd.length then false
  else if matchesAt encoded 0 jpegSignatureStart = false then false
  else matchesAt encoded (encoded.length - jpegSignatureEnd.length) jpegSignatureEnd

/-- `canDecode` of the codecs of a type. -/
def CodecType.canDecode : CodecType → Bytes → Bool
  | .kPng => PngCodec.canDecode
  | .kJpg => JpgCodec.canDecode
  | .Count => fun _ => false

/-! ## What they recognise -/

/-- The bytes of a PNG file, as far as the signature tells. -/
def HasPngSignature (encoded : Bytes) : Prop := pngSignature <+: encoded

/-- A JPEG start marker and, after it, an end marker. -/
def HasJpegMarkers (encoded : Bytes) : Prop :=
  ∃ scan, encoded = jpegSignatureStart ++ scan ++ jpegSignatureEnd

/-- The loop compares a slice. -/
theorem matchesAt_iff {encoded signature : Bytes} {offset : Nat} :
    matchesAt encoded offset signature = true ↔
      (encoded.drop offset).take signature.length = signature := by
  simp only [matchesAt, List.all_eq_true, List.mem_range, decide_eq_true_eq]
  constructor
  · intro h
    refine List.ext_getElem? fun i => ?_
    by_cases hi : i < signature.length
    · rw [List.getElem?_take_of_lt hi, List.getElem?_drop, h i hi]
    · rw [List.getElem?_eq_none (by simp; omega), List.getElem?_eq_none (by omega)]
  · intro h i hi
    rw [← List.getElem?_drop, ← List.getElem?_take_of_lt hi, h]

/-- At the front, that is a prefix. -/
theorem matchesAt_zero_iff {encoded signature : Bytes} :
    matchesAt encoded 0 signature = true ↔ signature <+: encoded := by
  rw [matchesAt_iff, List.drop_zero, List.prefix_iff_eq_take, eq_comm]

/-- At the back, a suffix. -/
theorem matchesAt_end_iff {encoded signature : Bytes} (hle : signature.length ≤ encoded.length) :
    matchesAt encoded (encoded.length - signature.length) signature = true ↔ signature <:+ encoded := by
  have hlength : (encoded.drop (encoded.length - signature.length)).length = signature.length := by
    rw [List.length_drop]
    omega
  rw [matchesAt_iff, List.take_of_length_le hlength.le, List.suffix_iff_eq_drop, eq_comm]

/-- A list that is long enough has a prefix and a suffix side by side. -/
theorem append_append_iff {encoded first last : Bytes}
    (hle : first.length + last.length ≤ encoded.length) :
    (first <+: encoded ∧ last <:+ encoded) ↔ ∃ scan, encoded = first ++ scan ++ last := by
  constructor
  · rintro ⟨⟨rest, rfl⟩, hlast⟩
    rw [List.length_append] at hle
    obtain ⟨scan, rfl⟩ :=
      List.suffix_of_suffix_length_le hlast (List.suffix_append first rest) (by omega)
    exact ⟨scan, (List.append_assoc _ _ _).symm⟩
  · rintro ⟨scan, rfl⟩
    exact ⟨⟨scan ++ last, (List.append_assoc _ _ _).symm⟩, List.suffix_append _ _⟩

/-- `PngCodec::canDecode` asks for the signature. -/
theorem PngCodec.canDecode_iff (encoded : Bytes) :
    canDecode encoded = true ↔ HasPngSignature encoded := by
  unfold canDecode HasPngSignature
  split
  · next hlt =>
    refine iff_of_false (by simp) fun hprefix => ?_
    exact absurd hprefix.length_le (Nat.not_le.mpr hlt)
  · exact matchesAt_zero_iff

/-- `JpgCodec::canDecode` asks for both markers, and they may not overlap. -/
theorem JpgCodec.canDecode_iff (encoded : Bytes) :
    canDecode encoded = true ↔ HasJpegMarkers encoded := by
  unfold canDecode HasJpegMarkers
  split
  · next hlt =>
    refine iff_of_false (by simp) ?_
    rintro ⟨scan, rfl⟩
    simp only [List.length_append] at hlt
    omega
  · next hge =>
    rw [← append_append_iff (Nat.not_lt.mp hge), ← matchesAt_zero_iff,
      ← matchesAt_end_iff (by omega)]
    split
    · next hstart => simp [hstart]
    · next hstart => simp [hstart]

end LimbWorker.Image
