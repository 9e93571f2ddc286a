import Mathlib.Data.List.Basic
import Mathlib.Tactic.Common

/-!
# Self-delimiting frames

A *framing* tells from the front of a string where its first frame ends, as soon as that frame is
complete. The frame ends where its own elements say, so what follows does not move its end, and no frame
is longer than a bound: a string that long holds a complete one.

`frames` takes the complete frames off the front of a string and `rest` is what remains. A string that
arrives in pieces can be cut piece by piece: `frames_append` and `rest_append` say that what is left of
the first piece, put before the second, gives the frames that the whole string would have given.
-/

namespace LimbWorker.Lib

/-- How the first frame of a string is found; `length l` is its length once it is complete. -/
structure Framing (α : Type*) (bound : Nat) where
  length : List α → Option Nat
  pos_of_length : ∀ {l n}, length l = some n → 0 < n
  le_of_length : ∀ {l n}, length l = some n → n ≤ l.length
  length_take : ∀ {l n}, length l = some n → length (l.take n) = some n
  length_append : ∀ {l n} l', length l = some n → length (l ++ l') = some n
  isSome_length : ∀ {l}, bound ≤ l.length → (length l).isSome

namespace Framing

variable {α : Type*} {bound : Nat} (f : Framing α bound)

/-- Taking a frame off makes a string shorter. -/
theorem length_drop_lt {l : List α} {n : Nat} (h : f.length l = some n) :
    (l.drop n).length < l.length := by
  have hpos := f.pos_of_length h
  have hle := f.le_of_length h
  rw [List.length_drop]
  omega

/-- The complete frames at the front of a string, in order. -/
def frames (l : List α) : List (List α) :=
  match _h : f.length l with
  | none => []
  | some n => l.take n :: frames (l.drop n)
termination_by l.length
decreasing_by exact f.length_drop_lt (by assumption)

/-- What follows the complete frames. -/
def rest (l : List α) : List α :=
  match _h : f.length l with
  | none => l
  | some n => rest (l.drop n)
termination_by l.length
decreasing_by exact f.length_drop_lt (by assumption)

/-- A string on its own is one frame. -/
def IsFrame (l : List α) : Prop := f.length l = some l.length

variable {f} {l : List α} {n : Nat}

theorem frames_of_none (h : f.length l = none) : f.frames l = [] := by
  rw [frames]
  split
  · rfl
  · next n hn => simp [h] at hn

theorem rest_of_none (h : f.length l = none) : f.rest l = l := by
  rw [rest]
  split
  · rfl
  · next n hn => simp [h] at hn

theorem frames_of_some (h : f.length l = some n) :
    f.frames l = l.take n :: f.frames (l.drop n) := by
  rw [frames]
  split
  · next hn => simp [h] at hn
  · next m hm =>
    rw [h] at hm
    cases hm
    rfl

theorem rest_of_some (h : f.length l = some n) : f.rest l = f.rest (l.drop n) := by
  rw [rest]
  split
  · next hn => simp [h] at hn
  · next m hm =>
    rw [h] at hm
    cases hm
    rfl

variable (f)

/-- Nothing is lost between the frames and the rest. -/
theorem flatten_frames_append_rest (l : List α) : (f.frames l).flatten ++ f.rest l = l := by
  fun_induction frames f l with
  | case1 l h => rw [rest_of_none h, List.flatten_nil, List.nil_append]
  | case2 l n h ih =>
      rw [rest_of_some h, List.flatten_cons, List.append_assoc, ih, List.take_append_drop]

/-- The frames are the front of the string. -/
theorem take_length_frames (l : List α) :
    l.take (f.frames l).flatten.length = (f.frames l).flatten := by
  have h : ((f.frames l).flatten ++ f.rest l).take (f.frames l).flatten.length =
      (f.frames l).flatten := List.take_left
  rwa [f.flatten_frames_append_rest] at h

/-- The rest is what follows them. -/
theorem drop_length_frames (l : List α) : l.drop (f.frames l).flatten.length = f.rest l := by
  have h : ((f.frames l).flatten ++ f.rest l).drop (f.frames l).flatten.length = f.rest l :=
    List.drop_left
  rwa [f.flatten_frames_append_rest] at h

/-- What is taken off the front are frames. -/
theorem isFrame_of_mem_frames (l : List α) : ∀ frame ∈ f.frames l, f.IsFrame frame := by
  fun_induction frames f l with
  | case1 l h =>
      intro frame hframe
      cases hframe
  | case2 l n h ih =>
      intro frame hframe
      rcases List.mem_cons.mp hframe with rfl | htail
      · rw [IsFrame, f.length_take h, List.length_take, Nat.min_eq_left (f.le_of_length h)]
      · exact ih frame htail

/-- No complete frame is left in the rest. -/
theorem length_rest (l : List α) : f.length (f.rest l) = none := by
  fun_induction rest f l with
  | case1 l h => exact h
  | case2 l n h ih => exact ih

/-- So the rest is shorter than the bound. -/
theorem length_rest_lt (l : List α) : (f.rest l).length < bound := by
  by_contra hge
  have hsome := f.isSome_length (Nat.not_lt.mp hge)
  rw [f.length_rest] at hsome
  cases hsome

/-! ## Strings that arrive in pieces -/

/-- **The frames of a longer string**: those of its first piece, and those that the rest of it gives
with what comes after. -/
theorem frames_append (l l' : List α) :
    f.frames (l ++ l') = f.frames l ++ f.frames (f.rest l ++ l') := by
  fun_induction frames f l with
  | case1 l h => rw [rest_of_none h, List.nil_append]
  | case2 l n h ih =>
      rw [frames_of_some (f.length_append l' h), rest_of_some h,
        List.take_append_of_le_length (f.le_of_length h),
        List.drop_append_of_le_length (f.le_of_length h), ih, List.cons_append]

/-- **The rest of a longer string**, likewise. -/
theorem rest_append (l l' : List α) : f.rest (l ++ l') = f.rest (f.rest l ++ l') := by
  fun_induction rest f l with
  | case1 l h => rfl
  | case2 l n h ih =>
      rw [rest_of_some (f.length_append l' h), List.drop_append_of_le_length (f.le_of_length h), ih]

theorem frames_nil : f.frames [] = [] := by
  apply frames_of_none
  cases h : f.length [] with
  | none => rfl
  | some n =>
      have hpos := f.pos_of_length h
      have hle := f.le_of_length h
      rw [List.length_nil] at hle
      omega

theorem rest_nil : f.rest [] = [] := by
  have h := f.flatten_frames_append_rest []
  rwa [f.frames_nil, List.flatten_nil, List.nil_append] at h

end Framing

end LimbWorker.Lib
