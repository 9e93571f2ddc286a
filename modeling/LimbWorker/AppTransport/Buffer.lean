import LimbWorker.Utils.Basic
import Mathlib.Data.List.Basic

/-!
# `Buffer` — the fixed-size byte buffer of `amqp-handler.cpp`

`class Buffer` owns a vector `m_data` that never changes its size and a fill count `m_use`. Nothing
outside the first `m_use` bytes is ever read (`data()` is always used together with `available()`),
so the model keeps exactly those bytes and carries `m_use ≤ m_data.size()` as a field: an overfull
buffer cannot be built.
-/

namespace LimbWorker.AppTransport

/-- `class Buffer`: `size` is `m_data.size()`, `data` the first `m_use` bytes of `m_data`. -/
structure Buffer where
  size : Nat
  data : Bytes
  fits : data.length ≤ size

namespace Buffer

/-- `explicit Buffer(size_t size)`. -/
def new (size : Nat) : Buffer := ⟨size, [], Nat.zero_le size⟩

/-- `available()`, the value of `m_use`. -/
def available (b : Buffer) : Nat := b.data.length

/-- How many bytes `write` takes of `size` offered ones. -/
def writable (b : Buffer) (size : Nat) : Nat :=
  if b.available = b.size then 0
  else
    let length := size + b.available
    if length < b.size then size else b.size - b.available

theorem writable_le (b : Buffer) (size : Nat) : b.available + b.writable size ≤ b.size := by
  have hfits : b.available ≤ b.size := b.fits
  unfold writable
  split
  · omega
  · dsimp only
    split <;> omega

/-- `write(data, size)`: append what fits and return how much that was. -/
def write (b : Buffer) (data : Bytes) : Buffer × Nat :=
  let written := b.writable data.length
  (⟨b.size, b.data ++ data.take written, by
    have hw := b.writable_le data.length
    simp only [List.length_append, List.length_take]
    exact Nat.le_trans (Nat.add_le_add_left (Nat.min_le_left _ _) _) hw⟩, written)

/-- `drain()`. -/
def drain (b : Buffer) : Buffer := ⟨b.size, [], Nat.zero_le _⟩

/-- `shl(count)`: move the bytes behind the first `count` ones to the front. -/
def shl (b : Buffer) (count : Nat) : Buffer :=
  ⟨b.size, b.data.drop count, Nat.le_trans (by simp) b.fits⟩

/-! ## What each operation does to the contents -/

@[simp] theorem data_new (n : Nat) : (new n).data = [] := rfl
@[simp] theorem size_new (n : Nat) : (new n).size = n := rfl
@[simp] theorem data_drain (b : Buffer) : b.drain.data = [] := rfl
@[simp] theorem size_drain (b : Buffer) : b.drain.size = b.size := rfl
@[simp] theorem data_shl (b : Buffer) (n : Nat) : (b.shl n).data = b.data.drop n := rfl
@[simp] theorem size_write (b : Buffer) (d : Bytes) : (b.write d).1.size = b.size := rfl

@[simp] theorem available_eq_zero (b : Buffer) : b.available = 0 ↔ b.data = [] :=
  List.length_eq_zero_iff

/-- **What fits is taken whole.** -/
theorem write_of_fits {b : Buffer} {d : Bytes} (h : b.available + d.length ≤ b.size) :
    (b.write d).1.data = b.data ++ d ∧ (b.write d).2 = d.length := by
  have hw : b.writable d.length = d.length := by
    unfold writable
    split
    · omega
    · dsimp only
      split <;> omega
  refine ⟨?_, hw⟩
  show b.data ++ d.take (b.writable d.length) = b.data ++ d
  rw [hw, List.take_length]

/-- **What does not fit is cut**: `write` fills the buffer to its last byte and reports fewer bytes
than it was offered. -/
theorem write_of_not_fits {b : Buffer} {d : Bytes} (h : b.size < b.available + d.length) :
    (b.write d).1.data = b.data ++ d.take (b.size - b.available) ∧
      (b.write d).2 < d.length := by
  have hfits : b.available ≤ b.size := b.fits
  have hw : b.writable d.length = b.size - b.available := by
    unfold writable
    split
    · omega
    · dsimp only
      split <;> omega
  refine ⟨?_, ?_⟩
  · show b.data ++ d.take (b.writable d.length) = _
    rw [hw]
  · show b.writable d.length < d.length
    omega

/-- Writing nothing changes nothing. -/
theorem write_nil (b : Buffer) : (b.write []).1.data = b.data := by
  show b.data ++ ([] : Bytes).take _ = b.data
  simp

end Buffer

end LimbWorker.AppTransport
