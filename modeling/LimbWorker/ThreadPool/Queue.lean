import LimbWorker.Lib.StepSystem
import Mathlib.Tactic.Common

/-!
# `MPMCBoundedQueue`

The lock-free queue of `limb-queue.hpp`, one atomic action at a time: a load of a position, a load of
a cell's sequence, a compare-exchange (which may fail spuriously), the move of the data, the store of
the sequence. Any number of producers (`π`) and consumers (`κ`) are inside `push` and `pop`.

Positions are natural numbers; they do not wrap (fewer than `2^63` operations). A cell whose value was
moved out, or never assigned, holds `none`.
-/

namespace LimbWorker.ThreadPool

/-! ## The queue -/

/-- A queue length that the constructor does not refuse. -/
structure QueueSize where
  size : Nat
  size_is_power_of_2 : 2 ≤ size ∧ size &&& (size - 1) = 0
  deriving DecidableEq

structure Cell (T : Type) where
  sequence : Nat
  data : Option T

/-- The members of the queue; of `m_buffer` only the cells below the length are used. -/
structure MPMCBoundedQueue (T : Type) where
  m_buffer : Nat → Cell T
  m_enqueue_pos : Nat
  m_dequeue_pos : Nat

/-- Where a producer is in `push`; each constructor from `load` to `publish` is the next thing it
does, `pushed` and `full` are the two ways to return. -/
inductive PushPc (T : Type) where
  | idle
  | load (data : T)
  | sequence (data : T) (pos : Nat)
  | exchange (data : T) (pos : Nat)
  | write (data : T) (pos : Nat)
  | publish (pos : Nat)
  | pushed
  | full (data : T)

/-- Where a consumer is in `pop`; `popped` and `empty` are the two ways to return. -/
inductive PopPc (T : Type) where
  | idle
  | load
  | sequence (pos : Nat)
  | exchange (pos : Nat)
  | read (pos : Nat)
  | publish (pos : Nat) (data : Option T)
  | popped (pos : Nat) (data : Option T)
  | empty

namespace QueueSize

/-- The check of the constructor, which throws for every other length. -/
def ofSize (size : Nat) : Option QueueSize :=
  if h : 2 ≤ size ∧ size &&& (size - 1) = 0 then some ⟨size, h⟩ else none

theorem size_of_ofSize {size : Nat} {n : QueueSize} (h : ofSize size = some n) : n.size = size := by
  unfold ofSize at h
  split at h
  · cases h
    rfl
  · cases h

variable (n : QueueSize)

/-- `m_buffer_mask`. -/
def m_buffer_mask : Nat := n.size - 1

/-- The cell of a position. -/
def index (pos : Nat) : Nat := pos &&& n.m_buffer_mask

theorem two_le : 2 ≤ n.size := n.size_is_power_of_2.1

/-- The mask takes the remainder. -/
theorem index_eq_mod (pos : Nat) : n.index pos = pos % n.size := by
  obtain ⟨k, hk⟩ := (Nat.and_sub_one_eq_zero_iff_isPowerOfTwo (by have := n.two_le; omega)).mp
    n.size_is_power_of_2.2
  unfold index m_buffer_mask
  rw [hk, Nat.and_two_pow_sub_one_eq_mod]

/-- Two positions less than the queue length apart have different cells. -/
theorem eq_of_index_eq {p q : Nat} (h : n.index p = n.index q) (hpq : p < q + n.size)
    (hqp : q < p + n.size) : p = q := by
  rw [index_eq_mod, index_eq_mod] at h
  rcases Nat.le_total p q with hle | hle
  · have hdvd := Nat.dvd_of_mod_eq_zero (Nat.sub_mod_eq_zero_of_mod_eq h.symm)
    have hzero := Nat.eq_zero_of_dvd_of_lt hdvd (by omega)
    omega
  · have hdvd := Nat.dvd_of_mod_eq_zero (Nat.sub_mod_eq_zero_of_mod_eq h)
    have hzero := Nat.eq_zero_of_dvd_of_lt hdvd (by omega)
    omega

/-- A position and the one a queue length further on share their cell. -/
@[simp] theorem index_add_size (pos : Nat) : n.index (pos + n.size) = n.index pos := by
  rw [index_eq_mod, index_eq_mod, Nat.add_mod_right]

/-- The positions come round to the first cell. -/
theorem index_size : n.index n.size = n.index 0 := by
  simpa using n.index_add_size 0

end QueueSize

namespace MPMCBoundedQueue

variable {T : Type} (n : QueueSize)

/-- The queue as constructed: cell `i` waits for position `i`. -/
def new : MPMCBoundedQueue T := ⟨fun i => ⟨i, none⟩, 0, 0⟩

/-- `m_buffer[pos & m_buffer_mask]`. -/
def cell (q : MPMCBoundedQueue T) (pos : Nat) : Cell T := q.m_buffer (n.index pos)

/-- `cell->sequence.store(seq)`. -/
def storeSequence (q : MPMCBoundedQueue T) (pos seq : Nat) : MPMCBoundedQueue T :=
  { q with m_buffer := fun i =>
      if i = n.index pos then ⟨seq, (q.m_buffer i).data⟩ else q.m_buffer i }

/-- `cell->data = ...`, or moving out of it. -/
def storeData (q : MPMCBoundedQueue T) (pos : Nat) (data : Option T) : MPMCBoundedQueue T :=
  { q with m_buffer := fun i =>
      if i = n.index pos then ⟨(q.m_buffer i).sequence, data⟩ else q.m_buffer i }

end MPMCBoundedQueue

/-! ## Producers and consumers -/

/-- The queue with its users; `accepted` is a history variable: the values in the order in which their
producers took a position. -/
structure QueueState (π κ T : Type) where
  queue : MPMCBoundedQueue T
  push : π → PushPc T
  pop : κ → PopPc T
  accepted : List T

/-- An action of the schedule: a call of `push` or `pop`, or the next step inside one; `spurious` lets a
weak compare-exchange fail. -/
inductive QueueAction (π κ T : Type) where
  | push (p : π) (data : T)
  | pushStep (p : π) (spurious : Bool)
  | pop (c : κ)
  | popStep (c : κ) (spurious : Bool)

/-- A producer that is not inside `push`. -/
def PushPc.outside {T : Type} : PushPc T → Bool
  | .idle | .pushed | .full _ => true
  | _ => false

/-- A consumer that is not inside `pop`. -/
def PopPc.outside {T : Type} : PopPc T → Bool
  | .idle | .popped _ _ | .empty => true
  | _ => false

namespace QueueState

variable {π κ T : Type} [DecidableEq π] [DecidableEq κ] (n : QueueSize)

def init : QueueState π κ T := ⟨.new, fun _ => .idle, fun _ => .idle, []⟩

def setPush (s : QueueState π κ T) (p : π) (pc : PushPc T) : QueueState π κ T :=
  { s with push := fun p' => if p' = p then pc else s.push p' }

def setPop (s : QueueState π κ T) (c : κ) (pc : PopPc T) : QueueState π κ T :=
  { s with pop := fun c' => if c' = c then pc else s.pop c' }

/-- The next step of `push`. -/
def pushStep (s : QueueState π κ T) (p : π) (spurious : Bool) : Option (QueueState π κ T) :=
  match s.push p with
  | .load data => some (s.setPush p (.sequence data s.queue.m_enqueue_pos))
  | .sequence data pos =>
      let dif : Int := (s.queue.cell n pos).sequence - pos
      if dif = 0 then some (s.setPush p (.exchange data pos))
      else if dif < 0 then some (s.setPush p (.full data))
      else some (s.setPush p (.load data))
  | .exchange data pos =>
      if s.queue.m_enqueue_pos = pos ∧ spurious = false then
        some ({ s with
          queue := { s.queue with m_enqueue_pos := pos + 1 }
          accepted := s.accepted ++ [data] }.setPush p (.write data pos))
      else some (s.setPush p (.sequence data s.queue.m_enqueue_pos))
  | .write data pos =>
      some ({ s with queue := s.queue.storeData n pos (some data) }.setPush p (.publish pos))
  | .publish pos =>
      some ({ s with queue := s.queue.storeSequence n pos (pos + 1) }.setPush p .pushed)
  | _ => none

/-- The next step of `pop`. -/
def popStep (s : QueueState π κ T) (c : κ) (spurious : Bool) : Option (QueueState π κ T) :=
  match s.pop c with
  | .load => some (s.setPop c (.sequence s.queue.m_dequeue_pos))
  | .sequence pos =>
      let dif : Int := (s.queue.cell n pos).sequence - (pos + 1)
      if dif = 0 then some (s.setPop c (.exchange pos))
      else if dif < 0 then some (s.setPop c .empty)
      else some (s.setPop c .load)
  | .exchange pos =>
      if s.queue.m_dequeue_pos = pos ∧ spurious = false then
        some ({ s with queue := { s.queue with m_dequeue_pos := pos + 1 } }.setPop c (.read pos))
      else some (s.setPop c (.sequence s.queue.m_dequeue_pos))
  | .read pos =>
      some ({ s with queue := s.queue.storeData n pos none }.setPop c
        (.publish pos (s.queue.cell n pos).data))
  | .publish pos data =>
      some ({ s with queue := s.queue.storeSequence n pos (pos + n.m_buffer_mask + 1) }.setPop c
        (.popped pos data))
  | _ => none

/-- One action. -/
def step (s : QueueState π κ T) : QueueAction π κ T → Option (QueueState π κ T)
  | .push p data => if (s.push p).outside then some (s.setPush p (.load data)) else none
  | .pushStep p spurious => s.pushStep n p spurious
  | .pop c => if (s.pop c).outside then some (s.setPop c .load) else none
  | .popStep c spurious => s.popStep n c spurious

end QueueState

end LimbWorker.ThreadPool
