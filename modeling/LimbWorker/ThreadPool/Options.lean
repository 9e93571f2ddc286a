import LimbWorker.ThreadPool.Queue
import LimbWorker.Utils.Bithacks
import Mathlib.Algebra.Order.Ring.Int

/-!
# `ThreadPoolOptions`

The options class, and the values that `main` puts into it: the number of workers comes from the
GPU's compute queues and the CPU, the queue length from the CPU alone. The constructor of the pool refuses a
queue length that is not a power of two, and `nextPowerOfTwo` never gives it one to refuse.
-/

namespace LimbWorker.ThreadPool

structure ThreadPoolOptions where
  m_thread_count : Nat
  m_queue_size : Nat
  deriving DecidableEq, Repr

namespace ThreadPoolOptions

/-- The default constructor. -/
def new (hardware_concurrency : Nat) : ThreadPoolOptions := ⟨max 1 hardware_concurrency, 1024⟩

def setThreadCount (o : ThreadPoolOptions) (count : Nat) : ThreadPoolOptions :=
  { o with m_thread_count := max 1 count }

def setQueueSize (o : ThreadPoolOptions) (size : Nat) : ThreadPoolOptions :=
  { o with m_queue_size := max 1 size }

def threadCount (o : ThreadPoolOptions) : Nat := o.m_thread_count

def queueSize (o : ThreadPoolOptions) : Nat := o.m_queue_size

end ThreadPoolOptions

/-- Converting an `int` to `size_t`. -/
def toSizeT (x : Int) : Nat := (x % 18446744073709551616).toNat

/-- The options of `main`. Both counts are `int`s; `nextPowerOfTwo` takes and returns a `uint32_t`. -/
def mainOptions (queueCount thdCount : Int) : ThreadPoolOptions :=
  ((ThreadPoolOptions.new thdCount.toNat).setThreadCount
      (toSizeT (min queueCount thdCount))).setQueueSize
    (nextPowerOfTwo (UInt32.ofInt thdCount)).toNat

/-- There is always a worker. -/
theorem threadCount_mainOptions_pos (queueCount thdCount : Int) :
    0 < (mainOptions queueCount thdCount).threadCount := by
  apply Nat.lt_of_lt_of_le Nat.one_pos
  exact Nat.le_max_left 1 _

/-- Four cores and two compute queues. -/
example : mainOptions 2 4 = ⟨2, 4⟩ := by decide

/-! ## The constructor of the pool -/

/-- `ThreadPoolImpl` as constructed: the ids that the workers were started with, and their queue. -/
structure ThreadPoolImpl where
  m_workers : List Nat
  ring_buffer : QueueSize

/-- The constructor. The queue is made before a worker is started, and its exception is passed on. That there
is enough memory, and a thread for each worker, is taken for granted. -/
def ThreadPoolImpl.new (options : ThreadPoolOptions) : Except String ThreadPoolImpl :=
  match QueueSize.ofSize options.queueSize with
  | none => .error "buffer size should be a power of 2"
  | some ring_buffer => .ok ⟨List.range options.threadCount, ring_buffer⟩

/-- The queue is constructed for every power of two except the first. -/
theorem ofSize_of_leastPowerOfTwo {m p : Nat} (h : LeastPowerOfTwo m p) (hm : 2 ≤ m) :
    ∃ n, QueueSize.ofSize p = some n ∧ n.size = p := by
  have htwo : 2 ≤ p := Nat.le_trans hm h.le
  have hand : p &&& (p - 1) = 0 :=
    (Nat.and_sub_one_eq_zero_iff_isPowerOfTwo (by omega)).mpr h.isPowerOfTwo
  exact ⟨⟨p, htwo, hand⟩, by rw [QueueSize.ofSize, dif_pos ⟨htwo, hand⟩], rfl⟩

/-- A thread count that is an `int` and not negative keeps its value as a `uint32_t`. -/
theorem toNat_ofInt_of_int {count : Int} (h₀ : 0 ≤ count) (hlt : count < 2 ^ 31) :
    (UInt32.ofInt count).toNat = count.toNat := by
  show (count % 2 ^ 32).toNat % 2 ^ 32 = count.toNat
  omega

/-- The clamp of `setQueueSize` does not touch a length that the constructor takes. -/
theorem queueSize_setQueueSize {size : Nat} (h : 2 ≤ size) (options : ThreadPoolOptions) :
    (options.setQueueSize size).queueSize = size := Nat.max_eq_right (Nat.le_of_succ_le h)

/-- **Queue sizing is sound**: `nextPowerOfTwo` gives the least power of two that is large enough, so a pool
whose queue length is computed from a thread count is constructed, and positions less than that length apart
have different cells. -/
theorem queue_sizing_sound :
    (∀ v : UInt32, v.toNat ≤ 2 ^ 31 →
      LeastPowerOfTwo (max v.toNat 2) (nextPowerOfTwo v).toNat) ∧
    ∀ count : Int, 0 ≤ count → count < 2 ^ 31 → ∀ options : ThreadPoolOptions,
      ∃ pool, ThreadPoolImpl.new
            (options.setQueueSize (nextPowerOfTwo (UInt32.ofInt count)).toNat) = .ok pool ∧
        pool.ring_buffer.size = (nextPowerOfTwo (UInt32.ofInt count)).toNat ∧
        ∀ p q, p ≠ q → p < q + pool.ring_buffer.size → q < p + pool.ring_buffer.size →
          pool.ring_buffer.index p ≠ pool.ring_buffer.index q := by
  refine ⟨leastPowerOfTwo_nextPowerOfTwo, fun count h₀ hlt options => ?_⟩
  have hcount := toNat_ofInt_of_int h₀ hlt
  have hleast := leastPowerOfTwo_nextPowerOfTwo (UInt32.ofInt count) (by omega)
  have htwo := Nat.le_max_right (UInt32.ofInt count).toNat 2
  obtain ⟨n, hn, hsize⟩ := ofSize_of_leastPowerOfTwo hleast htwo
  refine ⟨⟨List.range options.threadCount, n⟩, ?_, hsize, fun p q hne hpq hqp heq => ?_⟩
  · rw [ThreadPoolImpl.new, queueSize_setQueueSize (Nat.le_trans htwo hleast.le), hn]
    rfl
  · exact hne (n.eq_of_index_eq heq hpq hqp)

/-- Five from 32-bit arithmetic, and a pool for five cores. -/
theorem queue_sizing_sound_five :
    LeastPowerOfTwo 5 8 ∧
      ∃ pool, ThreadPoolImpl.new (ThreadPoolOptions.setQueueSize ⟨1, 1024⟩ 8) = .ok pool ∧
        pool.ring_buffer.index 3 ≠ pool.ring_buffer.index 6 := by
  refine ⟨queue_sizing_sound.1 5 (by decide), ?_⟩
  obtain ⟨pool, hpool, hsize, hcells⟩ := queue_sizing_sound.2 5 (by decide) (by decide) ⟨1, 1024⟩
  have height : pool.ring_buffer.size = 8 := hsize
  exact ⟨pool, hpool, hcells 3 6 (by decide) (by omega) (by omega)⟩

end LimbWorker.ThreadPool
