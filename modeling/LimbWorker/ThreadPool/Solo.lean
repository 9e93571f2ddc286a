import LimbWorker.ThreadPool.AtMostOnce

/-!
# Threads that nobody interrupts

What the queue and the pool look like after one thread has gone through a whole operation on its own:
a producer through `push`, a worker up to its claim of a job, and the same worker through the rest of
its round. Schedules are built from these pieces.
-/

namespace LimbWorker.ThreadPool

open Lib

/-- Of two updates at one place the later one counts. -/
theorem ite_else_ite {α : Type} {c : Prop} [Decidable c] (a b d : α) :
    (if c then a else if c then b else d) = if c then a else d := by
  split <;> rfl

/-! ## The queue -/

namespace QueueState

variable {π κ T : Type} [DecidableEq π] [DecidableEq κ] (n : QueueSize) (s : QueueState π κ T)

omit [DecidableEq κ] in
/-- The queue after a `push` that found its cell free. -/
def pushed (p : π) (data : T) : QueueState π κ T :=
  let pos := s.queue.m_enqueue_pos
  let queue := { s.queue with m_enqueue_pos := pos + 1 }
  { s with
    queue := (queue.storeData n pos (some data)).storeSequence n pos (pos + 1)
    accepted := s.accepted ++ [data] }.setPush p .pushed

omit [DecidableEq π] in
/-- The queue after a consumer took the next position. -/
def claimed (c : κ) : QueueState π κ T :=
  let pos := s.queue.m_dequeue_pos
  { s with queue := { s.queue with m_dequeue_pos := pos + 1 } }.setPop c (.read pos)

omit [DecidableEq π] in
/-- The queue after the consumer that took a position is done with its cell. -/
def released (c : κ) (pos : Nat) : QueueState π κ T :=
  let queue := (s.queue.storeData n pos none).storeSequence n pos (pos + n.m_buffer_mask + 1)
  { s with queue := queue }.setPop c (.popped pos (s.queue.dataAt n pos))

omit [DecidableEq κ] in
theorem sequenceAt_pushed (p : π) (data : T) (i : Nat) :
    (s.pushed n p data).queue.sequenceAt n i =
      if n.index i = n.index s.queue.m_enqueue_pos then s.queue.m_enqueue_pos + 1
      else s.queue.sequenceAt n i := by
  simp only [pushed, queue_setPush, MPMCBoundedQueue.sequenceAt_storeSequence,
    MPMCBoundedQueue.sequenceAt_storeData]
  rfl

omit [DecidableEq κ] in
theorem dataAt_pushed (p : π) (data : T) :
    (s.pushed n p data).queue.dataAt n s.queue.m_enqueue_pos = some data := by
  simp [pushed]

omit [DecidableEq π] in
theorem sequenceAt_released (c : κ) (pos i : Nat) :
    (s.released n c pos).queue.sequenceAt n i =
      if n.index i = n.index pos then pos + n.m_buffer_mask + 1 else s.queue.sequenceAt n i := by
  simp [released]

omit [DecidableEq κ] in
/-- A producer whose cell is a round behind gives up. -/
theorem pushStep_behind {p : π} {data : T} {pos : Nat} {spurious : Bool}
    (hpc : s.push p = .sequence data pos) (hbehind : s.queue.sequenceAt n pos < pos) :
    s.pushStep n p spurious = some (s.setPush p (.full data)) := by
  have hdif : ((s.queue.cell n pos).sequence : Int) - pos < 0 := by
    have hcell : (s.queue.cell n pos).sequence < pos := hbehind
    omega
  simp only [pushStep, hpc]
  rw [if_neg (by omega), if_pos hdif]

end QueueState

/-! ## The pool -/

namespace PoolState

variable {π ω : Type} [DecidableEq π] [DecidableEq ω] {n : QueueSize} {s : PoolState π ω} {w : ω}

omit [DecidableEq π] in
/-- The pool after a worker has claimed the next job. -/
def claimed (s : PoolState π ω) (w : ω) : PoolState π ω :=
  { s with queue := s.queue.claimed w }.setWorker w .pop

omit [DecidableEq π] in
/-- The pool after a worker has run the job that it had claimed. -/
def ran (n : QueueSize) (s : PoolState π ω) (w : ω) (pos : Nat) (c : Callable) (id : Nat) :
    PoolState π ω :=
  let s := { s with queue := s.queue.released n w pos, invoked := s.invoked ++ [id] }
  (s.setHandler w (.of c id)).setWorker w .check

/-- A worker goes as far as claiming a job. -/
theorem run_claim (hworker : s.worker w = .check) (hflag : s.m_running_flag w = true)
    (houtside : (s.queue.pop w).outside)
    (hfull : s.queue.queue.sequenceAt n s.queue.queue.m_dequeue_pos =
      s.queue.queue.m_dequeue_pos + 1) :
    run (step n) s (List.replicate 4 (.work w false)) = some (s.claimed w) := by
  have hcell : (s.queue.queue.cell n s.queue.queue.m_dequeue_pos).sequence =
    s.queue.queue.m_dequeue_pos + 1 := hfull
  simp [List.replicate, step, work, beginPop, popStep, QueueState.step, QueueState.popStep,
    houtside, hcell, hworker, hflag, setWorker, claimed, QueueState.claimed, QueueState.setPop,
    ite_else_ite]

/-- A worker that has claimed a job takes it out of its cell and runs it. -/
theorem run_job {pos : Nat} {c : Callable} {id : Nat} (hworker : s.worker w = .pop)
    (hpop : s.queue.pop w = .read pos) (hdata : s.queue.queue.dataAt n pos = some (.of c id)) :
    run (step n) s (List.replicate 5 (.work w false)) = some (s.ran n w pos c id) := by
  have hcell : (s.queue.queue.cell n pos).data = some (.of c id) := hdata
  simp [List.replicate, step, work, popStep, callHandler, QueueState.step, QueueState.popStep,
    hcell, hdata, hworker, hpop, setWorker, setHandler, ran, QueueState.released,
    QueueState.setPop, ite_else_ite]

end PoolState

end LimbWorker.ThreadPool
