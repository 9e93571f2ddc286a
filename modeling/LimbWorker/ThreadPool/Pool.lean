import LimbWorker.ThreadPool.QueueInvariant

/-!
# The thread pool

`FixedFunction`, the callable that the queue stores, and `ThreadPoolImpl` with its workers: posters
call `tryPost`, workers run `threadFunc`, and the destructor clears the running flags one after
another, at any moment. The queue is the one of `Queue.lean`, with all its intermediate steps.

Waiting is left unconstrained: a worker asleep in `cv.wait` may evaluate its predicate again at any
moment (a notification, or a spurious wake-up). Who is sure to be woken is the subject of
`WakeUp.lean`.
-/

namespace LimbWorker.ThreadPool

open Lib

/-! ## `FixedFunction` -/

/-- The union of `FixedFunction`: an object in `m_storage`, what a move left of one, nothing, or
`m_function_ptr`. -/
inductive Storage (F : Type) where
  | object (f : F)
  | movedFrom
  | vacant
  | function (f : Option F)
  deriving DecidableEq, Repr

/-- `FixedFunction`; of the two other pointers it only matters whether they are null. -/
structure FixedFunction (F : Type) where
  m_storage : Storage F
  m_method_ptr : Bool
  m_alloc_ptr : Bool
  deriving DecidableEq, Repr

/-- How a call of `operator()` goes. -/
inductive CallResult (F : Type) where
  | ran (f : F)
  | threw
  | undefinedBehaviour
  deriving DecidableEq, Repr

/-- What a `FixedFunction` can be made of. -/
inductive Callable where
  | object
  | function
  deriving DecidableEq, Repr

namespace FixedFunction

variable {F : Type}

/-- The default constructor. -/
def empty : FixedFunction F := ⟨.function none, false, false⟩

/-- The constructors from a functional object and from a free function. -/
def of : Callable → F → FixedFunction F
  | .object, f => ⟨.object f, true, true⟩
  | .function, f => ⟨.function (some f), true, false⟩

/-- `operator()`. -/
def call (x : FixedFunction F) : CallResult F :=
  if x.m_method_ptr = false then .threw
  else match x.m_storage with
    | .object f | .function (some f) => .ran f
    | _ => .undefinedBehaviour

/-- `moveFromOther`, with what it leaves of the other. -/
def moveFromOther (this o : FixedFunction F) : FixedFunction F × FixedFunction F :=
  let this : FixedFunction F :=
    if this.m_alloc_ptr then { this with m_storage := .vacant, m_alloc_ptr := false }
    else { this with m_storage := .function none }
  let this : FixedFunction F := { this with m_method_ptr := o.m_method_ptr }
  let o : FixedFunction F := { o with m_method_ptr := false }
  if o.m_alloc_ptr then
    ({ this with m_alloc_ptr := true, m_storage := o.m_storage }, { o with m_storage := .movedFrom })
  else ({ this with m_storage := o.m_storage }, o)

@[simp] theorem call_empty : (empty : FixedFunction F).call = .threw := rfl

@[simp] theorem call_of (c : Callable) (f : F) : (of c f).call = .ran f := by
  cases c <;> rfl

/-- A move hands the whole callable over, whatever was held before. -/
@[simp] theorem moveFromOther_of (this : FixedFunction F) (c : Callable) (f : F) :
    (moveFromOther this (of c f)).1 = of c f := by
  cases c <;> cases h : this.m_alloc_ptr <;> simp [moveFromOther, of, h]

end FixedFunction

/-! ## The pool -/

/-- Where a worker is in `threadFunc`; each constructor is the next thing it does. `call` remembers
whether the wait ended because `pop` succeeded; `run` is inside the handler. -/
inductive WorkerPc where
  | check
  | pop
  | flag
  | waiting
  | call (popped : Bool)
  | run
  | exited
  deriving DecidableEq, Repr

/-- The pool with its posters (`π`) and workers (`ω`). Handlers are numbered in the order in which they
are handed to `tryPost`; `invoked` is a history variable: the handlers whose `operator()` was run. -/
structure PoolState (π ω : Type) where
  queue : QueueState π ω (FixedFunction Nat)
  worker : ω → WorkerPc
  handler : ω → FixedFunction Nat
  m_running_flag : ω → Bool
  posted : Nat
  invoked : List Nat

/-- An action of the schedule: a call of `tryPost` with a new handler, the next step of one, the next
step of a worker, the `stop` of a worker. -/
inductive PoolAction (π ω : Type) where
  | post (p : π) (c : Callable)
  | pushStep (p : π) (spurious : Bool)
  | work (w : ω) (spurious : Bool)
  | stop (w : ω)

namespace PoolState

variable {π ω : Type} [DecidableEq π] [DecidableEq ω] (n : QueueSize)

def init : PoolState π ω :=
  ⟨.init, fun _ => .check, fun _ => .empty, fun _ => true, 0, []⟩

def setWorker (s : PoolState π ω) (w : ω) (pc : WorkerPc) : PoolState π ω :=
  { s with worker := fun w' => if w' = w then pc else s.worker w' }

def setHandler (s : PoolState π ω) (w : ω) (f : FixedFunction Nat) : PoolState π ω :=
  { s with handler := fun w' => if w' = w then f else s.handler w' }

/-- The worker calls `m_queue->pop(handler)`. -/
def beginPop (s : PoolState π ω) (w : ω) : Option (PoolState π ω) :=
  (s.queue.step n (.pop w)).map fun q => { s with queue := q }.setWorker w .pop

/-- The next step of a worker that is inside `pop`, or whose `pop` has returned. -/
def popStep (s : PoolState π ω) (w : ω) (spurious : Bool) : Option (PoolState π ω) :=
  match s.queue.pop w with
  | .popped _ (some f) =>
      some ((s.setHandler w ((s.handler w).moveFromOther f).1).setWorker w (.call true))
  | .popped _ none => none
  | .empty => some (s.setWorker w .flag)
  | _ => (s.queue.step n (.popStep w spurious)).map fun q => { s with queue := q }

/-- `handler()`. An exception is suppressed. -/
def callHandler (s : PoolState π ω) (w : ω) : Option (PoolState π ω) :=
  match (s.handler w).call with
  | .ran id => some ({ s with invoked := s.invoked ++ [id] }.setWorker w .run)
  | .threw => some (s.setWorker w .check)
  | .undefinedBehaviour => none

/-- The next step of `threadFunc`. -/
def work (s : PoolState π ω) (w : ω) (spurious : Bool) : Option (PoolState π ω) :=
  match s.worker w with
  | .check => if s.m_running_flag w then s.beginPop n w else some (s.setWorker w .exited)
  | .pop => s.popStep n w spurious
  | .flag => some (s.setWorker w (if s.m_running_flag w then .waiting else .call false))
  | .waiting => s.beginPop n w
  | .call _ => s.callHandler w
  | .run => some (s.setWorker w .check)
  | .exited => none

/-- One action. -/
def step (s : PoolState π ω) : PoolAction π ω → Option (PoolState π ω)
  | .post p c =>
      (s.queue.step n (.push p (.of c s.posted))).map fun q =>
        { s with queue := q, posted := s.posted + 1 }
  | .pushStep p spurious =>
      (s.queue.step n (.pushStep p spurious)).map fun q => { s with queue := q }
  | .work w spurious => s.work n w spurious
  | .stop w =>
      some { s with m_running_flag := fun w' => if w' = w then false else s.m_running_flag w' }

end PoolState

end LimbWorker.ThreadPool
