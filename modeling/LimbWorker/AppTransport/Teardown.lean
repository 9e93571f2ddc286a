import LimbWorker.Lib.Lifetimes
import LimbWorker.Lib.Logged

/-!
# Tearing the transport down

The destructor of `AmqpTransportAdapter` runs while workers are still busy and heartbeaters asleep. It ends the part
that jobs are dispatched to, then stops and joins the workers, then destroys the channel and the connection, and waits
for the heartbeaters only before it deletes the state of the handler.

So a worker may still take a job out of the queue when there is nothing left to dispatch it to, and a heartbeater may
wake up to a connection that is gone. `torn_down_iff` says that this is all that can go wrong, in every interleaving.
-/

namespace LimbWorker.AppTransport

open Lib

/-- What the transport is made of: the handler with its `AmqpHandlerImpl`, the connection, the channel, the pool, and
the part that `AmqpTransportAdapter` adds to `AmqpTransport`. -/
inductive Part where
  | handler
  | connection
  | channel
  | pool
  | adapter
  deriving DecidableEq, Repr

/-- What a part works on: the channel sends through the connection, which sends through the handler. -/
def Part.line : Part → List Part
  | .handler => []
  | .connection => [.handler]
  | .channel => [.connection, .handler]
  | .pool => []
  | .adapter => [.pool, .channel, .connection, .handler]

/-- Where the destructor is: what it does next. -/
inductive DestructorPc where
  | adapter
  | quit
  | stop
  | join
  | channel
  | connection
  | close
  | wait
  | done
  deriving DecidableEq, Repr

/-- The parts that are there. -/
def DestructorPc.live : DestructorPc → List Part
  | .adapter => [.adapter, .pool, .channel, .connection, .handler]
  | .quit | .stop | .join => [.pool, .channel, .connection, .handler]
  | .channel => [.channel, .connection, .handler]
  | .connection => [.connection, .handler]
  | .close | .wait => [.handler]
  | .done => []

/-- Where a worker is: at its loop condition, in `cv.wait`, with a job in its handler, in `handleProcessImage` before
and after it has turned to the application, with `calls` of the channel to make, or calling what a failed `pop` has
left in the handler, which does nothing. -/
inductive TeardownWorkerPc where
  | check
  | wait
  | dispatch
  | handle
  | send (calls : Nat)
  | stale
  | exited
  deriving DecidableEq, Repr

/-- Where a heartbeater is: at its loop condition, asleep, awake, about to send a heartbeat. -/
inductive BeaterPc where
  | check
  | sleep
  | awake
  | beat
  | exited
  deriving DecidableEq, Repr

/-- The threads, of `m` workers and `n` heartbeaters, and what they share. -/
structure Teardown (m n : Nat) where
  destructor : DestructorPc
  quit : Bool
  queue : Nat
  m_running_flag : Fin m → Bool
  worker : Fin m → TeardownWorkerPc
  beater : Fin n → BeaterPc

/-- What a heartbeater finds when it wakes up: less than the interval has passed since it last sent, or since the last
message, or a heartbeat is due. -/
inductive Elapsed where
  | early
  | recent
  | due
  deriving DecidableEq, Repr

/-- A step of the destructor, which stops one worker at a time; of a worker, whose job can be parsed or not and makes
`calls` of the channel; or of a heartbeater. -/
inductive TeardownAction (m n : Nat) where
  | destroy
  | stop (w : Fin m)
  | work (w : Fin m) (parsed : Bool) (calls : Nat)
  | beat (b : Fin n) (elapsed : Elapsed)

namespace Teardown

variable {m n : Nat}

/-- What the destructor does next. -/
def destroyStep (s : Teardown m n) : Option (Teardown m n) :=
  match s.destructor with
  | .adapter => some { s with destructor := .quit }
  | .quit => some { s with destructor := .stop, quit := true }
  | .stop => if ∀ w, s.m_running_flag w = false then some { s with destructor := .join } else none
  | .join => if ∀ w, s.worker w = .exited then some { s with destructor := .channel } else none
  | .channel => some { s with destructor := .connection }
  | .connection => some { s with destructor := .close }
  | .close => some { s with destructor := .wait }
  | .wait => if ∀ b, s.beater b = .exited then some { s with destructor := .done } else none
  | .done => none

/-- What a worker does next, and the jobs that are left in the queue. -/
def workStep (s : Teardown m n) (w : Fin m) (parsed : Bool) (calls : Nat) : Option (TeardownWorkerPc × Nat) :=
  match s.worker w with
  | .check => some (if s.m_running_flag w then .wait else .exited, s.queue)
  | .wait =>
      match s.queue with
      | queue + 1 => some (.dispatch, queue)
      | 0 => if s.m_running_flag w then none else some (.stale, 0)
  | .dispatch => some (.handle, s.queue)
  | .handle => some (if parsed then .send calls else .send 1, s.queue)
  | .send (calls + 1) => some (.send calls, s.queue)
  | .send 0 => some (.check, s.queue)
  | .stale => some (.check, s.queue)
  | .exited => none

/-- What a heartbeater does next. -/
def beatStep (s : Teardown m n) (b : Fin n) (elapsed : Elapsed) : Option BeaterPc :=
  match s.beater b, elapsed with
  | .check, _ => some (if s.quit then .exited else .sleep)
  | .sleep, _ => some .awake
  | .awake, .due => some .beat
  | .awake, _ => some .check
  | .beat, _ => some .check
  | .exited, _ => none

/-- One step. -/
def step (s : Teardown m n) : TeardownAction m n → Option (Teardown m n)
  | .destroy => s.destroyStep
  | .stop w =>
      if s.destructor = .stop then some { s with m_running_flag := Function.update s.m_running_flag w false }
      else none
  | .work w parsed calls =>
      (s.workStep w parsed calls).map fun (pc, queue) =>
        { s with worker := Function.update s.worker w pc, queue := queue }
  | .beat b elapsed => (s.beatStep b elapsed).map fun pc => { s with beater := Function.update s.beater b pc }

/-- What a step touches. The job of a worker is called through the adapter, and reads `m_app` there. -/
def touches (s : Teardown m n) : TeardownAction m n → List (Life Part)
  | .destroy =>
      match s.destructor with
      | .adapter => [.destroy .adapter]
      | .quit => [.use .handler]
      | .stop => []
      | .join => [.destroy .pool]
      | .channel => [.destroy .channel]
      | .connection => [.destroy .connection]
      | .close => [.use .handler]
      | .wait => [.destroy .handler]
      | .done => []
  | .stop _ => [.use .pool]
  | .work w parsed _ =>
      match s.worker w with
      | .check | .wait => [.use .pool]
      | .dispatch => [.use .adapter]
      | .handle => if parsed then [.use .adapter] else []
      | .send (_ + 1) => [.use .channel]
      | .send 0 | .stale | .exited => []
  | .beat b elapsed =>
      match s.beater b, elapsed with
      | .check, _ => [.use .handler]
      | .awake, .recent | .awake, .due => [.use .handler]
      | .beat, _ => [.use .connection]
      | _, _ => []

/-- No job is dispatched to the adapter once it is gone, and no heartbeat sent over the connection once that is. -/
def InTime (s : Teardown m n) : TeardownAction m n → Prop
  | .work w parsed _ =>
      s.worker w = .dispatch ∨ s.worker w = .handle ∧ parsed = true → .adapter ∈ s.destructor.live
  | .beat b _ => s.beater b = .beat → .connection ∈ s.destructor.live
  | _ => True

/-- The destructor has waited for the workers before it goes on to the channel, and for the heartbeaters before it
ends. -/
structure Inv (s : Teardown m n) : Prop where
  joined : .pool ∉ s.destructor.live → ∀ w, s.worker w = .exited
  waited : .handler ∉ s.destructor.live → ∀ b, s.beater b = .exited

/-! ## What is there -/

/-- A part that is there has everything that it works on. -/
theorem use_of_mem {pc : DestructorPc} {part : Part} (h : part ∈ pc.live) :
    Life.step Part.line pc.live (.use part) = some pc.live := by
  cases pc <;> cases part <;> first | rfl | exact absurd h (by decide)

/-- A part that is gone cannot be used. -/
theorem use_of_not_mem {pc : DestructorPc} {part : Part} (h : part ∉ pc.live) :
    Life.step Part.line pc.live (.use part) = none :=
  if_neg fun hlive => h hlive.1

/-- The channel outlives the pool. -/
theorem channel_of_pool {pc : DestructorPc} (h : .pool ∈ pc.live) : .channel ∈ pc.live := by
  cases pc <;> first | decide | exact absurd h (by decide)

variable {s s' : Teardown m n} {act : TeardownAction m n}

theorem Inv.pool_mem (h : Inv s) {w : Fin m} (hw : s.worker w ≠ .exited) : .pool ∈ s.destructor.live := by
  by_contra hgone
  exact hw (h.joined hgone w)

theorem Inv.handler_mem (h : Inv s) {b : Fin n} (hb : s.beater b ≠ .exited) : .handler ∈ s.destructor.live := by
  by_contra hgone
  exact hb (h.waited hgone b)

/-- A worker that takes a step has not exited. -/
theorem workStep_ne_exited {w : Fin m} {parsed : Bool} {calls : Nat} {next : TeardownWorkerPc × Nat}
    (h : s.workStep w parsed calls = some next) : s.worker w ≠ .exited := by
  intro hexited
  rw [workStep, hexited] at h
  cases h

theorem beatStep_ne_exited {b : Fin n} {elapsed : Elapsed} {next : BeaterPc}
    (h : s.beatStep b elapsed = some next) : s.beater b ≠ .exited := by
  intro hexited
  simp [beatStep, hexited] at h

/-- The destructor goes on to the channel when the workers have exited, and ends when the heartbeaters have. -/
theorem destroyStep_cases (hs : s.destroyStep = some s') :
    s'.worker = s.worker ∧ s'.beater = s.beater ∧
      run (Life.step Part.line) s.destructor.live (s.touches .destroy) = some s'.destructor.live ∧
      (.pool ∉ s'.destructor.live → .pool ∉ s.destructor.live ∨ ∀ w, s.worker w = .exited) ∧
      (.handler ∉ s'.destructor.live → .handler ∉ s.destructor.live ∨ ∀ b, s.beater b = .exited) := by
  simp only [destroyStep] at hs
  simp only [touches]
  cases hpc : s.destructor with
  | adapter | quit =>
      rw [hpc] at hs
      cases hs
      exact ⟨rfl, rfl, rfl, by simp [DestructorPc.live], by simp [DestructorPc.live]⟩
  | stop =>
      rw [hpc] at hs
      obtain ⟨-, hs⟩ := Option.ite_none_right_eq_some.mp hs
      cases hs
      exact ⟨rfl, rfl, rfl, by simp [DestructorPc.live], by simp [DestructorPc.live]⟩
  | join =>
      rw [hpc] at hs
      obtain ⟨hexited, hs⟩ := Option.ite_none_right_eq_some.mp hs
      cases hs
      -- the pool goes after the workers have been joined
      exact ⟨rfl, rfl, rfl, fun _ => .inr hexited, by simp [DestructorPc.live]⟩
  | channel | connection | close =>
      rw [hpc] at hs
      cases hs
      exact ⟨rfl, rfl, rfl, fun _ => .inl (by decide), by simp [DestructorPc.live]⟩
  | wait =>
      rw [hpc] at hs
      obtain ⟨hexited, hs⟩ := Option.ite_none_right_eq_some.mp hs
      cases hs
      -- the handler goes after the heartbeater has been waited for
      exact ⟨rfl, rfl, rfl, fun _ => .inl (by decide), fun _ => .inr hexited⟩
  | done =>
      rw [hpc] at hs
      cases hs

theorem Inv.step (h : Inv s) (hs : s.step act = some s') : Inv s' := by
  cases act with
  | destroy =>
      obtain ⟨hworker, hbeater, -, hpool, hhandler⟩ := destroyStep_cases hs
      refine ⟨fun hgone w => ?_, fun hgone b => ?_⟩
      · rw [hworker]
        exact (hpool hgone).elim (h.joined · w) (· w)
      · rw [hbeater]
        exact (hhandler hgone).elim (h.waited · b) (· b)
  | stop w =>
      obtain ⟨-, hs⟩ := Option.ite_none_right_eq_some.mp hs
      cases hs
      exact ⟨h.joined, h.waited⟩
  | work w parsed calls =>
      obtain ⟨next, hnext, rfl⟩ := Option.map_eq_some_iff.mp hs
      have hpool := h.pool_mem (workStep_ne_exited hnext)
      exact ⟨fun hgone => absurd hpool hgone, h.waited⟩
  | beat b elapsed =>
      obtain ⟨next, hnext, rfl⟩ := Option.map_eq_some_iff.mp hs
      have hhandler := h.handler_mem (beatStep_ne_exited hnext)
      exact ⟨h.joined, fun hgone => absurd hhandler hgone⟩

/-- One use. -/
theorem run_use {part : Part} (h : part ∈ s.destructor.live) :
    run (Life.step Part.line) s.destructor.live [.use part] = some s.destructor.live :=
  run_cons_of (use_of_mem h)

/-- What a step in time touches is there. -/
theorem run_touches (h : Inv s) (hs : s.step act = some s') (htime : s.InTime act) :
    run (Life.step Part.line) s.destructor.live (s.touches act) = some s'.destructor.live := by
  cases act with
  | destroy => exact (destroyStep_cases hs).2.2.1
  | stop w =>
      obtain ⟨hstop, hs⟩ := Option.ite_none_right_eq_some.mp hs
      cases hs
      exact run_use (by rw [hstop]; decide)
  | work w parsed calls =>
      obtain ⟨next, hnext, rfl⟩ := Option.map_eq_some_iff.mp hs
      -- the pool lives as long as a worker has not exited
      have hpool := h.pool_mem (workStep_ne_exited hnext)
      simp only [InTime] at htime
      simp only [touches]
      cases hw : s.worker w with
      | check => exact run_use hpool
      | wait => exact run_use hpool
      -- a job that is dispatched, or handled, uses the adapter: the guard keeps it there
      | dispatch => exact run_use (htime (.inl hw))
      | handle =>
          cases parsed with
          | false => rfl
          | true => exact run_use (htime (.inr ⟨hw, rfl⟩))
      | send calls =>
          cases calls with
          | zero => rfl
          | succ calls => exact run_use (channel_of_pool hpool)
      | stale => rfl
      | exited => rfl
  | beat b elapsed =>
      obtain ⟨next, hnext, rfl⟩ := Option.map_eq_some_iff.mp hs
      -- the handler lives as long as its heartbeater runs
      have hhandler := h.handler_mem (beatStep_ne_exited hnext)
      simp only [InTime] at htime
      simp only [touches]
      cases hb : s.beater b with
      | check => exact run_use hhandler
      | sleep => rfl
      | awake =>
          cases elapsed with
          | early => rfl
          | recent => exact run_use hhandler
          | due => exact run_use hhandler
      | beat => exact run_use (htime hb)
      | exited => rfl

/-- What a step out of time touches is gone. -/
theorem run_touches_late (htime : ¬ s.InTime act) :
    run (Life.step Part.line) s.destructor.live (s.touches act) = none := by
  have hgone : ∀ {part}, part ∉ s.destructor.live →
      run (Life.step Part.line) s.destructor.live [.use part] = none := by
    intro part hpart
    rw [run_cons, use_of_not_mem hpart]
    rfl
  cases act with
  | destroy => exact absurd trivial htime
  | stop w => exact absurd trivial htime
  | work w parsed calls =>
      simp only [InTime, Classical.not_imp] at htime
      obtain ⟨hw | ⟨hw, rfl⟩, hadapter⟩ := htime
      · simp only [touches, hw]
        exact hgone hadapter
      · simp only [touches, hw]
        exact hgone hadapter
  | beat b elapsed =>
      simp only [InTime, Classical.not_imp] at htime
      simp only [touches, htime.1]
      exact hgone htime.2

/-- The log so far, if it is in order, has left the parts that are there. -/
structure LogInv (all : List Part) (s : Teardown m n) (log : List (Life Part)) : Prop where
  inv : Inv s
  left : ∀ live, run (Life.step Part.line) all log = some live → live = s.destructor.live

/-- A step is in order just when it is in time. -/
theorem LogInv.isSome_iff {all : List Part} {log : List (Life Part)} (h : LogInv all s log)
    (hs : s.step act = some s') :
    (run (Life.step Part.line) all (log ++ s.touches act)).isSome ↔
      (run (Life.step Part.line) all log).isSome ∧ s.InTime act := by
  rw [run_append]
  cases hrun : run (Life.step Part.line) all log with
  | none => simp
  | some live =>
      rw [Option.bind_some, h.left live hrun]
      by_cases htime : s.InTime act
      · simp [run_touches h.inv hs htime, htime]
      · simp [run_touches_late htime, htime]

theorem LogInv.step {all : List Part} {log : List (Life Part)} (h : LogInv all s log)
    (hs : s.step act = some s') : LogInv all s' (log ++ s.touches act) where
  inv := h.inv.step hs
  left := by
    intro live hlive
    obtain ⟨hlog, htime⟩ := (h.isSome_iff hs).mp (Option.isSome_iff_exists.mpr ⟨live, hlive⟩)
    obtain ⟨before, hbefore⟩ := Option.isSome_iff_exists.mp hlog
    rw [run_append, hbefore, Option.bind_some, h.left before hbefore, run_touches h.inv hs htime] at hlive
    exact (Option.some.inj hlive).symm

/-- **Tearing down** is in order just as long as no worker turns to the adapter and no heartbeater to the connection once
these are gone: with any number of workers and heartbeaters, in every interleaving, from wherever the threads are when
the destructor is entered. In any case the destructor ends only after all of them. -/
theorem torn_down_iff {s₀ : Teardown m n} (hentered : s₀.destructor = .adapter) {acts : List (TeardownAction m n)}
    {log : List (Life Part)} (h : run (logged step touches) (s₀, []) acts = some (s, log)) :
    ((run (Life.step Part.line) s₀.destructor.live log).isSome ↔ Guarded step InTime s₀ acts) ∧
      (∀ live, run (Life.step Part.line) s₀.destructor.live log = some live → live = s.destructor.live) ∧
      (s.destructor = .done → (∀ w, s.worker w = .exited) ∧ ∀ b, s.beater b = .exited) := by
  have h₀ : LogInv s₀.destructor.live s₀ [] := by
    refine ⟨⟨fun hgone => ?_, fun hgone => ?_⟩, fun live hlive => (Option.some.inj hlive).symm⟩
    · exact absurd (by rw [hentered]; decide) hgone
    · exact absurd (by rw [hentered]; decide) hgone
  have hstep : ∀ (p : Teardown m n × List (Life Part)) act p', LogInv s₀.destructor.live p.1 p.2 →
      logged step touches p act = some p' → LogInv s₀.destructor.live p'.1 p'.2 := by
    rintro ⟨s, log⟩ act ⟨s', log'⟩ hinv hs
    obtain ⟨hs₁, rfl⟩ := logged_eq_some hs
    exact hinv.step hs₁
  have hend := run_invariant hstep h₀ h
  refine ⟨?_, hend.left, fun hdone => ⟨hend.inv.joined (by rw [hdone]; decide), hend.inv.waited (by rw [hdone]; decide)⟩⟩
  -- a use that comes late stops the log for good, so it goes on exactly as long as the guard holds
  have hiff := guarded_iff (G := fun p act => InTime p.1 act)
    (P := fun p => (run (Life.step Part.line) s₀.destructor.live p.2).isSome) hstep (fun p act p' hinv hs => by
      obtain ⟨hs₁, hlog⟩ := logged_eq_some hs
      rw [hlog]
      exact hinv.isSome_iff hs₁) h₀ h
  rw [hiff, guarded_logged]
  exact and_iff_right rfl

/-- A worker in its loop, and a heartbeater asleep. -/
def idle : Teardown 1 1 := ⟨.adapter, false, 0, fun _ => true, fun _ => .check, fun _ => .sleep⟩

/-- The destructor to its end, with the worker and the heartbeater when it waits for them. -/
def untilDone : List (TeardownAction 1 1) :=
  let only : Fin 1 := ⟨0, Nat.one_pos⟩
  [.destroy, .destroy, .stop only, .destroy, .work only false 0, .destroy, .destroy, .destroy, .destroy,
    .beat only .early, .beat only .early, .beat only .early, .destroy]

theorem torn_down_idle : ∃ s log, run (logged step touches) (idle, []) untilDone = some (s, log) ∧
    ((run (Life.step Part.line) idle.destructor.live log).isSome ↔ Guarded step InTime idle untilDone) ∧
      (∀ live, run (Life.step Part.line) idle.destructor.live log = some live → live = s.destructor.live) ∧
      (s.destructor = .done → (∀ w, s.worker w = .exited) ∧ ∀ b, s.beater b = .exited) :=
  ⟨_, _, rfl, torn_down_iff rfl rfl⟩

end Teardown

end LimbWorker.AppTransport
