import LimbWorker.Lib.StepSystem
import Mathlib.Data.Fintype.Basic
import Mathlib.Tactic.Common

/-!
# Wake-ups

The condition variable of the pool. A worker evaluates the predicate of `cv.wait` under its own mutex,
which nobody else takes: the posters and the destructor notify without it. So there is a window between
a failed evaluation and the sleep in which a notification finds nobody to wake.

Here `push`, `pop` as a part of the predicate, and each notification are single actions; a notification
wakes only workers that are already asleep, and a sleeping worker may also wake by itself. The queue is
its number of tasks.
-/

namespace LimbWorker.ThreadPool

open Lib

/-- Where a worker is in `threadFunc`; `window` is between the failed predicate and the sleep. -/
inductive WaitPc where
  | check
  | predicate
  | window
  | asleep
  | call
  | exited
  deriving DecidableEq, Repr

/-- Where `~ThreadPoolImpl` is. -/
inductive DtorPc where
  | stopping (next : Nat)
  | notifyAll
  | done
  deriving DecidableEq, Repr

/-- The pool as its condition variable sees it, with `m + 1` workers (`setThreadCount` asks for at least
one). `notifying` are the posters between a successful `push` and their `notify_one`. -/
structure WakeState (π : Type) (m : Nat) where
  tasks : Nat
  worker : Fin (m + 1) → WaitPc
  m_running_flag : Fin (m + 1) → Bool
  notifying : π → Bool
  dtor : DtorPc

/-- An action of the schedule. `notifyOne` says which worker it wakes, if any is asleep. -/
inductive WakeAction (π : Type) (m : Nat) where
  | push (p : π)
  | notifyOne (p : π) (woken : Option (Fin (m + 1)))
  | work (w : Fin (m + 1))
  | spurious (w : Fin (m + 1))
  | stop
  | notifyAll

namespace WakeState

variable {π : Type} [DecidableEq π] {m : Nat}

/-- All workers start; nobody has begun to destroy the pool. -/
def init : WakeState π m := ⟨0, fun _ => .check, fun _ => true, fun _ => false, .stopping 0⟩

omit [DecidableEq π] in
def setWorker (s : WakeState π m) (w : Fin (m + 1)) (pc : WaitPc) : WakeState π m :=
  { s with worker := fun w' => if w' = w then pc else s.worker w' }

def setNotifying (s : WakeState π m) (p : π) (b : Bool) : WakeState π m :=
  { s with notifying := fun p' => if p' = p then b else s.notifying p' }

omit [DecidableEq π] in
/-- The next step of `threadFunc`. The predicate is `pop(handler) || !m_running_flag`. -/
def work (s : WakeState π m) (w : Fin (m + 1)) : Option (WakeState π m) :=
  match s.worker w with
  | .check => some (s.setWorker w (if s.m_running_flag w then .predicate else .exited))
  | .predicate =>
      if 0 < s.tasks then some ({ s with tasks := s.tasks - 1 }.setWorker w .call)
      else if s.m_running_flag w = false then some (s.setWorker w .call)
      else some (s.setWorker w .window)
  | .window => some (s.setWorker w .asleep)
  | .asleep => none
  | .call => some (s.setWorker w .check)
  | .exited => none

/-- One action, in a pool whose queue holds `size` tasks. -/
def step (size : Nat) (s : WakeState π m) : WakeAction π m → Option (WakeState π m)
  | .push p =>
      if s.notifying p = false ∧ s.tasks < size then
        some ({ s with tasks := s.tasks + 1 }.setNotifying p true)
      else none
  | .notifyOne p (some w) =>
      if s.notifying p = true ∧ s.worker w = .asleep then
        some ((s.setNotifying p false).setWorker w .predicate)
      else none
  | .notifyOne p none =>
      if s.notifying p = true ∧ ∀ w, s.worker w ≠ .asleep then some (s.setNotifying p false)
      else none
  | .work w => s.work w
  | .spurious w => if s.worker w = .asleep then some (s.setWorker w .predicate) else none
  | .stop =>
      match s.dtor with
      | .stopping next =>
          if h : next < m + 1 then
            some { s with
              m_running_flag := fun w => if w = ⟨next, h⟩ then false else s.m_running_flag w
              dtor := if next + 1 < m + 1 then .stopping (next + 1) else .notifyAll }
          else none
      | _ => none
  | .notifyAll =>
      if s.dtor = .notifyAll then
        some { s with
          worker := fun w => if s.worker w = .asleep then .predicate else s.worker w
          dtor := .done }
      else none

/-! ## No lost wake-up -/

omit [DecidableEq π] in
/-- Nobody is about to notify. -/
def Quiet (s : WakeState π m) : Prop := (∀ p, s.notifying p = false) ∧ s.dtor ≠ .notifyAll

omit [DecidableEq π] in
/-- No task is left with all workers asleep, and no worker of a stopped pool sleeps. -/
structure NoLostWakeUp (s : WakeState π m) : Prop where
  task : s.Quiet → 0 < s.tasks → ∃ w, s.worker w ≠ .asleep
  stopped : s.Quiet → (∀ w, s.m_running_flag w = false) →
    ∀ w, s.worker w ≠ .exited → s.worker w ≠ .asleep

omit [DecidableEq π] in
/-- The condition on a step. The last outstanding `notify_one` for a queue that holds a task does not
find every worker in the window, and `notify_all` finds no worker there. -/
def WindowShut (s : WakeState π m) : WakeAction π m → Prop
  | .notifyOne p _ => 0 < s.tasks → (∀ p', p' ≠ p → s.notifying p' = false) →
      ∃ w, s.worker w ≠ .window
  | .notifyAll => ∀ w, s.worker w ≠ .window
  | _ => True

omit [DecidableEq π] in
/-- The invariant. A task in the queue is still to be notified, or some worker is on its way to the
predicate or gone; the destructor has cleared the flags it is past; after `notify_all` nobody sleeps or is
about to. -/
structure Inv (s : WakeState π m) : Prop where
  task : 0 < s.tasks → (∃ p, s.notifying p = true) ∨
    ∃ w, s.worker w ≠ .window ∧ s.worker w ≠ .asleep
  stopping : ∀ next, s.dtor = .stopping next →
    next < m + 1 ∧ ∀ w : Fin (m + 1), s.m_running_flag w = true ↔ next ≤ w.val
  cleared : (s.dtor = .notifyAll ∨ s.dtor = .done) → ∀ w, s.m_running_flag w = false
  awake : s.dtor = .done → ∀ w, s.worker w ≠ .window ∧ s.worker w ≠ .asleep

omit [DecidableEq π] in
theorem inv_init : Inv (init : WakeState π m) where
  task := fun h => absurd h (Nat.lt_irrefl 0)
  stopping := fun next h => by
    cases h
    exact ⟨Nat.succ_pos m, fun w => iff_of_true rfl (Nat.zero_le _)⟩
  cleared := fun h => by simp [init] at h
  awake := fun h => by simp [init] at h

section Steps

variable {size : Nat} {s s' : WakeState π m} {w : Fin (m + 1)}

omit [DecidableEq π] in
/-- A worker moves to a position that is neither in the window nor asleep. -/
theorem inv_setAwake (h : Inv s) {q : WaitPc} (hwindow : q ≠ .window) (hasleep : q ≠ .asleep) :
    Inv (s.setWorker w q) where
  task := fun htasks => by
    rcases h.task htasks with hnotify | ⟨w', hw'⟩
    · exact .inl hnotify
    · refine .inr ⟨w', ?_⟩
      by_cases hw : w' = w
      · simp [setWorker, hw, hwindow, hasleep]
      · simpa [setWorker, hw] using hw'
  stopping := h.stopping
  cleared := h.cleared
  awake := fun hdone w' => by
    by_cases hw : w' = w
    · simp [setWorker, hw, hwindow, hasleep]
    · simpa [setWorker, hw] using h.awake hdone w'

omit [DecidableEq π] in
/-- A worker takes its next step. Only with an empty queue and a set flag does one enter the window. -/
theorem inv_work (h : Inv s) (hs : s.work w = some s') : Inv s' := by
  unfold work at hs
  cases hworker : s.worker w with
  | check =>
      simp only [hworker, Option.some.injEq] at hs
      subst hs
      refine inv_setAwake h ?_ ?_ <;> split <;> simp
  | predicate =>
      simp only [hworker] at hs
      split at hs
      · next htasks =>
        cases hs
        -- the task is gone, and the worker that took it is awake
        have hmoved := inv_setAwake (q := .call) (w := w) h (by simp) (by simp)
        exact ⟨fun _ => .inr ⟨w, by simp [setWorker]⟩, hmoved.stopping, hmoved.cleared, hmoved.awake⟩
      · next htasks =>
        split at hs
        · cases hs
          exact inv_setAwake h (by simp) (by simp)
        · next hflag =>
          cases hs
          -- the predicate was false: no task is there and the flag is set, so nobody has notified all
          refine ⟨fun hpos => absurd hpos htasks, h.stopping, h.cleared, fun hdone => ?_⟩
          exact absurd (h.cleared (.inr hdone) w) hflag
  | window =>
      simp only [hworker, Option.some.injEq] at hs
      subst hs
      refine ⟨fun htasks => ?_, h.stopping, h.cleared, fun hdone => ?_⟩
      · rcases h.task htasks with hnotify | ⟨w', hw'⟩
        · exact .inl hnotify
        · -- a worker in the window is not the awake one
          have hne : w' ≠ w := by
            rintro rfl
            exact hw'.1 hworker
          exact .inr ⟨w', by simpa [setWorker, hne] using hw'⟩
      · exact absurd hworker (h.awake hdone w).1
  | asleep => simp [hworker] at hs
  | call =>
      simp only [hworker, Option.some.injEq] at hs
      subst hs
      exact inv_setAwake h (by simp) (by simp)
  | exited => simp [hworker] at hs

omit [DecidableEq π] in
/-- The destructor clears the next flag. -/
theorem inv_stop {next : Nat} (h : Inv s) (hdtor : s.dtor = .stopping next) (hnext : next < m + 1) :
    Inv { s with
      m_running_flag := fun w => if w = ⟨next, hnext⟩ then false else s.m_running_flag w
      dtor := if next + 1 < m + 1 then .stopping (next + 1) else .notifyAll } := by
  obtain ⟨-, hflag⟩ := h.stopping next hdtor
  -- the flags are cleared in order, so those from `next + 1` on are still set
  have hcleared : ∀ w : Fin (m + 1),
      (if w = ⟨next, hnext⟩ then false else s.m_running_flag w) = true ↔ next + 1 ≤ w.val := by
    intro w
    split
    · next hw =>
      subst hw
      simp
    · next hw =>
      rw [hflag w]
      have hne : w.val ≠ next := fun heq => hw (Fin.ext heq)
      omega
  refine ⟨h.task, ?_, ?_, ?_⟩
  · intro next' hdtor'
    dsimp only at hdtor'
    split at hdtor'
    · next hlt =>
      cases hdtor'
      exact ⟨hlt, hcleared⟩
    · cases hdtor'
  · intro hdtor' w
    dsimp only at hdtor' ⊢
    split at hdtor'
    · simp at hdtor'
    · next hge =>
      have hw := mt (hcleared w).mp (by have := w.isLt; omega)
      simpa using hw
  · intro hdtor'
    dsimp only at hdtor'
    split at hdtor' <;> cases hdtor'

/-- A poster calls `notify_one`. -/
theorem inv_notifyOne {p : π} {woken : Option (Fin (m + 1))} (h : Inv s)
    (hg : WindowShut s (.notifyOne p woken)) (hs : s.step size (.notifyOne p woken) = some s') :
    Inv s' := by
  cases woken with
  | some w =>
      simp only [step] at hs
      split at hs
      · cases hs
        -- whoever is woken will look at the queue
        refine ⟨fun _ => .inr ⟨w, by simp [setWorker]⟩, h.stopping, h.cleared, fun hdone w' => ?_⟩
        by_cases hw : w' = w
        · simp [setWorker, hw]
        · simpa [setWorker, setNotifying, hw] using h.awake hdone w'
      · cases hs
  | none =>
      simp only [step] at hs
      split at hs
      · next hnone =>
        cases hs
        refine ⟨fun htasks => ?_, h.stopping, h.cleared, h.awake⟩
        by_cases hlast : ∀ p', p' ≠ p → s.notifying p' = false
        · obtain ⟨w, hw⟩ := hg htasks hlast
          exact .inr ⟨w, hw, hnone.2 w⟩
        · simp only [not_forall, Bool.not_eq_false] at hlast
          obtain ⟨p', hne, hp'⟩ := hlast
          exact .inl ⟨p', by simp [setNotifying, hne, hp']⟩
      · cases hs

/-- The destructor calls `notify_all`. -/
theorem inv_notifyAll (h : Inv s) (hg : WindowShut s (.notifyAll : WakeAction π m))
    (hs : s.step size .notifyAll = some s') : Inv s' := by
  simp only [step] at hs
  split at hs
  · next hdtor =>
    cases hs
    refine ⟨fun htasks => ?_, fun next hnext => (by cases hnext), fun _ => h.cleared (.inl hdtor),
      fun _ w => ?_⟩
    · rcases h.task htasks with hnotify | ⟨w, hw⟩
      · exact .inl hnotify
      · exact .inr ⟨w, by simpa [hw.2] using hw⟩
    · dsimp only
      split
      · simp
      · next hasleep => exact ⟨hg w, hasleep⟩
  · cases hs

/-- **The step lemma**: a step whose notifications find nobody in the window keeps the invariant. -/
theorem inv_step (s : WakeState π m) (act : WakeAction π m) (s' : WakeState π m) (h : Inv s)
    (hg : WindowShut s act) (hs : s.step size act = some s') : Inv s' := by
  cases act with
  | push p =>
      simp only [step] at hs
      split at hs
      · cases hs
        exact ⟨fun _ => .inl ⟨p, by simp [setNotifying]⟩, h.stopping, h.cleared, h.awake⟩
      · cases hs
  | notifyOne p woken => exact inv_notifyOne h hg hs
  | work w => exact inv_work h hs
  | spurious w =>
      simp only [step] at hs
      split at hs
      · cases hs
        exact inv_setAwake h (by simp) (by simp)
      · cases hs
  | stop =>
      simp only [step] at hs
      split at hs
      · next next hdtor =>
        split at hs
        · next hnext =>
          cases hs
          exact inv_stop h hdtor hnext
        · cases hs
      · cases hs
  | notifyAll => exact inv_notifyAll h hg hs

end Steps

omit [DecidableEq π] in
/-- The invariant says it. -/
theorem Inv.noLostWakeUp {s : WakeState π m} (h : Inv s) : NoLostWakeUp s where
  task := fun hquiet htasks => by
    rcases h.task htasks with ⟨p, hp⟩ | ⟨w, hw⟩
    · rw [hquiet.1 p] at hp
      cases hp
    · exact ⟨w, hw.2⟩
  stopped := fun hquiet hflags w _ => by
    cases hdtor : s.dtor with
    | stopping next =>
        obtain ⟨hnext, hflag⟩ := h.stopping next hdtor
        have hrunning := (hflag ⟨next, hnext⟩).mpr (Nat.le_refl _)
        rw [hflags] at hrunning
        cases hrunning
    | notifyAll => exact absurd hdtor hquiet.2
    | done => exact (h.awake hdtor w).2

/-- **No wake-up is lost** in a run whose notifications find the window shut: for every number of
workers and posters, every queue size and every schedule. -/
theorem no_lost_wakeup (size : Nat) (acts : List (WakeAction π m)) (s : WakeState π m)
    (h : run (step size) init acts = some s) (hg : Guarded (step size) WindowShut init acts) :
    NoLostWakeUp s :=
  (guarded_invariant inv_step inv_init h hg).noLostWakeUp

/-- The only worker goes to sleep, and is woken for a task. -/
def wokenForTask : List (WakeAction Unit 0) :=
  [.work 0, .work 0, .work 0, .push (), .notifyOne () (some 0), .work 0, .work 0]

theorem woken_for_task_no_lost_wakeup :
    ∃ s, run (step 2) init wokenForTask = some s ∧ NoLostWakeUp s := by
  have hrun : (run (step 2) init wokenForTask).isSome := by rfl
  obtain ⟨s, hs⟩ := Option.isSome_iff_exists.mp hrun
  refine ⟨s, hs, no_lost_wakeup 2 wokenForTask s hs ?_⟩
  simp [wokenForTask, Guarded, WindowShut, step, work, setWorker, setNotifying, init]

/-- The only worker has found the queue empty; the task and its notification come before it sleeps. -/
def notifiedInWindow : List (WakeAction Unit 0) :=
  [.work 0, .work 0, .push (), .notifyOne () none, .work 0]

theorem task_left_with_worker_asleep :
    ∃ s, run (step 2) init notifiedInWindow = some s ∧ ¬ NoLostWakeUp s := by
  have hrun : (run (step 2) init notifiedInWindow).map
      (fun s => (s.tasks, s.worker 0, s.notifying (), s.dtor)) =
        some (1, .asleep, false, .stopping 0) := by rfl
  obtain ⟨s, hs, hstate⟩ := Option.map_eq_some_iff.mp hrun
  simp only [Prod.mk.injEq] at hstate
  obtain ⟨htasks, hworker, hnotifying, hdtor⟩ := hstate
  refine ⟨s, hs, fun h => ?_⟩
  obtain ⟨w, hw⟩ := h.task ⟨fun _ => hnotifying, by simp [hdtor]⟩ (by omega)
  rw [Fin.fin_one_eq_zero w] at hw
  exact hw hworker

end WakeState

end LimbWorker.ThreadPool
