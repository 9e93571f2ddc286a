import LimbWorker.Lib.Costs
import LimbWorker.ThreadPool.QueueAnswers

/-!
# How soon the queue answers

`push` and `pop` go back to their first loads when somebody else was faster. `steps_le` counts: a thread takes five
steps for each call, two more for each compare-exchange that fails for no reason, and two more for each position that
anybody has taken. So nobody waits for somebody who has stopped in the middle, and if a thread goes on and on, then
because others get done.
-/

namespace LimbWorker.ThreadPool

open Lib

/-- What is left of a call of `push` that need not go back. -/
def PushPc.left {T : Type} : PushPc T → Nat
  | .load _ => 5
  | .sequence _ _ => 4
  | .exchange _ _ => 3
  | .write _ _ => 2
  | .publish _ => 1
  | _ => 0

/-- The enqueue position as the producer knows it. -/
def PushPc.seen {T : Type} (m_enqueue_pos : Nat) : PushPc T → Nat
  | .sequence _ pos | .exchange _ pos => pos
  | _ => m_enqueue_pos

/-- What is left of a call of `pop` that need not go back. -/
def PopPc.left {T : Type} : PopPc T → Nat
  | .load => 5
  | .sequence _ => 4
  | .exchange _ => 3
  | .read _ => 2
  | .publish _ _ => 1
  | _ => 0

/-- The dequeue position as the consumer knows it. -/
def PopPc.seen {T : Type} (m_dequeue_pos : Nat) : PopPc T → Nat
  | .sequence pos | .exchange pos => pos
  | _ => m_dequeue_pos

theorem PushPc.seen_mono {T : Type} {E E' : Nat} (h : E ≤ E') (pc : PushPc T) : pc.seen E ≤ pc.seen E' := by
  cases pc <;> first | exact h | exact Nat.le_refl _

theorem PopPc.seen_mono {T : Type} {D D' : Nat} (h : D ≤ D') (pc : PopPc T) : pc.seen D ≤ pc.seen D' := by
  cases pc <;> first | exact h | exact Nat.le_refl _

namespace QueueAction

variable {π κ T : Type} [DecidableEq π] [DecidableEq κ]

/-- The steps of a producer. -/
def pushSteps (p : π) : QueueAction π κ T → Nat
  | .pushStep p' _ => if p' = p then 1 else 0
  | _ => 0

/-- Five steps for each call, and two for each weak compare-exchange that may fail. -/
def pushBudget (p : π) : QueueAction π κ T → Nat
  | .push p' _ => if p' = p then 5 else 0
  | .pushStep p' spurious => if p' = p ∧ spurious = true then 2 else 0
  | _ => 0

/-- The steps of a consumer. -/
def popSteps (c : κ) : QueueAction π κ T → Nat
  | .popStep c' _ => if c' = c then 1 else 0
  | _ => 0

def popBudget (c : κ) : QueueAction π κ T → Nat
  | .pop c' => if c' = c then 5 else 0
  | .popStep c' spurious => if c' = c ∧ spurious = true then 2 else 0
  | _ => 0

end QueueAction

namespace QueueState

variable {π κ T : Type} [DecidableEq π] [DecidableEq κ] {n : QueueSize} {s s' : QueueState π κ T} {p : π} {c : κ}
  {act : QueueAction π κ T}

/-! ## The positions -/

/-- The positions never go back. -/
theorem positions_mono (hs : s.step n act = some s') :
    s.queue.m_enqueue_pos ≤ s'.queue.m_enqueue_pos ∧ s.queue.m_dequeue_pos ≤ s'.queue.m_dequeue_pos := by
  cases act with
  | push p data | pop c =>
      obtain ⟨-, hs⟩ := Option.ite_none_right_eq_some.mp hs
      cases hs
      exact ⟨Nat.le_refl _, Nat.le_refl _⟩
  | pushStep p spurious =>
      have hmove := pushMove hs
      generalize note n s (.pushStep p spurious) = es at hmove
      cases hmove <;> first | exact ⟨Nat.le_refl _, Nat.le_refl _⟩ | exact ⟨Nat.le_succ _, Nat.le_refl _⟩
  | popStep c spurious =>
      have hmove := popMove hs
      generalize note n s (.popStep c spurious) = es at hmove
      cases hmove <;> first | exact ⟨Nat.le_refl _, Nat.le_refl _⟩ | exact ⟨Nat.le_refl _, Nat.le_succ _⟩

/-! ## One step -/

omit [DecidableEq κ] in
/-- **A step of a producer** that leads back is paid for by the position that somebody else has taken. -/
theorem pushStep_pays (h : Inv n s) {spurious : Bool} (hs : s.pushStep n p spurious = some s') :
    1 + (s'.push p).left + 2 * (s.push p).seen s.queue.m_enqueue_pos ≤
      (if spurious = true then 2 else 0) + (s.push p).left + 2 * (s'.push p).seen s'.queue.m_enqueue_pos := by
  have hok := h.push p
  unfold pushStep at hs
  split at hs
  · next data hpc =>
    cases hs
    simp only [hpc, push_setPush, if_true, PushPc.left, PushPc.seen]
    omega
  · next data pos hpc =>
    -- the cell is free, still full, or already used by another producer
    rw [hpc] at hok
    have hle : pos ≤ s.queue.m_enqueue_pos := hok
    have hcell : s.queue.sequenceAt n pos = (s.queue.cell n pos).sequence := rfl
    simp only at hs
    split at hs
    · cases hs
      simp only [hpc, push_setPush, if_true, PushPc.left, PushPc.seen]
      omega
    · split at hs
      · cases hs
        simp only [hpc, push_setPush, if_true, PushPc.left, PushPc.seen, queue_setPush]
        omega
      · cases hs
        -- the cell was ahead, so the position is out of date
        have hlt : pos < s.queue.m_enqueue_pos := by
          by_contra hge
          obtain rfl : pos = s.queue.m_enqueue_pos := by omega
          have hcur := h.sequenceAt_enqueue_le
          omega
        simp only [hpc, push_setPush, if_true, PushPc.left, PushPc.seen, queue_setPush]
        omega
  · next data pos hpc =>
    rw [hpc] at hok
    have hle : pos ≤ s.queue.m_enqueue_pos := hok.1
    split at hs
    · cases hs
      simp only [hpc, push_setPush, if_true, PushPc.left, PushPc.seen, queue_setPush]
      omega
    · next hfailed =>
      cases hs
      simp only [hpc, push_setPush, if_true, PushPc.left, PushPc.seen]
      cases spurious with
      | true =>
          -- a spurious failure is paid for by the step itself
          rw [if_pos rfl]
          omega
      | false =>
          -- a lost exchange is paid for by the producer that moved the position on
          have hne : s.queue.m_enqueue_pos ≠ pos := fun heq => hfailed ⟨heq, rfl⟩
          omega
  · next data pos hpc =>
    cases hs
    simp only [hpc, push_setPush, if_true, PushPc.left, PushPc.seen, queue_setPush,
      MPMCBoundedQueue.enqueue_storeData]
    omega
  · next pos hpc =>
    cases hs
    simp only [hpc, push_setPush, if_true, PushPc.left, PushPc.seen, queue_setPush,
      MPMCBoundedQueue.enqueue_storeSequence]
    omega
  · cases hs

omit [DecidableEq π] in
/-- **A step of a consumer**, likewise. -/
theorem popStep_pays (h : Inv n s) {spurious : Bool} (hs : s.popStep n c spurious = some s') :
    1 + (s'.pop c).left + 2 * (s.pop c).seen s.queue.m_dequeue_pos ≤
      (if spurious = true then 2 else 0) + (s.pop c).left + 2 * (s'.pop c).seen s'.queue.m_dequeue_pos := by
  have hok := h.pop c
  unfold popStep at hs
  split at hs
  · next hpc =>
    cases hs
    simp only [hpc, pop_setPop, if_true, PopPc.left, PopPc.seen]
    omega
  · next pos hpc =>
    rw [hpc] at hok
    have hle : pos ≤ s.queue.m_dequeue_pos := hok
    have hcell : s.queue.sequenceAt n pos = (s.queue.cell n pos).sequence := rfl
    simp only at hs
    split at hs
    · cases hs
      simp only [hpc, pop_setPop, if_true, PopPc.left, PopPc.seen]
      omega
    · split at hs
      · cases hs
        simp only [hpc, pop_setPop, if_true, PopPc.left, PopPc.seen, queue_setPop]
        omega
      · cases hs
        -- the cell was taken, so another consumer has moved the position on
        have hlt : pos < s.queue.m_dequeue_pos := by
          by_contra hge
          obtain rfl : pos = s.queue.m_dequeue_pos := by omega
          have hcur := h.sequenceAt_dequeue_le
          omega
        simp only [hpc, pop_setPop, if_true, PopPc.left, PopPc.seen, queue_setPop]
        omega
  · next pos hpc =>
    rw [hpc] at hok
    have hle : pos ≤ s.queue.m_dequeue_pos := hok.1
    split at hs
    · cases hs
      simp only [hpc, pop_setPop, if_true, PopPc.left, PopPc.seen, queue_setPop]
      omega
    · next hfailed =>
      cases hs
      simp only [hpc, pop_setPop, if_true, PopPc.left, PopPc.seen]
      cases spurious with
      | true =>
          rw [if_pos rfl]
          omega
      | false =>
          -- so has a lost exchange
          have hne : s.queue.m_dequeue_pos ≠ pos := fun heq => hfailed ⟨heq, rfl⟩
          omega
  · next pos hpc =>
    cases hs
    simp only [hpc, pop_setPop, if_true, PopPc.left, PopPc.seen, queue_setPop,
      MPMCBoundedQueue.dequeue_storeData]
    omega
  · next pos data hpc =>
    cases hs
    simp only [hpc, pop_setPop, if_true, PopPc.left, PopPc.seen, queue_setPop,
      MPMCBoundedQueue.dequeue_storeSequence]
    omega
  · cases hs

/-- Any step, for a producer. -/
theorem push_pays (p : π) (h : Inv n s) (hs : s.step n act = some s') :
    act.pushSteps p + (s'.push p).left + 2 * (s.push p).seen s.queue.m_enqueue_pos ≤
      act.pushBudget p + (s.push p).left + 2 * (s'.push p).seen s'.queue.m_enqueue_pos := by
  have hmono := (s.push p).seen_mono (positions_mono hs).1
  cases act with
  | push p' data =>
      obtain ⟨hout, hs⟩ := Option.ite_none_right_eq_some.mp hs
      cases hs
      simp only [QueueAction.pushSteps, QueueAction.pushBudget, push_setPush]
      by_cases hp : p' = p
      · subst hp
        -- a call starts outside
        have hleft : (s.push p').left = 0 ∧ (s.push p').seen s.queue.m_enqueue_pos = s.queue.m_enqueue_pos := by
          cases hpc : s.push p' <;> simp_all [PushPc.outside, PushPc.left, PushPc.seen]
        have hload : (PushPc.load data : PushPc T).left = 5 := rfl
        have hseen : (PushPc.load data : PushPc T).seen (s.setPush p' (.load data)).queue.m_enqueue_pos =
            s.queue.m_enqueue_pos := rfl
        rw [if_pos rfl, if_pos rfl]
        omega
      · rw [if_neg hp, if_neg (Ne.symm hp)]
        omega
  | pushStep p' spurious =>
      by_cases hp : p' = p
      · subst hp
        simpa [QueueAction.pushSteps, QueueAction.pushBudget] using pushStep_pays h hs
      · have hsame : s'.push p = s.push p := push_step_of_ne hs (by simp) (by simp [hp])
        simp only [QueueAction.pushSteps, QueueAction.pushBudget, hsame, if_neg hp]
        omega
  | pop c =>
      obtain ⟨-, hs⟩ := Option.ite_none_right_eq_some.mp hs
      cases hs
      exact Nat.le_refl _
  | popStep c spurious =>
      have hsame : s'.push p = s.push p := push_step_of_ne hs (by simp) (by simp)
      simp only [QueueAction.pushSteps, QueueAction.pushBudget, hsame]
      omega

/-- Any step, for a consumer. -/
theorem pop_pays (c : κ) (h : Inv n s) (hs : s.step n act = some s') :
    act.popSteps c + (s'.pop c).left + 2 * (s.pop c).seen s.queue.m_dequeue_pos ≤
      act.popBudget c + (s.pop c).left + 2 * (s'.pop c).seen s'.queue.m_dequeue_pos := by
  have hmono := (s.pop c).seen_mono (positions_mono hs).2
  cases act with
  | pop c' =>
      obtain ⟨hout, hs⟩ := Option.ite_none_right_eq_some.mp hs
      cases hs
      simp only [QueueAction.popSteps, QueueAction.popBudget, pop_setPop]
      by_cases hc : c' = c
      · subst hc
        -- a new call starts with its full budget, and from the current position
        have hleft : (s.pop c').left = 0 ∧ (s.pop c').seen s.queue.m_dequeue_pos = s.queue.m_dequeue_pos := by
          cases hpc : s.pop c' <;> simp_all [PopPc.outside, PopPc.left, PopPc.seen]
        have hload : (PopPc.load : PopPc T).left = 5 := rfl
        have hseen : (PopPc.load : PopPc T).seen (s.setPop c' .load).queue.m_dequeue_pos = s.queue.m_dequeue_pos := rfl
        rw [if_pos rfl, if_pos rfl]
        omega
      · rw [if_neg hc, if_neg (Ne.symm hc)]
        omega
  | popStep c' spurious =>
      by_cases hc : c' = c
      · subst hc
        simpa [QueueAction.popSteps, QueueAction.popBudget] using popStep_pays h hs
      · -- others only move the position on, which `c` may gain from
        have hsame : s'.pop c = s.pop c := pop_step_of_ne hs (by simp) (by simp [hc])
        simp only [QueueAction.popSteps, QueueAction.popBudget, hsame, if_neg hc]
        omega
  | push p data =>
      obtain ⟨-, hs⟩ := Option.ite_none_right_eq_some.mp hs
      cases hs
      exact Nat.le_refl _
  | pushStep p spurious =>
      have hsame : s'.pop c = s.pop c := pop_step_of_ne hs (by simp) (by simp)
      simp only [QueueAction.popSteps, QueueAction.popBudget, hsame]
      omega

/-! ## A whole run -/

/-- **The queue is lock-free**: in every interleaving, with any number of threads, the steps of one thread are at most
five for each of its calls, two for each of its compare-exchanges that may fail for no reason, and two for each handler
that was put into the queue, or taken out of it, by anybody. -/
theorem steps_le (n : QueueSize) {acts : List (QueueAction π κ T)} (h : run (step n) init acts = some s) :
    (∀ p, (acts.map (QueueAction.pushSteps p)).sum ≤
        (acts.map (QueueAction.pushBudget p)).sum + 2 * s.accepted.length) ∧
      ∀ c, (acts.map (QueueAction.popSteps c)).sum ≤
        (acts.map (QueueAction.popBudget c)).sum + 2 * s.queue.m_dequeue_pos := by
  have hend := run_invariant inv_step (inv_init n) h
  refine ⟨fun p => ?_, fun c => ?_⟩
  · have hcost : (acts.map (QueueAction.pushSteps p)).sum + (s.push p).left + 2 * (PushPc.idle : PushPc T).seen 0 ≤
        (acts.map (QueueAction.pushBudget p)).sum + (PushPc.idle : PushPc T).left +
          2 * (s.push p).seen s.queue.m_enqueue_pos :=
      run_cost_le inv_step (fun s act s' hinv hs => push_pays p hinv hs) (inv_init n) h
    -- a producer never holds a position the queue has not reached
    have hseen : (s.push p).seen s.queue.m_enqueue_pos ≤ s.queue.m_enqueue_pos := by
      have hok := hend.push p
      cases hpc : s.push p with
      | sequence data pos =>
          rw [hpc] at hok
          exact hok
      | exchange data pos =>
          rw [hpc] at hok
          exact hok.1
      | idle | load _ | write _ _ | publish _ | pushed | full _ => exact Nat.le_refl _
    -- each position is paid for once, and there are as many as values accepted
    rw [hend.length]
    have hidle : (PushPc.idle : PushPc T).left = 0 ∧ (PushPc.idle : PushPc T).seen 0 = 0 := ⟨rfl, rfl⟩
    omega
  · have hcost : (acts.map (QueueAction.popSteps c)).sum + (s.pop c).left + 2 * (PopPc.idle : PopPc T).seen 0 ≤
        (acts.map (QueueAction.popBudget c)).sum + (PopPc.idle : PopPc T).left +
          2 * (s.pop c).seen s.queue.m_dequeue_pos :=
      run_cost_le inv_step (fun s act s' hinv hs => pop_pays c hinv hs) (inv_init n) h
    have hseen : (s.pop c).seen s.queue.m_dequeue_pos ≤ s.queue.m_dequeue_pos := by
      have hok := hend.pop c
      cases hpc : s.pop c with
      | sequence pos =>
          rw [hpc] at hok
          exact hok
      | exchange pos =>
          rw [hpc] at hok
          exact hok.1
      | idle | load | read _ | publish _ _ | popped _ _ | empty => exact Nat.le_refl _
    have hidle : (PopPc.idle : PopPc T).left = 0 ∧ (PopPc.idle : PopPc T).seen 0 = 0 := ⟨rfl, rfl⟩
    omega

theorem tooEarly_steps_le : ∃ s, run (step ⟨2, by decide⟩) init tooEarly = some s ∧
    (∀ p, (tooEarly.map (QueueAction.pushSteps p)).sum ≤
        (tooEarly.map (QueueAction.pushBudget p)).sum + 2 * s.accepted.length) ∧
      ∀ c, (tooEarly.map (QueueAction.popSteps c)).sum ≤
        (tooEarly.map (QueueAction.popBudget c)).sum + 2 * s.queue.m_dequeue_pos :=
  ⟨_, rfl, steps_le ⟨2, by decide⟩ rfl⟩

end QueueState

end LimbWorker.ThreadPool
