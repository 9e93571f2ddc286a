import LimbWorker.AppTransport.FlowControl
import LimbWorker.ThreadPool.Solo
import Mathlib.Data.Fintype.Card

/-!
# When the queue is found full

The runs that make `tryPost` refuse a delivery although the broker keeps to the prefetch count, and
with them the exact condition on the three numbers.

* With room for one more delivery than there are cells, all of them are delivered before a worker
  moves.
* With two workers and two deliveries, the first worker stops inside the first cell, and the second
  one serves all further jobs until the enqueue position comes round to that cell.
-/

namespace LimbWorker.AppTransport

open AppConfig Lib ThreadPool

namespace FlowState

variable {ω : Type} [DecidableEq ω] {n : QueueSize} {prefetch k : Nat} {s s' : FlowState ω} {w : ω}

/-! ## Pieces of a run -/

/-- The system after a delivery that was queued. -/
def queued (n : QueueSize) (s : FlowState ω) : FlowState ω :=
  { s with pool := { s.pool with
    queue := s.pool.queue.pushed n () (.of .object s.pool.posted)
    posted := s.pool.posted + 1 } }

/-- A delivery that finds its cell free is queued. -/
theorem run_queued (houtside : (s.pool.queue.push ()).outside) (hroom : s.unsettled < prefetch)
    (hfree : s.pool.queue.queue.sequenceAt n s.pool.queue.queue.m_enqueue_pos =
      s.pool.queue.queue.m_enqueue_pos) :
    run (step n prefetch) s (.deliver :: List.replicate 5 (.pushStep false)) =
      some (s.queued n) := by
  have hcell : (s.pool.queue.queue.cell n s.pool.queue.queue.m_enqueue_pos).sequence =
    s.pool.queue.queue.m_enqueue_pos := hfree
  simp [List.replicate, step, PoolState.step, QueueState.step, QueueState.pushStep, refusal,
    houtside, hroom, hcell, queued, QueueState.pushed, QueueState.setPush]

/-- A delivery that finds its cell taken is refused. -/
theorem run_refused (houtside : (s.pool.queue.push ()).outside) (hroom : s.unsettled < prefetch)
    (hbehind : s.pool.queue.queue.sequenceAt n s.pool.queue.queue.m_enqueue_pos <
      s.pool.queue.queue.m_enqueue_pos) :
    ∃ s', run (step n prefetch) s (.deliver :: List.replicate 2 (.pushStep false)) = some s' ∧
      s'.refused = s.refused ++ [s.pool.posted] := by
  let f : FixedFunction Nat := .of .object s.pool.posted
  -- the system while the consumer is at `pc` inside `tryPost`
  let at_pc : PushPc (FixedFunction Nat) → FlowState ω := fun pc =>
    { s with pool := { s.pool with
      queue := s.pool.queue.setPush () pc
      posted := s.pool.posted + 1 } }
  have hpost : step n prefetch s .deliver = some (at_pc (.load f)) := by
    simp [step, PoolState.step, QueueState.step, houtside, hroom, at_pc, f]
  have hload : step n prefetch (at_pc (.load f)) (.pushStep false) =
      some (at_pc (.sequence f s.pool.queue.queue.m_enqueue_pos)) := by
    simp [step, PoolState.step, QueueState.step, QueueState.pushStep, QueueState.setPush, refusal,
      at_pc]
  let s₂ := at_pc (.sequence f s.pool.queue.queue.m_enqueue_pos)
  have hfull : s₂.pool.queue.pushStep n () false = some (s₂.pool.queue.setPush () (.full f)) :=
    QueueState.pushStep_behind n _ (by simp [s₂, at_pc]) hbehind
  have hrefuse : (step n prefetch s₂ (.pushStep false)).map refused =
      some (s.refused ++ [s.pool.posted]) := by
    simp [step, PoolState.step, QueueState.step, hfull, refusal, s₂, at_pc]
  obtain ⟨s', hs', hrefused⟩ := Option.map_eq_some_iff.mp hrefuse
  refine ⟨s', ?_, hrefused⟩
  rw [run_cons, hpost, Option.bind_some, List.replicate_succ, run_cons, hload, Option.bind_some]
  exact run_cons_of hs'

/-- What a worker does alone in the pool, it does in the system. -/
theorem run_work {p : PoolState Unit ω} (k : Nat)
    (h : run (PoolState.step n) s.pool (List.replicate k (.work w false)) = some p) :
    run (step n prefetch) s (List.replicate k (.work w false)) = some { s with pool := p } :=
  run_replicate_lift (fun p => { s with pool := p })
    (fun t t' ht => by simp [step, ht]) k h

/-! ## More deliveries than cells -/

/-- `k` deliveries are queued, and no worker has moved. -/
structure Filled (n : QueueSize) (k : Nat) (s : FlowState ω) : Prop where
  enqueue : s.pool.queue.queue.m_enqueue_pos = k
  outside : (s.pool.queue.push ()).outside
  cells : ∀ i, i < n.size → s.pool.queue.queue.sequenceAt n i = if i < k then i + 1 else i
  posted : s.pool.posted = k
  settled : s.settled = []

omit [DecidableEq ω] in
theorem filled_zero (n : QueueSize) : Filled n 0 (init : FlowState ω) where
  enqueue := rfl
  outside := rfl
  cells := fun i hi => by
    show n.index i = i
    rw [n.index_eq_mod, Nat.mod_eq_of_lt hi]
  posted := rfl
  settled := rfl

/-- Numbers below the queue length have their own cells. -/
theorem index_eq_iff {i j : Nat} (hi : i < n.size) (hj : j < n.size) :
    n.index i = n.index j ↔ i = j := by
  rw [n.index_eq_mod, n.index_eq_mod, Nat.mod_eq_of_lt hi, Nat.mod_eq_of_lt hj]

theorem Filled.succ (h : Filled n k s) (hk : k < n.size) (hprefetch : k < prefetch) :
    run (step n prefetch) s (.deliver :: List.replicate 5 (.pushStep false)) =
      some (s.queued n) ∧ Filled n (k + 1) (s.queued n) := by
  constructor
  · apply run_queued h.outside
    · simpa [unsettled, h.posted, h.settled] using hprefetch
    · rw [h.enqueue, h.cells k hk, if_neg (Nat.lt_irrefl k)]
  · refine ⟨?_, by simp [queued, QueueState.pushed, PushPc.outside], fun i hi => ?_, ?_, h.settled⟩
    · show s.pool.queue.queue.m_enqueue_pos + 1 = k + 1
      rw [h.enqueue]
    · show (s.pool.queue.pushed n () _).queue.sequenceAt n i = _
      rw [QueueState.sequenceAt_pushed, h.enqueue, h.cells i hi]
      simp only [index_eq_iff hi hk]
      grind
    · show s.pool.posted + 1 = k + 1
      rw [h.posted]

/-- Any number of deliveries up to the queue length can be queued before a worker moves. -/
theorem exists_filled (k : Nat) (hk : k ≤ n.size) (hprefetch : k ≤ prefetch) :
    ∃ acts, ∃ s : FlowState ω, run (step n prefetch) init acts = some s ∧ Filled n k s := by
  induction k with
  | zero => exact ⟨[], init, rfl, filled_zero n⟩
  | succ k ih =>
      obtain ⟨acts, s, hs, hfilled⟩ := ih (by omega) (by omega)
      obtain ⟨hrun, hnext⟩ := hfilled.succ (by omega) hprefetch
      exact ⟨_, _, run_trans hs hrun, hnext⟩

/-- **One delivery more than there are cells** is refused. -/
theorem exists_refused_of_lt (hprefetch : n.size < prefetch) :
    ∃ acts, ∃ s : FlowState ω, run (step n prefetch) init acts = some s ∧ s.refused ≠ [] := by
  have hn := n.two_le
  obtain ⟨acts, s, hs, h⟩ : ∃ acts, ∃ s : FlowState ω,
      run (step n prefetch) init acts = some s ∧ Filled n n.size s :=
    exists_filled n.size (Nat.le_refl _) (by omega)
  have hcell : s.pool.queue.queue.sequenceAt n n.size = 1 := by
    rw [MPMCBoundedQueue.sequenceAt_congr n s.pool.queue.queue n.index_size, h.cells 0 (by omega),
      if_pos (by omega)]
  have hroom : s.unsettled < prefetch := by
    simpa [unsettled, h.posted, h.settled] using hprefetch
  obtain ⟨s', hrun, hrefused⟩ := run_refused h.outside hroom (by rw [h.enqueue, hcell]; omega)
  refine ⟨_, s', run_trans hs hrun, ?_⟩
  rw [hrefused]
  simp

/-! ## A worker inside the first cell -/

/-- A worker has stopped inside the first cell; `w` has served the `k - 1` jobs since then. -/
structure Stalled (n : QueueSize) (w : ω) (k : Nat) (s : FlowState ω) : Prop where
  enqueue : s.pool.queue.queue.m_enqueue_pos = k
  dequeue : s.pool.queue.queue.m_dequeue_pos = k
  outside : (s.pool.queue.push ()).outside
  first : s.pool.queue.queue.sequenceAt n 0 = 1
  cells : ∀ i, k ≤ i → i < n.size → s.pool.queue.queue.sequenceAt n i = i
  worker : s.pool.worker w = .check
  running : s.pool.m_running_flag w = true
  ready : (s.pool.queue.pop w).outside
  posted : s.pool.posted = k
  settled : s.settled.length + 1 = k
  fresh : ∀ tag ∈ s.settled, tag < k

/-- The first job is claimed by a worker that goes no further. -/
theorem exists_stalled_one {w₀ w₁ : ω} (hw : w₁ ≠ w₀) (hprefetch : 0 < prefetch) :
    ∃ acts s, run (step n prefetch) init acts = some s ∧ Stalled n w₁ 1 s := by
  have hn := n.two_le
  obtain ⟨hqueued, hfilled⟩ := (filled_zero n : Filled n 0 (init : FlowState ω)).succ (by omega)
    hprefetch
  -- the worker `w₀` claims the first ticket and goes no further
  have hclaim := PoolState.run_claim (n := n) (s := ((init : FlowState ω).queued n).pool)
    (w := w₀) rfl rfl rfl (by
      have hcell := hfilled.cells 0 (by omega)
      rw [if_pos (by omega)] at hcell
      exact hcell)
  refine ⟨_, _, run_trans hqueued (run_work 4 hclaim), ?_⟩
  constructor
  · rfl
  · rfl
  · rfl
  · exact (hfilled.cells 0 (by omega)).trans (if_pos (by omega))
  · intro i hi hlt
    exact (hfilled.cells i hlt).trans (if_neg (by omega))
  · simp [PoolState.claimed, queued, init, PoolState.init, hw]
  · rfl
  · simp [PoolState.claimed, QueueState.claimed, queued, init, PoolState.init, QueueState.init,
      QueueState.pushed, PopPc.outside, hw]
  · rfl
  · rfl
  · intro tag htag
    cases htag

/-- The system after `w` has taken the job with ticket `k` and run it alone. -/
def served (n : QueueSize) (s : FlowState ω) (w : ω) (k : Nat) : FlowState ω :=
  { s with pool := (s.pool.claimed w).ran n w k .object k }

/-- A worker that finds the job of delivery `k` serves it. -/
theorem run_served (hworker : s.pool.worker w = .check) (hflag : s.pool.m_running_flag w = true)
    (hready : (s.pool.queue.pop w).outside) (hdequeue : s.pool.queue.queue.m_dequeue_pos = k)
    (hfull : s.pool.queue.queue.sequenceAt n k = k + 1)
    (hdata : s.pool.queue.queue.dataAt n k = some (.of .object k)) :
    run (step n prefetch) s (List.replicate 4 (.work w false) ++ List.replicate 5 (.work w false)) =
      some (s.served n w k) := by
  have hclaim := PoolState.run_claim hworker hflag hready (by rw [hdequeue]; exact hfull)
  have hjob : run (PoolState.step n) (s.pool.claimed w) (List.replicate 5 (.work w false)) =
      some ((s.pool.claimed w).ran n w k .object k) :=
    PoolState.run_job (by simp [PoolState.claimed])
      (by simp [PoolState.claimed, QueueState.claimed, hdequeue]) hdata
  apply run_trans (run_work 4 hclaim)
  exact run_work (s := { s with pool := s.pool.claimed w }) 5 hjob

/-- The other worker serves the next job, and the broker learns of it. -/
theorem Stalled.succ (h : Stalled n w k s) (hpos : 0 < k) (hk : k < n.size)
    (hprefetch : 2 ≤ prefetch) :
    ∃ acts s', run (step n prefetch) s acts = some s' ∧ Stalled n w (k + 1) s' := by
  -- every earlier tag is settled, so the broker may deliver one more
  have hroom : s.unsettled < prefetch := by
    have hsettled := h.settled
    unfold unsettled
    rw [h.posted]
    omega
  have hcell : ∀ i, (s.queued n).pool.queue.queue.sequenceAt n i =
      if n.index i = n.index k then k + 1 else s.pool.queue.queue.sequenceAt n i := by
    intro i
    show (s.pool.queue.pushed n () _).queue.sequenceAt n i = _
    rw [QueueState.sequenceAt_pushed, h.enqueue]
  have hdata : (s.queued n).pool.queue.queue.dataAt n k = some (.of .object k) := by
    have hpushed := QueueState.dataAt_pushed n s.pool.queue () (.of .object s.pool.posted)
    rw [h.enqueue, h.posted] at hpushed
    simpa [queued, h.posted] using hpushed
  -- the round: delivery and post, the other worker takes and runs the job, and it is settled
  have hdeliver : run (step n prefetch) s (.deliver :: List.replicate 5 (.pushStep false)) =
      some (s.queued n) :=
    run_queued h.outside hroom (by rw [h.enqueue]; exact h.cells k (Nat.le_refl k) hk)
  have hserve : run (step n prefetch) (s.queued n)
      (List.replicate 4 (.work w false) ++ List.replicate 5 (.work w false)) =
      some ((s.queued n).served n w k) :=
    run_served h.worker h.running h.ready h.dequeue (by rw [hcell, if_pos rfl]) hdata
  have hnew : k ∉ s.settled := fun hmem => Nat.lt_irrefl k (h.fresh k hmem)
  have hsettle : step n prefetch ((s.queued n).served n w k) (.settle k) =
      some { (s.queued n).served n w k with settled := s.settled ++ [k] } := by
    simp [step, served, queued, PoolState.ran, PoolState.setHandler, PoolState.setWorker, hnew]
  refine ⟨_, _, run_trans hdeliver (run_trans hserve (run_cons_of hsettle)), ?_⟩
  -- the cells after the round: the one of `k` is passed on, all others are as before
  have hcells : ∀ i, i ≠ k → i < n.size →
      ((s.queued n).served n w k).pool.queue.queue.sequenceAt n i =
        s.pool.queue.queue.sequenceAt n i := by
    intro i hne hi
    show (((s.queued n).pool.queue.claimed w).released n w k).queue.sequenceAt n i = _
    rw [QueueState.sequenceAt_released, if_neg (by rwa [index_eq_iff hi hk])]
    show (s.queued n).pool.queue.queue.sequenceAt n i = _
    rw [hcell, if_neg (by rwa [index_eq_iff hi hk])]
  constructor
  · show s.pool.queue.queue.m_enqueue_pos + 1 = k + 1
    rw [h.enqueue]
  · show s.pool.queue.queue.m_dequeue_pos + 1 = k + 1
    rw [h.dequeue]
  · rfl
  · exact (hcells 0 (by omega) (by omega)).trans h.first
  · intro i hi hlt
    exact (hcells i (by omega) hlt).trans (h.cells i (by omega) hlt)
  · simp [served, PoolState.ran]
  · exact h.running
  · simp [served, PoolState.ran, PoolState.setWorker, PoolState.setHandler, QueueState.released,
      PopPc.outside]
  · show s.pool.posted + 1 = k + 1
    rw [h.posted]
  · have hsettled := h.settled
    simp only [List.length_append, List.length_singleton]
    omega
  · intro tag htag
    rcases List.mem_append.mp htag with hold | hlast
    · exact Nat.lt_succ_of_lt (h.fresh tag hold)
    · exact List.mem_singleton.mp hlast ▸ Nat.lt_succ_self k

/-- The second worker can go on until the enqueue position has come round. -/
theorem exists_stalled {w₀ w₁ : ω} (hw : w₁ ≠ w₀) (hprefetch : 2 ≤ prefetch) (k : Nat)
    (hk : k + 1 ≤ n.size) :
    ∃ acts s, run (step n prefetch) init acts = some s ∧ Stalled n w₁ (k + 1) s := by
  induction k with
  | zero => exact exists_stalled_one hw (by omega)
  | succ k ih =>
      obtain ⟨acts, s, hs, hstalled⟩ := ih (by omega)
      obtain ⟨acts', s', hs', hnext⟩ := hstalled.succ (by omega) hk hprefetch
      exact ⟨acts ++ acts', s', run_trans hs hs', hnext⟩

/-- **Two unsettled deliveries and two workers** are enough for a refusal. -/
theorem exists_refused_of_ne {w₀ w₁ : ω} (hw : w₁ ≠ w₀) (hprefetch : 2 ≤ prefetch) :
    ∃ acts, ∃ s : FlowState ω, run (step n prefetch) init acts = some s ∧ s.refused ≠ [] := by
  have hn := n.two_le
  obtain ⟨acts, s, hs, h⟩ := exists_stalled (n := n) hw hprefetch (n.size - 1) (by omega)
  rw [Nat.sub_add_cancel (by omega : 1 ≤ n.size)] at h
  have hcell : s.pool.queue.queue.sequenceAt n n.size = 1 := by
    rw [← h.first]
    exact MPMCBoundedQueue.sequenceAt_congr n s.pool.queue.queue n.index_size
  have hroom : s.unsettled < prefetch := by
    have hsettled := h.settled
    unfold unsettled
    rw [h.posted]
    omega
  obtain ⟨s', hrun, hrefused⟩ := run_refused h.outside hroom (by rw [h.enqueue, hcell]; omega)
  refine ⟨_, s', run_trans hs hrun, ?_⟩
  rw [hrefused]
  simp

/-! ## The exact condition -/

/-- The three numbers fit: one delivery at a time, or one worker and room for all of them. -/
def Fits (threads prefetch size : Nat) : Prop :=
  prefetch ≤ 1 ∨ threads = 1 ∧ prefetch ≤ size

/-- **No delivery is refused for lack of room exactly when the numbers fit**: for the prefetch count
that the configuration yields, the worker and cell counts that `main` derives from the machine, and
every run of the consumer, the workers and the broker. -/
theorem never_refused_iff (conf : AmqpConfig) (queueCount thdCount : Int) (n : QueueSize)
    (hsize : QueueSize.ofSize (mainOptions queueCount thdCount).queueSize = some n) :
    (∀ acts, ∀ s : FlowState (Fin (mainOptions queueCount thdCount).threadCount),
        run (step n (tryDefaultsAmqpTransport conf).prefetchCount) init acts = some s →
          s.refused = []) ↔
      Fits (mainOptions queueCount thdCount).threadCount
        (tryDefaultsAmqpTransport conf).prefetchCount (mainOptions queueCount thdCount).queueSize := by
  have hqueue := QueueSize.size_of_ofSize hsize
  constructor
  · intro hnever
    by_contra hfits
    simp only [Fits, not_or, not_and, Nat.not_le] at hfits
    obtain ⟨hprefetch, hthreads⟩ := hfits
    -- one thread overruns its queue by deliveries alone; two do it with one of them stalled in a pop
    by_cases hone : (mainOptions queueCount thdCount).threadCount = 1
    · have hroom : n.size < (tryDefaultsAmqpTransport conf).prefetchCount :=
        hqueue ▸ hthreads hone
      obtain ⟨acts, s, hs, hrefused⟩ :
          ∃ acts, ∃ s : FlowState (Fin (mainOptions queueCount thdCount).threadCount),
            run (step n _) init acts = some s ∧ s.refused ≠ [] := exists_refused_of_lt hroom
      exact hrefused (hnever acts s hs)
    · have hpos := threadCount_mainOptions_pos queueCount thdCount
      let w₀ : Fin (mainOptions queueCount thdCount).threadCount := ⟨0, by omega⟩
      let w₁ : Fin (mainOptions queueCount thdCount).threadCount := ⟨1, by omega⟩
      have hw : w₁ ≠ w₀ := by simp [w₀, w₁]
      obtain ⟨acts, s, hs, hrefused⟩ := exists_refused_of_ne hw hprefetch
      exact hrefused (hnever acts s hs)
  · intro hfits acts s hs
    have hfits' : (tryDefaultsAmqpTransport conf).prefetchCount ≤ 1 ∨
        Subsingleton (Fin (mainOptions queueCount thdCount).threadCount) ∧
          (tryDefaultsAmqpTransport conf).prefetchCount ≤ n.size := by
      rcases hfits with hprefetch | ⟨hone, hroom⟩
      · exact .inl hprefetch
      · refine .inr ⟨?_, hqueue ▸ hroom⟩
        rw [hone]
        infer_instance
    exact (run_invariant (inv_step hfits') (inv_init n _) hs).refused

/-- One compute queue and 32 cores: one worker, room for 32 jobs, and 20 deliveries at a time. -/
theorem never_refused_one_worker :
    ∃ n, QueueSize.ofSize (mainOptions 1 32).queueSize = some n ∧
      ∀ acts, ∀ s : FlowState (Fin (mainOptions 1 32).threadCount),
        run (step n (tryDefaultsAmqpTransport {}).prefetchCount) init acts = some s →
          s.refused = [] := by
  have hsize : QueueSize.ofSize (mainOptions 1 32).queueSize = some ⟨32, by decide⟩ := by decide
  exact ⟨_, hsize, (never_refused_iff {} 1 32 _ hsize).mpr (.inr (by decide))⟩

/-- Two compute queues and four cores: the fifth of the 20 deliveries finds the queue full. -/
theorem fifth_delivery_refused :
    ∃ n, QueueSize.ofSize (mainOptions 2 4).queueSize = some n ∧
      ∃ acts, ∃ s : FlowState (Fin (mainOptions 2 4).threadCount),
        run (step n (tryDefaultsAmqpTransport {}).prefetchCount) init acts = some s ∧
          s.refused = [4] := by
  have hsize : QueueSize.ofSize (mainOptions 2 4).queueSize = some ⟨4, by decide⟩ := by decide
  refine ⟨_, hsize, ?_⟩
  let delivery : List (FlowAction (Fin (mainOptions 2 4).threadCount)) :=
    .deliver :: List.replicate 5 (.pushStep false)
  have hrun : (run (step ⟨4, by decide⟩ (tryDefaultsAmqpTransport {}).prefetchCount) init
      ((List.replicate 4 delivery).flatten ++
        .deliver :: List.replicate 2 (.pushStep false))).map refused = some [4] := by
    rfl
  obtain ⟨s, hs, hrefused⟩ := Option.map_eq_some_iff.mp hrun
  exact ⟨_, s, hs, hrefused⟩

end FlowState

end LimbWorker.AppTransport
