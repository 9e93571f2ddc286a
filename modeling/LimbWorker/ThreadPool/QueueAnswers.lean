import LimbWorker.ThreadPool.QueueLog

/-!
# What the queue answers

`push` and `pop` look at positions and cells one after the other, and by the time they return what they saw may be out
of date. `linearizes` says at which moment it was true: the queue is a bounded first-in first-out queue whose entries
come when a producer has taken its position and go when a consumer has, and `push` and `pop` return false for what was
the case at one of their own steps.
-/

namespace LimbWorker.ThreadPool

open Lib

/-! ## The abstract queue -/

/-- What happens to a first-in first-out queue. -/
inductive FifoEvent (T : Type) where
  | put (data : T)
  | take
  deriving DecidableEq, Repr

namespace FifoEvent

variable {T : Type}

/-- What is in a queue of the given size after an event. -/
def step (size : Nat) (content : List T) : FifoEvent T → Option (List T)
  | .put data => if content.length < size then some (content ++ [data]) else none
  | .take => if content ≠ [] then some content.tail else none

/-- What is taken. -/
def taken (content : List T) : FifoEvent T → List T
  | .put _ => []
  | .take => content.head?.toList

end FifoEvent

/-- An entry comes with its position, and goes with the position of a consumer. -/
def QueueEvent.fifo {π κ T : Type} : QueueEvent π κ T → Option (FifoEvent T)
  | .accepted _ _ data => some (.put data)
  | .claimed _ _ => some .take
  | _ => none

namespace QueueState

variable {π κ T : Type} {n : QueueSize} {s s' : QueueState π κ T} {p : π} {c : κ}

/-- What was accepted and not taken yet. -/
def waiting (s : QueueState π κ T) : List T := s.accepted.drop s.queue.m_dequeue_pos

/-- What was taken. -/
def taken (s : QueueState π κ T) : List T := s.accepted.take s.queue.m_dequeue_pos

/-- Nothing waits, or the producer of the first one has not returned yet. -/
def NothingToTake (s : QueueState π κ T) : Prop :=
  s.waiting = [] ∨ ∃ p, (s.push p).ticket = some s.queue.m_dequeue_pos

/-- As many wait as there are cells, or the consumer of what was in the next cell has not returned yet. -/
def NoRoom (n : QueueSize) (s : QueueState π κ T) : Prop :=
  s.waiting.length = n.size ∨ ∃ c t, (s.pop c).ticket = some t ∧ t + n.size = s.queue.m_enqueue_pos

theorem Inv.length_waiting (h : Inv n s) :
    s.waiting.length = s.queue.m_enqueue_pos - s.queue.m_dequeue_pos := by
  rw [waiting, List.length_drop, h.length]

/-- Between the two ends of a queue length there is a position for every cell. -/
theorem exists_index_eq (n : QueueSize) {pos D : Nat} (h : pos < D) :
    ∃ w, n.index w = n.index pos ∧ D ≤ w ∧ w < D + n.size ∧ pos + n.size ≤ w := by
  have hn := n.two_le
  -- the first one from there on
  have hdiv := Nat.div_add_mod (D - 1 - pos) n.size
  have hmod := Nat.mod_lt (D - 1 - pos) (show 0 < n.size by omega)
  refine ⟨pos + n.size * ((D - 1 - pos) / n.size + 1), ?_, ?_⟩
  · rw [n.index_eq_mod, n.index_eq_mod, Nat.add_mul_mod_self_left]
  · rw [Nat.mul_add, Nat.mul_one]
    omega

/-- A position before the dequeue position is behind its cell. -/
theorem Inv.lt_sequenceAt (h : Inv n s) {pos : Nat} (hpos : pos < s.queue.m_dequeue_pos) :
    pos < s.queue.sequenceAt n pos := by
  have hn := n.two_le
  obtain ⟨w, hindex, hlow, hhigh, hfar⟩ := exists_index_eq n hpos
  rw [← s.queue.sequenceAt_congr n hindex]
  by_cases hw : w < s.queue.m_enqueue_pos
  · rcases h.inner w hlow hw with ⟨hseq, -⟩ | ⟨hseq, -⟩
    · omega
    · omega
  · rcases h.outer w (by omega) hhigh with hseq | ⟨t, c, ht, hseq, -⟩
    · omega
    · omega

/-- A position before the enqueue position is not ahead of its cell. -/
theorem Inv.le_sequenceAt (h : Inv n s) {pos : Nat} (hpos : pos < s.queue.m_enqueue_pos) :
    pos ≤ s.queue.sequenceAt n pos := by
  by_cases hlow : s.queue.m_dequeue_pos ≤ pos
  · rcases h.inner pos hlow hpos with ⟨hseq, -⟩ | ⟨hseq, -⟩
    · exact Nat.le_of_eq hseq.symm
    · omega
  · exact Nat.le_of_lt (h.lt_sequenceAt (by omega))

/-- In a full queue the cell of the enqueue position is behind. -/
theorem Inv.sequenceAt_enqueue_lt (h : Inv n s) (hfull : s.queue.m_enqueue_pos = s.queue.m_dequeue_pos + n.size) :
    s.queue.sequenceAt n s.queue.m_enqueue_pos < s.queue.m_enqueue_pos := by
  have hn := n.two_le
  rw [hfull, s.queue.sequenceAt_congr n (n.index_add_size s.queue.m_dequeue_pos)]
  rcases h.inner s.queue.m_dequeue_pos (Nat.le_refl _) (by omega) with ⟨hseq, -⟩ | ⟨hseq, -⟩
  · omega
  · omega

/-- The cell of the enqueue position is not ahead of it. -/
theorem Inv.sequenceAt_enqueue_le (h : Inv n s) :
    s.queue.sequenceAt n s.queue.m_enqueue_pos ≤ s.queue.m_enqueue_pos := by
  have hbounds := h.bounds
  by_cases hfull : s.queue.m_enqueue_pos < s.queue.m_dequeue_pos + n.size
  · have hn := n.two_le
    rcases h.outer _ (Nat.le_refl _) hfull with hseq | ⟨t, c, ht, hseq, -⟩
    · exact Nat.le_of_eq hseq
    · omega
  · exact Nat.le_of_lt (h.sequenceAt_enqueue_lt (by omega))

/-- The cell of the dequeue position is at most one ahead of it. -/
theorem Inv.sequenceAt_dequeue_le (h : Inv n s) :
    s.queue.sequenceAt n s.queue.m_dequeue_pos ≤ s.queue.m_dequeue_pos + 1 := by
  by_cases hsome : s.queue.m_dequeue_pos < s.queue.m_enqueue_pos
  · rcases h.inner _ (Nat.le_refl _) hsome with ⟨hseq, -⟩ | ⟨hseq, -⟩
    · omega
    · omega
  · have hbounds := h.bounds
    have hE : s.queue.m_enqueue_pos = s.queue.m_dequeue_pos := by omega
    have hle := h.sequenceAt_enqueue_le
    rw [hE] at hle
    omega

/-- A cell that a consumer finds behind its position. -/
theorem Inv.nothingToTake (h : Inv n s) {pos : Nat} (hpos : pos ≤ s.queue.m_dequeue_pos)
    (hbehind : s.queue.sequenceAt n pos < pos + 1) : NothingToTake s := by
  have hbounds := h.bounds
  have heq : pos = s.queue.m_dequeue_pos := by
    by_contra hne
    have hlt := h.lt_sequenceAt (show pos < s.queue.m_dequeue_pos by omega)
    omega
  subst heq
  by_cases hsome : s.queue.m_dequeue_pos < s.queue.m_enqueue_pos
  · rcases h.inner _ (Nat.le_refl _) hsome with ⟨-, hticket⟩ | ⟨hseq, -⟩
    · exact .inr hticket
    · omega
  · refine .inl (List.length_eq_zero_iff.mp ?_)
    rw [h.length_waiting]
    omega

/-- A cell that a producer finds behind its position. -/
theorem Inv.noRoom (h : Inv n s) {pos : Nat} (hpos : pos ≤ s.queue.m_enqueue_pos)
    (hbehind : s.queue.sequenceAt n pos < pos) : NoRoom n s := by
  have hbounds := h.bounds
  have heq : pos = s.queue.m_enqueue_pos := by
    by_contra hne
    have hle := h.le_sequenceAt (show pos < s.queue.m_enqueue_pos by omega)
    omega
  subst heq
  by_cases hfull : s.queue.m_enqueue_pos < s.queue.m_dequeue_pos + n.size
  · rcases h.outer _ (Nat.le_refl _) hfull with hseq | ⟨t, c, ht, -, hticket⟩
    · omega
    · exact .inr ⟨c, t, hticket, ht.symm⟩
  · refine .inl ?_
    rw [h.length_waiting]
    omega

section Steps

variable [DecidableEq π] [DecidableEq κ] {act : QueueAction π κ T}

/-- Only a producer itself changes where it is. -/
theorem push_step_of_ne (hs : s.step n act = some s') (hcall : ∀ data, act ≠ .push p data)
    (hstep : ∀ spurious, act ≠ .pushStep p spurious) : s'.push p = s.push p := by
  cases act with
  | push p' data =>
      have hp : p ≠ p' := fun heq => hcall data (by rw [heq])
      obtain ⟨-, hs⟩ := Option.ite_none_right_eq_some.mp hs
      cases hs
      rw [push_setPush, if_neg hp]
  | pushStep p' spurious =>
      have hp : p ≠ p' := fun heq => hstep spurious (by rw [heq])
      have hmove := pushMove hs
      generalize note n s (.pushStep p' spurious) = es at hmove
      cases hmove <;> simp [hp]
  | pop c =>
      obtain ⟨-, hs⟩ := Option.ite_none_right_eq_some.mp hs
      cases hs
      rfl
  | popStep c spurious =>
      have hmove := popMove hs
      generalize note n s (.popStep c spurious) = es at hmove
      cases hmove <;> rfl

/-- Only a consumer itself changes where it is. -/
theorem pop_step_of_ne (hs : s.step n act = some s') (hcall : act ≠ .pop c)
    (hstep : ∀ spurious, act ≠ .popStep c spurious) : s'.pop c = s.pop c := by
  cases act with
  | push p data =>
      obtain ⟨-, hs⟩ := Option.ite_none_right_eq_some.mp hs
      cases hs
      rfl
  | pushStep p spurious =>
      have hmove := pushMove hs
      generalize note n s (.pushStep p spurious) = es at hmove
      cases hmove <;> rfl
  | pop c' =>
      have hc : c ≠ c' := fun heq => hcall (by rw [heq])
      obtain ⟨-, hs⟩ := Option.ite_none_right_eq_some.mp hs
      cases hs
      rw [pop_setPop, if_neg hc]
  | popStep c' spurious =>
      have hc : c ≠ c' := fun heq => hstep spurious (by rw [heq])
      have hmove := popMove hs
      generalize note n s (.popStep c' spurious) = es at hmove
      cases hmove <;> simp [hc]

/-- `pop` returns false after it has found the cell of its position behind. -/
theorem empty_cases (hs : s.step n act = some s') (hempty : s'.pop c = .empty) :
    s.pop c = .empty ∨ ∃ pos, s.pop c = .sequence pos ∧ s.queue.sequenceAt n pos < pos + 1 := by
  by_cases hcall : act = .pop c
  · subst hcall
    obtain ⟨-, hs⟩ := Option.ite_none_right_eq_some.mp hs
    cases hs
    simp at hempty
  by_cases hstep : ∃ spurious, act = .popStep c spurious
  · obtain ⟨spurious, rfl⟩ := hstep
    simp only [step, popStep] at hs
    split at hs
    · cases hs
      simp at hempty
    · next pos hpc =>
      -- the only step to `empty` is the one that finds the cell behind
      refine .inr ⟨pos, hpc, ?_⟩
      have hcell : s.queue.sequenceAt n pos = (s.queue.cell n pos).sequence := rfl
      split at hs
      · cases hs
        simp at hempty
      · split at hs
        · omega
        · cases hs
          simp at hempty
    · split at hs
      · cases hs
        simp at hempty
      · cases hs
        simp at hempty
    · cases hs
      simp at hempty
    · cases hs
      simp at hempty
    · cases hs
  · rw [← pop_step_of_ne hs hcall fun spurious heq => hstep ⟨spurious, heq⟩]
    exact .inl hempty

/-- `push` returns false after it has found the cell of its position behind. -/
theorem full_cases {data : T} (hs : s.step n act = some s') (hfull : s'.push p = .full data) :
    s.push p = .full data ∨ ∃ pos, s.push p = .sequence data pos ∧ s.queue.sequenceAt n pos < pos := by
  by_cases hcall : ∃ data, act = .push p data
  · obtain ⟨data', rfl⟩ := hcall
    obtain ⟨-, hs⟩ := Option.ite_none_right_eq_some.mp hs
    cases hs
    simp at hfull
  by_cases hstep : ∃ spurious, act = .pushStep p spurious
  · obtain ⟨spurious, rfl⟩ := hstep
    have hmove := pushMove hs
    generalize note n s (.pushStep p spurious) = es at hmove
    cases hmove with
    | onward data' pc hold hnew =>
        rw [push_setPush, if_pos rfl] at hfull
        rw [hfull] at hnew
        cases hnew
    -- the only step to `full` is the one that finds the cell behind
    | refuse data' pos hpc hbehind =>
        rw [push_setPush, if_pos rfl] at hfull
        cases hfull
        exact .inr ⟨pos, hpc, hbehind⟩
    | accept data' hpc => simp at hfull
    | store data' pos hpc => simp at hfull
    | post pos hpc => simp at hfull
  · rw [← push_step_of_ne hs (fun data' heq => hcall ⟨data', heq⟩) fun spurious heq => hstep ⟨spurious, heq⟩]
    exact .inl hfull

/-- A step that decides that `push` or `pop` returns false is right at that moment. -/
def AnswersTruly (n : QueueSize) (s : QueueState π κ T) (act : QueueAction π κ T) : Prop :=
  ∀ s', s.step n act = some s' →
    (∀ c, s'.pop c = .empty → s.pop c = .empty ∨ NothingToTake s) ∧
      ∀ p data, s'.push p = .full data → s.push p = .full data ∨ NoRoom n s

theorem Inv.answersTruly (h : Inv n s) (act : QueueAction π κ T) : AnswersTruly n s act := by
  intro s' hs
  refine ⟨fun c hempty => ?_, fun p data hfull => ?_⟩
  · refine (empty_cases hs hempty).imp_right fun ⟨pos, hpc, hbehind⟩ => ?_
    have hok := h.pop c
    rw [hpc] at hok
    exact h.nothingToTake hok hbehind
  · refine (full_cases hs hfull).imp_right fun ⟨pos, hpc, hbehind⟩ => ?_
    have hok := h.push p
    rw [hpc] at hok
    exact h.noRoom hok hbehind

omit [DecidableEq π] [DecidableEq κ] in
/-- A position that a producer takes makes the queue longer at its end. -/
theorem Inv.run_put (h : Inv n s) {data : T} (hpc : s.push p = .exchange data s.queue.m_enqueue_pos) :
    run (logged (FifoEvent.step n.size) FifoEvent.taken) (s.waiting, s.taken) [.put data] =
      some ((s.accepted ++ [data]).drop s.queue.m_dequeue_pos, (s.accepted ++ [data]).take s.queue.m_dequeue_pos) := by
  have hle : s.queue.m_dequeue_pos ≤ s.accepted.length := by
    rw [h.length]
    exact h.bounds.1
  have hroom : s.waiting.length < n.size := by
    have hbounds := h.bounds
    have hok := h.push p
    rw [hpc] at hok
    rw [h.length_waiting]
    by_contra hfull
    have hlt := h.sequenceAt_enqueue_lt (by omega)
    have hseq := hok.2 rfl
    omega
  rw [List.drop_append_of_le_length hle, List.take_append_of_le_length hle]
  refine run_cons_of ?_
  rw [logged, FifoEvent.step, if_pos hroom, Option.map_some, FifoEvent.taken, List.append_nil]
  rfl

omit [DecidableEq π] [DecidableEq κ] in
/-- One that a consumer takes removes the first entry. -/
theorem Inv.run_take (h : Inv n s) (hpc : s.pop c = .exchange s.queue.m_dequeue_pos) :
    run (logged (FifoEvent.step n.size) FifoEvent.taken) (s.waiting, s.taken) [.take] =
      some (s.accepted.drop (s.queue.m_dequeue_pos + 1), s.accepted.take (s.queue.m_dequeue_pos + 1)) := by
  have hok := h.pop c
  rw [hpc] at hok
  have hlt : s.queue.m_dequeue_pos < s.accepted.length := by
    rw [h.length]
    exact (h.dequeue_full (hok.2 rfl)).1
  have hwaiting : s.waiting = s.accepted[s.queue.m_dequeue_pos] :: s.accepted.drop (s.queue.m_dequeue_pos + 1) :=
    List.drop_eq_getElem_cons hlt
  refine run_cons_of ?_
  rw [logged, FifoEvent.step, hwaiting, if_pos (List.cons_ne_nil _ _), Option.map_some, FifoEvent.taken, List.tail_cons,
    List.head?_cons, Option.toList_some, taken, List.take_append_getElem]

/-- **A step** of the queue is what happens to the abstract one. -/
theorem run_fifo_step (h : Inv n s) (hs : s.step n act = some s') :
    run (logged (FifoEvent.step n.size) FifoEvent.taken) (s.waiting, s.taken)
      ((note n s act).filterMap QueueEvent.fifo) = some (s'.waiting, s'.taken) := by
  cases act with
  | push p data =>
      obtain ⟨-, hs⟩ := Option.ite_none_right_eq_some.mp hs
      cases hs
      rfl
  | pushStep p spurious =>
      have hmove := pushMove hs
      generalize note n s (.pushStep p spurious) = es at hmove
      cases hmove with
      | onward data pc hold hnew => rfl
      | refuse data pos hpc hbehind => rfl
      -- the exchanges are the points where the abstract queue takes its step
      | accept data hpc => exact h.run_put hpc
      | store data pos hpc => rfl
      | post pos hpc => rfl
  | pop c =>
      obtain ⟨-, hs⟩ := Option.ite_none_right_eq_some.mp hs
      cases hs
      rfl
  | popStep c spurious =>
      have hmove := popMove hs
      generalize note n s (.popStep c spurious) = es at hmove
      cases hmove with
      | onward pc hold hnew => rfl
      | claim hpc => exact h.run_take hpc
      | move pos hpc => rfl
      | release pos data hpc => rfl

/-- **The queue is a bounded first-in first-out queue**: in every interleaving, entries come when a producer takes a
position, while there is room, and go in order when a consumer takes one; what `pop` returns is what went with its
position; and whenever `push` or `pop` returns false, then because at one of its own steps there was no room, or
nothing to take, apart from what was on its way in or out. -/
theorem linearizes (n : QueueSize) {acts : List (QueueAction π κ T)} {log : List (QueueEvent π κ T)}
    (h : run (logged (step n) (note n)) (init, []) acts = some (s, log)) :
    run (logged (FifoEvent.step n.size) FifoEvent.taken) ([], []) (log.filterMap QueueEvent.fifo) =
        some (s.waiting, s.taken) ∧
      (∀ c pos data, s.pop c = .popped pos data → data = s.taken[pos]?) ∧
      Guarded (step n) (AnswersTruly n) init acts := by
  -- the abstract queue and the real one go side by side
  have hend := run_invariant
    (I := fun p : QueueState π κ T × List (QueueEvent π κ T) => Inv n p.1 ∧
      run (logged (FifoEvent.step n.size) FifoEvent.taken) ([], []) (p.2.filterMap QueueEvent.fifo) =
        some (p.1.waiting, p.1.taken))
    (by
      rintro ⟨s, log⟩ act ⟨s', log'⟩ ⟨hinv, hfifo⟩ hs
      obtain ⟨hs₁, rfl⟩ := logged_eq_some hs
      refine ⟨inv_step s act s' hinv hs₁, ?_⟩
      rw [List.filterMap_append]
      exact run_trans hfifo (run_fifo_step hinv hs₁))
    ⟨inv_init n, rfl⟩ h
  refine ⟨hend.2, fun c pos data hpc => ?_, ?_⟩
  · have hok := hend.1.pop c
    rw [hpc] at hok
    rw [taken, List.getElem?_take_of_lt hok.1]
    exact hok.2
  · exact guarded_of_invariant (I := Inv n) (K := fun _ => True) (fun s act hinv _ => hinv.answersTruly act)
      (fun s act s' hinv _ hs => inv_step s act s' hinv hs) (inv_init n) fun _ _ => trivial

end Steps

/-- A consumer that comes too early and again, and a producer in between. -/
def tooEarly : List (QueueAction Unit Unit Nat) :=
  .pop () :: List.replicate 2 (.popStep () false) ++ .push () 7 :: List.replicate 5 (.pushStep () false) ++
    .pop () :: List.replicate 5 (.popStep () false)

theorem tooEarly_linearizes : ∃ s log, run (logged (step ⟨2, by decide⟩) (note ⟨2, by decide⟩)) (init, []) tooEarly =
      some (s, log) ∧
    run (logged (FifoEvent.step 2) FifoEvent.taken) ([], []) (log.filterMap QueueEvent.fifo) =
        some (s.waiting, s.taken) ∧
      (∀ c pos data, s.pop c = .popped pos data → data = s.taken[pos]?) ∧
      Guarded (step ⟨2, by decide⟩) (AnswersTruly ⟨2, by decide⟩) init tooEarly :=
  ⟨_, _, rfl, linearizes ⟨2, by decide⟩ rfl⟩

end QueueState

end LimbWorker.ThreadPool
