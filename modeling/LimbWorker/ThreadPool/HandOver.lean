import LimbWorker.ThreadPool.QueueLog

/-!
# Job hand-over

What the queue is for: every handler that `tryPost` accepted reaches one worker, in the order in which the
tickets were handed out, and a handler that it refused stays with its owner. `tryPost` returns what
`push` returns, so `posted` in the log is a `tryPost` that returned true and `refused` one that returned
false.

Between the operations the queue is a plain bounded queue: its content can be read off the cells, it is
what the log says was accepted and not taken out, and a `tryPost` on its own fails just when it is full.
-/

namespace LimbWorker.ThreadPool

open Lib

/-- The data in the cells from the dequeue to the enqueue position. -/
def MPMCBoundedQueue.content {T : Type} (n : QueueSize) (q : MPMCBoundedQueue T) : List (Option T) :=
  (List.range (q.m_enqueue_pos - q.m_dequeue_pos)).map fun i => q.dataAt n (q.m_dequeue_pos + i)

/-- The handlers whose `tryPost` returned true and which were not moved out, in the order of their
tickets. -/
def QueueEvent.waiting {π κ T : Type} (log : List (QueueEvent π κ T)) : List T :=
  ((log.filterMap acceptance).filter fun x =>
    x.2 ∈ log.filterMap postedTicket ∧ x.2 ∉ log.filterMap movedTicket).map Prod.fst

/-- The handler that is still the caller's: nothing was moved out of it. -/
def PushPc.handler {T : Type} : PushPc T → Option T
  | .load data | .sequence data _ | .exchange data _ | .full data => some data
  | _ => none

namespace QueueState

variable {π κ T : Type} {n : QueueSize} {s s' : QueueState π κ T}
  {log : List (QueueEvent π κ T)}

/-- No operation is in progress. -/
def Quiet (s : QueueState π κ T) : Prop := (∀ p, (s.push p).outside) ∧ ∀ c, (s.pop c).outside

/-! ## Between the operations -/

theorem ticket_of_outside {pc : PushPc T} (h : pc.outside) : pc.ticket = none := by
  cases pc <;> first | rfl | cases h

theorem not_read_of_outside {pc : PopPc T} (h : pc.outside) (t : Nat) : pc ≠ .read t := by
  rintro rfl
  cases h

theorem pop_ticket_of_outside {pc : PopPc T} (h : pc.outside) : pc.ticket = none := by
  cases pc <;> first | rfl | cases h

/-- Then the cells between the two positions are full. -/
theorem Inv.full_of_quiet (h : Inv n s) (hquiet : s.Quiet) {w : Nat}
    (hD : s.queue.m_dequeue_pos ≤ w) (hE : w < s.queue.m_enqueue_pos) :
    s.queue.sequenceAt n w = w + 1 ∧ s.queue.dataAt n w = s.accepted[w]? := by
  rcases h.inner w hD hE with ⟨-, p, hp⟩ | hfull
  · rw [ticket_of_outside (hquiet.1 p)] at hp
    cases hp
  · exact hfull

/-- Then the cells beyond the enqueue position are free. -/
theorem Inv.free_of_quiet (h : Inv n s) (hquiet : s.Quiet) {w : Nat}
    (hE : s.queue.m_enqueue_pos ≤ w) (hD : w < s.queue.m_dequeue_pos + n.size) :
    s.queue.sequenceAt n w = w := by
  rcases h.outer w hE hD with hfree | ⟨t, c, -, -, hc⟩
  · exact hfree
  · rw [pop_ticket_of_outside (hquiet.2 c)] at hc
    cases hc

/-- Then the content is what was accepted after the tickets that were taken. -/
theorem Inv.content_of_quiet (h : Inv n s) (hquiet : s.Quiet) :
    s.queue.content n = (s.accepted.drop s.queue.m_dequeue_pos).map some := by
  have hlength := h.length
  apply List.ext_getElem
  · simp [MPMCBoundedQueue.content, hlength]
  · intro i hi hi'
    have hlt : s.queue.m_dequeue_pos + i < s.queue.m_enqueue_pos := by
      simp only [MPMCBoundedQueue.content, List.length_map, List.length_range] at hi
      omega
    have hdata := (h.full_of_quiet hquiet (Nat.le_add_right _ i) hlt).2
    rw [List.getElem?_eq_getElem (by omega)] at hdata
    simpa [MPMCBoundedQueue.content] using hdata

/-- Then the tickets that were moved out are those before the dequeue position. -/
theorem Recorded.moved_of_quiet (h : Recorded n s log) (hquiet : s.Quiet) (t : Nat) :
    t ∈ log.filterMap QueueEvent.movedTicket ↔ t < s.queue.m_dequeue_pos := by
  rw [h.moved]
  exact and_iff_left fun c => not_read_of_outside (hquiet.2 c) t

/-- Then every accepted ticket was posted. -/
theorem Recorded.posted_of_quiet (h : Recorded n s log) (hquiet : s.Quiet) {t : Nat}
    (ht : t < s.queue.m_enqueue_pos) : t ∈ log.filterMap QueueEvent.postedTicket := by
  rcases h.posted t ht with ⟨p, hp⟩ | ⟨p, data, hsub⟩
  · rw [ticket_of_outside (hquiet.1 p)] at hp
    cases hp
  · exact List.mem_filterMap.mpr ⟨.posted p t, hsub.subset (by simp), rfl⟩

/-- Numbered values from a number on. -/
theorem filter_zipIdx_le {α : Type} (l : List α) (k d : Nat) :
    ((l.zipIdx k).filter fun x => decide (k + d ≤ x.2)).map Prod.fst = l.drop d := by
  induction l generalizing k d with
  | nil => simp
  | cons a l ih =>
      cases d with
      | zero =>
          have hall : ((a :: l).zipIdx k).filter (fun x => decide (k + 0 ≤ x.2)) =
              (a :: l).zipIdx k :=
            List.filter_eq_self.mpr fun x hx => by
              simpa using (List.mem_zipIdx hx).1
          rw [hall]
          simp
      | succ d =>
          rw [List.zipIdx_cons, List.filter_cons_of_neg (by simp)]
          have hnext := ih (k + 1) d
          rw [Nat.add_right_comm] at hnext
          exact hnext

/-- **The log tells the content.** -/
theorem Recorded.content_of_quiet (h : Recorded n s log) (hquiet : s.Quiet) :
    s.queue.content n = (QueueEvent.waiting log).map some := by
  rw [h.inv.content_of_quiet hquiet]
  congr 1
  unfold QueueEvent.waiting
  rw [h.acceptances]
  calc s.accepted.drop s.queue.m_dequeue_pos
      = (s.accepted.zipIdx.filter fun x => decide (0 + s.queue.m_dequeue_pos ≤ x.2)).map Prod.fst :=
        (filter_zipIdx_le s.accepted 0 s.queue.m_dequeue_pos).symm
    _ = _ := by
        congr 1
        apply List.filter_congr
        intro x hx
        have hlt : x.2 < s.queue.m_enqueue_pos := by
          have hx := List.snd_lt_of_mem_zipIdx hx
          have hlength := h.inv.length
          omega
        simp [h.posted_of_quiet hquiet hlt, h.moved_of_quiet hquiet]

section Steps

variable [DecidableEq π] [DecidableEq κ]

/-! ## Refused handlers -/

/-- A step of `p` changes nothing but where `p` is. -/
def LeavesQueue (n : QueueSize) (p : π) (s : QueueState π κ T) (act : QueueAction π κ T) : Prop :=
  ∀ spurious, act = .pushStep p spurious → ∀ s', s.step n act = some s' → ∃ pc, s' = s.setPush p pc

/-- A step inside `push` after which the handler is the caller's. -/
theorem handler_of_step {p : π} {act : QueueAction π κ T} {data : T}
    (hs : s.step n act = some s') (hcall : ∀ data', act ≠ .push p data')
    (hkept : (s'.push p).handler = some data) :
    (s.push p).handler = some data ∧ LeavesQueue n p s act := by
  cases act with
  | push p' data' =>
      have hne : p ≠ p' := by
        rintro rfl
        exact hcall data' rfl
      simp only [step] at hs
      split at hs
      · cases hs
        rw [push_setPush, if_neg hne] at hkept
        exact ⟨hkept, fun _ hact => by cases hact⟩
      · cases hs
  | pop c =>
      simp only [step] at hs
      split at hs
      · cases hs
        exact ⟨hkept, fun _ hact => by cases hact⟩
      · cases hs
  | popStep c spurious =>
      rw [(popStep_effect hs).1] at hkept
      exact ⟨hkept, fun _ hact => by cases hact⟩
  | pushStep p' spurious =>
      have hmove := pushMove hs
      by_cases hne : p = p'
      · subst hne
        -- of the five moves only the first two leave the caller the handler
        generalize note n s (.pushStep p spurious) = es at hmove
        cases hmove with
        | onward data' pc hold hnew =>
            have heq : data' = data := by
              cases pc <;> simp_all [PushPc.value, PushPc.handler]
            refine ⟨?_, fun _ _ s' hs' => ?_⟩
            · cases hpc : s.push p <;> simp_all [PushPc.value, PushPc.handler]
            · rw [hs] at hs'
              cases hs'
              exact ⟨pc, rfl⟩
        | refuse data' pos hpc hbehind =>
            refine ⟨?_, fun _ _ s' hs' => ?_⟩
            · rw [hpc]
              simpa [PushPc.handler] using hkept
            · rw [hs] at hs'
              cases hs'
              exact ⟨.full data', rfl⟩
        | accept data' hpc => simp [PushPc.handler] at hkept
        | store data' pos hpc => simp [PushPc.handler] at hkept
        | post pos hpc => simp [PushPc.handler] at hkept
      · rw [(pushStep_effect hs).2.2.1 p hne] at hkept
        exact ⟨hkept, fun _ hact => by cases hact; exact absurd rfl hne⟩

/-- If the handler is the caller's at some moment of a call, it has been all along, and the steps of the
call have left the queue alone. -/
theorem handler_of_run {p : π} {acts : List (QueueAction π κ T)} {data : T}
    (hrun : run (step n) s acts = some s') (hcall : ∀ data', .push p data' ∉ acts)
    (hkept : (s'.push p).handler = some data) :
    (s.push p).handler = some data ∧ Guarded (step n) (LeavesQueue n p) s acts := by
  induction acts generalizing s with
  | nil =>
      cases hrun
      exact ⟨hkept, trivial⟩
  | cons act acts ih =>
      obtain ⟨s₁, h₁, h₂⟩ := run_cons_eq_some hrun
      obtain ⟨hkept₁, hguarded⟩ := ih h₂ fun data' hmem => hcall data' (List.mem_cons_of_mem _ hmem)
      have hnot : ∀ data', act ≠ .push p data' := by
        rintro data' rfl
        exact hcall data' List.mem_cons_self
      obtain ⟨hold, hleaves⟩ := handler_of_step h₁ hnot hkept₁
      exact ⟨hold, (guarded_cons h₁).mpr ⟨hleaves, hguarded⟩⟩

/-- **A refused handler was never touched**, and neither was the queue. -/
theorem refused_of_run {p : π} {before during : List (QueueAction π κ T)} {data data' : T}
    (hrun : run (step n) s (before ++ .push p data :: during) = some s')
    (hcall : ∀ data'', .push p data'' ∉ during) (hfull : s'.push p = .full data') :
    data' = data ∧ ∀ s₀, run (step n) s before = some s₀ →
      Guarded (step n) (LeavesQueue n p) s₀ (.push p data :: during) := by
  rw [run_append] at hrun
  obtain ⟨s₀, h₀, hrest⟩ := Option.bind_eq_some_iff.mp hrun
  obtain ⟨s₁, h₁, h₂⟩ := run_cons_eq_some hrest
  have hback : (s'.push p).handler = some data' := by rw [hfull]; rfl
  obtain ⟨hkept, hguarded⟩ := handler_of_run h₂ hcall hback
  constructor
  · have hstep := h₁
    simp only [step] at hstep
    split at hstep
    · cases hstep
      rw [push_setPush, if_pos rfl] at hkept
      cases hkept
      rfl
    · cases hstep
  · intro s₀' h₀'
    rw [h₀] at h₀'
    cases h₀'
    exact (guarded_cons h₁).mpr ⟨(fun _ hact => by cases hact), hguarded⟩

/-! ## A `tryPost` on its own -/

/-- The run of one `tryPost` that nobody interrupts, with the compare-exchanges that fail spuriously. -/
def alone (p : π) (data : T) (spurious : List Bool) : List (QueueAction π κ T) :=
  .push p data :: spurious.map (.pushStep p)

/-- A `tryPost` on its own can return, and when it does, in this way. -/
def ReturnsAlone (n : QueueSize) (s : QueueState π κ T) (p : π) (data : T) (result : PushPc T) : Prop :=
  (∃ spurious s', run (step n) s (alone p data spurious) = some s' ∧ (s'.push p).outside) ∧
    ∀ spurious s', run (step n) s (alone p data spurious) = some s' → (s'.push p).outside →
      s'.push p = result

/-- An invariant of the steps of `p` holds when its `tryPost` is over. -/
theorem alone_invariant {I : QueueState π κ T → Prop} {p : π} {data : T} {spurious : List Bool}
    (hbegin : I (s.setPush p (.load data)))
    (hstep : ∀ s spurious s', I s → s.pushStep n p spurious = some s' → I s')
    (hrun : run (step n) s (alone p data spurious) = some s') : I s' := by
  obtain ⟨s₁, h₁, h₂⟩ := run_cons_eq_some hrun
  rw [run_map] at h₂
  have hs₁ : s₁ = s.setPush p (.load data) := by
    simp only [step] at h₁
    split at h₁
    · cases h₁
      rfl
    · cases h₁
  subst hs₁
  exact run_invariant hstep hbegin h₂

/-- Where the next cell is still full, it is refused. -/
theorem returnsAlone_full {p : π} {data : T} (hout : (s.push p).outside)
    (hbehind : s.queue.sequenceAt n s.queue.m_enqueue_pos < s.queue.m_enqueue_pos) :
    ReturnsAlone n s p data (.full data) := by
  constructor
  · -- two steps: the position, and the cell that is not free yet
    let s₁ : QueueState π κ T := s.setPush p (.sequence data s.queue.m_enqueue_pos)
    have hlast : s₁.pushStep n p false = some (s₁.setPush p (.full data)) :=
      pushStep_behind n s₁ (by simp [s₁]) hbehind
    refine ⟨[false, false], s₁.setPush p (.full data), ?_, by simp [PushPc.outside]⟩
    have hload : (s.setPush p (.load data)).pushStep n p false = some s₁ := by
      simp [pushStep, s₁, setPush, ite_else_ite]
    simp [alone, step, hout, hload, hlast]
  · intro spurious s' hrun hout'
    -- alone nobody frees the cell, so `full` is the only end
    have hinv := alone_invariant
      (I := fun x : QueueState π κ T => x.queue = s.queue ∧ (x.push p = .load data ∨
        x.push p = .sequence data s.queue.m_enqueue_pos ∨ x.push p = .full data))
      ⟨rfl, .inl (by simp)⟩ ?_ hrun
    · rcases hinv.2 with hpc | hpc | hpc
      · rw [hpc] at hout'
        cases hout'
      · rw [hpc] at hout'
        cases hout'
      · exact hpc
    · rintro x b x' ⟨hqueue, hpc | hpc | hpc⟩ hs
      · simp only [pushStep, hpc] at hs
        cases hs
        exact ⟨hqueue, .inr (.inl (by simp [hqueue]))⟩
      · rw [pushStep_behind n x hpc (by rwa [hqueue])] at hs
        cases hs
        exact ⟨hqueue, .inr (.inr (by simp))⟩
      · simp only [pushStep, hpc] at hs
        cases hs

/-- Where the next cell is free, it is accepted. -/
theorem returnsAlone_free {p : π} {data : T} (hout : (s.push p).outside)
    (hfree : s.queue.sequenceAt n s.queue.m_enqueue_pos = s.queue.m_enqueue_pos) :
    ReturnsAlone n s p data .pushed := by
  have hcell : (s.queue.cell n s.queue.m_enqueue_pos).sequence = s.queue.m_enqueue_pos := hfree
  constructor
  · -- five steps without a lost exchange
    refine ⟨List.replicate 5 false, s.pushed n p data, ?_, by simp [pushed, PushPc.outside]⟩
    simp [alone, List.replicate, step, pushStep, hout, hcell, pushed, setPush, ite_else_ite]
  · intro spurious s' hrun hout'
    -- alone the cell stays free, so the push never comes to `full`
    have hinv := alone_invariant
      (I := fun x : QueueState π κ T => (x.queue = s.queue ∧ (x.push p = .load data ∨
        x.push p = .sequence data s.queue.m_enqueue_pos ∨
        x.push p = .exchange data s.queue.m_enqueue_pos)) ∨
        (∃ pos, x.push p = .write data pos) ∨ (∃ pos, x.push p = .publish pos) ∨
        x.push p = .pushed)
      (.inl ⟨rfl, .inl (by simp)⟩) ?_ hrun
    · rcases hinv with ⟨-, hpc | hpc | hpc⟩ | ⟨pos, hpc⟩ | ⟨pos, hpc⟩ | hpushed
      · rw [hpc] at hout'
        cases hout'
      · rw [hpc] at hout'
        cases hout'
      · rw [hpc] at hout'
        cases hout'
      · rw [hpc] at hout'
        cases hout'
      · rw [hpc] at hout'
        cases hout'
      · exact hpushed
    · rintro x b x' (⟨hqueue, hpc | hpc | hpc⟩ | ⟨pos, hpc⟩ | ⟨pos, hpc⟩ | hpc) hs
      · simp only [pushStep, hpc] at hs
        cases hs
        exact .inl ⟨hqueue, .inr (.inl (by simp [hqueue]))⟩
      · simp only [pushStep, hpc, hqueue, hcell, Int.sub_self, if_true] at hs
        cases hs
        exact .inl ⟨hqueue, .inr (.inr (by simp))⟩
      · simp only [pushStep, hpc] at hs
        split at hs
        · cases hs
          exact .inr (.inl ⟨s.queue.m_enqueue_pos, by simp⟩)
        · cases hs
          exact .inl ⟨hqueue, .inr (.inl (by simp [hqueue]))⟩
      · simp only [pushStep, hpc] at hs
        cases hs
        exact .inr (.inr (.inl ⟨pos, by simp⟩))
      · simp only [pushStep, hpc] at hs
        cases hs
        exact .inr (.inr (.inr (by simp)))
      · simp only [pushStep, hpc] at hs
        cases hs

/-! ## The hand-over -/

/-- What it means that the hand-over is exact, for a run that ended in `s` and left `log`. -/
structure HandOver (n : QueueSize) (acts : List (QueueAction π κ T)) (s : QueueState π κ T)
    (log : List (QueueEvent π κ T)) : Prop where
  /-- Every accepted handler has its own ticket. -/
  tickets : ((log.filterMap QueueEvent.acceptance).map Prod.snd).Nodup
  /-- No ticket is moved out twice. -/
  moved_once : (log.filterMap QueueEvent.movedTicket).Nodup
  /-- Data is moved out after it was stored, and a `pop` returns what was posted with its ticket. -/
  caused : Justified QueueEvent.Cause log
  /-- Tickets are taken in the order in which they were obtained. -/
  in_order : log.filterMap QueueEvent.claimedTicket <+:
    (log.filterMap QueueEvent.acceptance).map Prod.snd
  /-- A `tryPost` that returns false has its handler back, and none of its steps touched the queue. -/
  refused : ∀ p data before during, acts = before ++ .push p data :: during →
    (∀ data', .push p data' ∉ during) → ∀ data', s.push p = .full data' →
      data' = data ∧ ∀ s₀, run (step n) init before = some s₀ →
        Guarded (step n) (LeavesQueue n p) s₀ (.push p data :: during)
  /-- With no operation in progress the content is what was accepted and not popped. -/
  content : s.Quiet → s.queue.content n = (QueueEvent.waiting log).map some ∧
    (QueueEvent.waiting log).length ≤ n.size
  /-- Then a `tryPost` on its own returns false just when the queue is full. -/
  alone : s.Quiet → ∀ p data, ReturnsAlone n s p data
    (if (QueueEvent.waiting log).length = n.size then .full data else .pushed)

omit [DecidableEq π] [DecidableEq κ] in
/-- With no operation in progress, as many handlers wait as there are tickets between the two positions. -/
theorem Recorded.length_waiting (h : Recorded n s log) (hquiet : s.Quiet) :
    (QueueEvent.waiting log).length = s.queue.m_enqueue_pos - s.queue.m_dequeue_pos := by
  have hcontent := congrArg List.length (h.content_of_quiet hquiet)
  simpa [MPMCBoundedQueue.content] using hcontent.symm

/-- **Job hand-over is exact**: for every queue size that the constructor does not refuse, any producers
and consumers, and every interleaving of their steps. -/
theorem hand_over_exact (n : QueueSize) {acts : List (QueueAction π κ T)}
    (h : run (logged (step n) (note n)) (init, []) acts = some (s, log)) : HandOver n acts s log := by
  have hrec := recorded_run h
  obtain ⟨hDE, hEN⟩ := hrec.inv.bounds
  -- the tickets of the accepted values are the positions given out so far
  have htickets : (log.filterMap QueueEvent.acceptance).map Prod.snd =
      List.range s.queue.m_enqueue_pos := by
    rw [hrec.acceptances, List.zipIdx_map_snd, hrec.inv.length, List.range_eq_range']
  refine ⟨?_, hrec.moves, hrec.justified, ?_, ?_, fun hquiet => ?_, fun hquiet p data => ?_⟩
  · rw [htickets]
    exact List.nodup_range
  · rw [htickets, hrec.claims, List.prefix_iff_eq_take, List.length_range, List.take_range,
      Nat.min_eq_left hDE]
  · rintro p data before during rfl hcall data' hfull
    -- an answer `full` needs the queue behind at some step of the call
    exact refused_of_run (run_of_logged h) hcall hfull
  · refine ⟨hrec.content_of_quiet hquiet, ?_⟩
    rw [hrec.length_waiting hquiet]
    omega
  · rw [hrec.length_waiting hquiet]
    have hn := n.two_le
    split
    · next hfull =>
      apply returnsAlone_full (hquiet.1 p)
      -- the cell of the enqueue position is the full one at the dequeue position
      have hE : s.queue.m_enqueue_pos = s.queue.m_dequeue_pos + n.size := by omega
      have hcell := (hrec.inv.full_of_quiet hquiet (Nat.le_refl _)
        (by omega : s.queue.m_dequeue_pos < s.queue.m_enqueue_pos)).1
      have hsame := s.queue.sequenceAt_congr n (n.index_add_size s.queue.m_dequeue_pos)
      rw [hE, hsame, hcell]
      omega
    · next hroom =>
      exact returnsAlone_free (hquiet.1 p)
        (hrec.inv.free_of_quiet hquiet (Nat.le_refl _) (by omega))

/-- Three producers and two consumers, with room for two handlers: two producers want the same ticket, the one that
gets the next publishes first, the third finds the queue full, and the consumers want the same ticket too. -/
def crowded : List (QueueAction Nat Nat Nat) :=
  [.push 0 7, .push 1 8] ++ [0, 1, 0, 1, 1, 0].map (.pushStep · false) ++ [.pop 0] ++ [0, 0].map (.popStep · false) ++
    [0, 0, 0, 0].map (.pushStep · false) ++ [.push 2 9] ++ [2, 2, 1, 1].map (.pushStep · false) ++ [.pop 0, .pop 1] ++
    [0, 1, 0, 1, 1, 0, 0, 0, 0, 1, 1, 0].map (.popStep · false)

theorem crowded_handed_over :
    ∃ s log, run (logged (step ⟨2, by decide⟩) (note ⟨2, by decide⟩)) (init, []) crowded = some (s, log) ∧
      s.push 2 = .full 9 ∧ s.pop 0 = .popped 1 (some 7) ∧ s.pop 1 = .popped 0 (some 8) ∧
      HandOver ⟨2, by decide⟩ crowded s log :=
  ⟨_, _, rfl, rfl, rfl, rfl, hand_over_exact _ rfl⟩

end Steps

end QueueState

/-! ## The queue of the pool -/

namespace PoolState

variable {π ω : Type} [DecidableEq π] [DecidableEq ω] {n : QueueSize} {s s' : PoolState π ω}

/-- A step of a worker is a step of the queue, or none. -/
theorem work_queue {w : ω} {spurious : Bool} (hs : s.work n w spurious = some s') :
    Reachable (QueueState.step n) s.queue s'.queue := by
  -- only inside of a pop does a worker touch the queue, one step at a time
  have hbegin : ∀ s', s.beginPop n w = some s' →
      Reachable (QueueState.step n) s.queue s'.queue := by
    intro s' hs
    obtain ⟨q, hq, rfl⟩ := Option.map_eq_some_iff.mp hs
    exact Reachable.single hq
  unfold work at hs
  split at hs
  · split at hs
    · exact hbegin _ hs
    · cases hs
      exact Reachable.refl
  · unfold popStep at hs
    split at hs
    · cases hs
      exact Reachable.refl
    · cases hs
    · cases hs
      exact Reachable.refl
    · obtain ⟨q, hq, rfl⟩ := Option.map_eq_some_iff.mp hs
      exact Reachable.single hq
  · cases hs
    exact Reachable.refl
  · exact hbegin _ hs
  · unfold callHandler at hs
    split at hs <;> cases hs <;> exact Reachable.refl
  · cases hs
    exact Reachable.refl
  · cases hs

/-- **The queue inside the pool** is reached by calls and steps of posters and workers: what holds of every
run of the queue holds of it. -/
theorem queue_reachable (h : Reachable (step n) (init : PoolState π ω) s) :
    Reachable (QueueState.step n) QueueState.init s.queue := by
  refine Reachable.project (f := PoolState.queue) (fun s act s' hs => ?_) h
  cases act with
  | post p c =>
      obtain ⟨q, hq, rfl⟩ := Option.map_eq_some_iff.mp hs
      exact Reachable.single hq
  | pushStep p spurious =>
      obtain ⟨q, hq, rfl⟩ := Option.map_eq_some_iff.mp hs
      exact Reachable.single hq
  | work w spurious => exact work_queue hs
  | stop w =>
      cases hs
      exact Reachable.refl

end PoolState

end LimbWorker.ThreadPool
