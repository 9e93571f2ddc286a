import LimbWorker.ThreadPool.Pool
import Mathlib.Data.List.Nodup

/-!
# At most once

A worker keeps its `handler` across iterations, and leaves `cv.wait` either because `pop` filled it or
because its running flag was cleared. In the second case it calls whatever the variable still holds.

What is known of every run: the handlers that were accepted are told apart by their tickets, a ticket
is claimed by one worker only, and a worker's variable holds the handler of the ticket it has just
claimed or one that was run before. So the call after a successful `pop` is always the first one, and
the call after a failed `pop` is a repetition unless the variable is still empty.
-/

namespace LimbWorker.ThreadPool

open Lib

/-! ## What a step of the queue does to its history -/

/-- The value of a producer that was not accepted yet. -/
def PushPc.value {T : Type} : PushPc T → Option T
  | .load data | .sequence data _ | .exchange data _ => some data
  | _ => none

namespace QueueState

variable {π κ T : Type} [DecidableEq π] [DecidableEq κ] {n : QueueSize} {s s' : QueueState π κ T}

/-- In a history with one more value, a ticket is an old one or the newest. -/
theorem getElem?_accepted_append {accepted : List T} {data f : T} {t : Nat}
    (h : (accepted ++ [data])[t]? = some f) :
    accepted[t]? = some f ∨ t = accepted.length ∧ f = data := by
  rw [List.getElem?_append] at h
  split at h
  · exact .inl h
  · obtain ⟨hlt, rfl⟩ := List.getElem?_eq_some_iff.mp h
    rw [List.length_singleton] at hlt
    exact .inr ⟨by omega, List.getElem_singleton hlt⟩

omit [DecidableEq κ] in
/-- A step of `push` accepts the value of its producer, or accepts nothing. -/
theorem pushStep_effect {p : π} {spurious : Bool} (hs : s.pushStep n p spurious = some s') :
    s'.pop = s.pop ∧ s'.queue.m_dequeue_pos = s.queue.m_dequeue_pos ∧
      (∀ p', p' ≠ p → s'.push p' = s.push p') ∧
      ((s'.accepted = s.accepted ∧
          ∀ data, (s'.push p).value = some data → (s.push p).value = some data) ∨
        ∃ data, (s.push p).value = some data ∧ s'.accepted = s.accepted ++ [data] ∧
          (s'.push p).value = none) := by
  unfold pushStep at hs
  split at hs
  · next data hpc =>
    cases hs
    exact ⟨rfl, rfl, fun p' hp => by simp [hp], .inl ⟨rfl, by simp [hpc, PushPc.value]⟩⟩
  · next data pos hpc =>
    simp only at hs
    split at hs
    · cases hs
      exact ⟨rfl, rfl, fun p' hp => by simp [hp], .inl ⟨rfl, by simp [hpc, PushPc.value]⟩⟩
    · split at hs <;> cases hs <;>
        exact ⟨rfl, rfl, fun p' hp => by simp [hp], .inl ⟨rfl, by simp [hpc, PushPc.value]⟩⟩
  · next data pos hpc =>
    split at hs
    · cases hs
      exact ⟨rfl, rfl, fun p' hp => by simp [hp],
        .inr ⟨data, by simp [hpc, PushPc.value], rfl, by simp [PushPc.value]⟩⟩
    · cases hs
      exact ⟨rfl, rfl, fun p' hp => by simp [hp], .inl ⟨rfl, by simp [hpc, PushPc.value]⟩⟩
  · next data pos hpc =>
    cases hs
    exact ⟨rfl, rfl, fun p' hp => by simp [hp], .inl ⟨rfl, by simp [PushPc.value]⟩⟩
  · next pos hpc =>
    cases hs
    exact ⟨rfl, rfl, fun p' hp => by simp [hp], .inl ⟨rfl, by simp [PushPc.value]⟩⟩
  · cases hs

omit [DecidableEq π] in
/-- A step of `pop` claims the next ticket, or leaves the claim of its consumer as it is. -/
theorem popStep_effect {c : κ} {spurious : Bool} (hs : s.popStep n c spurious = some s') :
    s'.push = s.push ∧ s'.accepted = s.accepted ∧ (∀ c', c' ≠ c → s'.pop c' = s.pop c') ∧
      ((s'.queue.m_dequeue_pos = s.queue.m_dequeue_pos ∧
          (s'.pop c).claim = (s.pop c).claim) ∨
        (s'.queue.m_dequeue_pos = s.queue.m_dequeue_pos + 1 ∧
          (s'.pop c).claim = some s.queue.m_dequeue_pos)) := by
  unfold popStep at hs
  split at hs
  · next hpc =>
    cases hs
    exact ⟨rfl, rfl, fun c' hc => by simp [hc], .inl ⟨rfl, by simp [hpc, PopPc.claim]⟩⟩
  · next pos hpc =>
    simp only at hs
    split at hs
    · cases hs
      exact ⟨rfl, rfl, fun c' hc => by simp [hc], .inl ⟨rfl, by simp [hpc, PopPc.claim]⟩⟩
    · split at hs <;> cases hs <;>
        exact ⟨rfl, rfl, fun c' hc => by simp [hc], .inl ⟨rfl, by simp [hpc, PopPc.claim]⟩⟩
  · next pos hpc =>
    split at hs
    · next hcas =>
      cases hs
      -- the one step that claims a ticket, and moves the position past it
      exact ⟨rfl, rfl, fun c' hc => by simp [hc], .inr ⟨by simp [hcas.1], by simp [hcas.1, PopPc.claim]⟩⟩
    · cases hs
      exact ⟨rfl, rfl, fun c' hc => by simp [hc], .inl ⟨rfl, by simp [hpc, PopPc.claim]⟩⟩
  · next pos hpc =>
    cases hs
    exact ⟨rfl, rfl, fun c' hc => by simp [hc], .inl ⟨rfl, by simp [hpc, PopPc.claim]⟩⟩
  · next pos data hpc =>
    cases hs
    exact ⟨rfl, rfl, fun c' hc => by simp [hc], .inl ⟨rfl, by simp [hpc, PopPc.claim]⟩⟩
  · cases hs

end QueueState

/-! ## What a step of a worker does -/

namespace PoolState

variable {π ω : Type} {n : QueueSize} {s s' : PoolState π ω} {w : ω}

/-- What the step of a worker changes, as the posters and the other workers see it. -/
structure WorkEffect (s s' : PoolState π ω) (w : ω) : Prop where
  push : s'.queue.push = s.queue.push
  accepted : s'.queue.accepted = s.queue.accepted
  posted : s'.posted = s.posted
  invoked : ∀ id ∈ s.invoked, id ∈ s'.invoked
  others : ∀ w', w' ≠ w → s'.worker w' = s.worker w' ∧ s'.queue.pop w' = s.queue.pop w'
  claim : (s'.queue.queue.m_dequeue_pos = s.queue.queue.m_dequeue_pos ∧
      ∀ t, (s'.queue.pop w).claim = some t → (s.queue.pop w).claim = some t) ∨
    (s'.queue.queue.m_dequeue_pos = s.queue.queue.m_dequeue_pos + 1 ∧
      (s'.queue.pop w).claim = some s.queue.queue.m_dequeue_pos)
  popping : s'.worker w ≠ .pop → (s'.queue.pop w).outside

section

variable [DecidableEq π] [DecidableEq ω]

omit [DecidableEq π] in
@[simp] theorem worker_setWorker (pc : WorkerPc) (w' : ω) :
    (s.setWorker w pc).worker w' = if w' = w then pc else s.worker w' := rfl

omit [DecidableEq π] in
@[simp] theorem queue_setWorker (pc : WorkerPc) : (s.setWorker w pc).queue = s.queue := rfl

omit [DecidableEq π] in
/-- A worker moves on outside the queue. -/
theorem workEffect_setWorker (pc : WorkerPc) (h : (s.queue.pop w).outside) :
    WorkEffect s (s.setWorker w pc) w where
  push := rfl
  accepted := rfl
  posted := rfl
  invoked := fun _ hid => hid
  others := fun w' hw => ⟨by simp [hw], rfl⟩
  claim := .inl ⟨rfl, fun _ ht => ht⟩
  popping := fun _ => h

theorem workEffect_beginPop (hs : s.beginPop n w = some s') : WorkEffect s s' w := by
  obtain ⟨q, hq, rfl⟩ := Option.map_eq_some_iff.mp hs
  simp only [QueueState.step] at hq
  split at hq
  · cases hq
    refine ⟨rfl, rfl, rfl, fun _ hid => hid, fun w' hw => ?_, .inl ⟨rfl, fun t ht => ?_⟩,
      fun hne => ?_⟩
    · simp [setWorker, hw]
    · simp [setWorker, PopPc.claim] at ht
    · simp [setWorker] at hne
  · cases hq

theorem workEffect_popStep {spurious : Bool} (hworker : s.worker w = .pop)
    (hs : s.popStep n w spurious = some s') : WorkEffect s s' w := by
  unfold popStep at hs
  split at hs
  · next t f hpop =>
    cases hs
    refine ⟨rfl, rfl, rfl, fun _ hid => hid, fun w' hw => ?_, .inl ⟨rfl, fun t ht => ht⟩,
      fun _ => ?_⟩
    · simp [setWorker, setHandler, hw]
    · simp [setWorker, setHandler, hpop, PopPc.outside]
  · cases hs
  · next hpop =>
    cases hs
    exact workEffect_setWorker .flag (by simp [hpop, PopPc.outside])
  · obtain ⟨q, hq, rfl⟩ := Option.map_eq_some_iff.mp hs
    obtain ⟨hpush, haccepted, hother, hclaim⟩ := QueueState.popStep_effect hq
    refine ⟨hpush, haccepted, rfl, fun _ hid => hid, fun w' hw => ⟨rfl, hother w' hw⟩, ?_,
      fun hne => absurd hworker hne⟩
    rcases hclaim with ⟨hpos, hsame⟩ | ⟨hpos, hnew⟩
    · exact .inl ⟨hpos, fun t ht => hsame ▸ ht⟩
    · exact .inr ⟨hpos, hnew⟩

/-- **What a worker's step can do.** -/
theorem work_effect {spurious : Bool} (houtside : s.worker w ≠ .pop → (s.queue.pop w).outside)
    (hs : s.work n w spurious = some s') : WorkEffect s s' w := by
  unfold work at hs
  cases hworker : s.worker w with
  | check =>
      have hout := houtside (by simp [hworker])
      simp only [hworker] at hs
      split at hs
      · exact workEffect_beginPop hs
      · cases hs
        exact workEffect_setWorker .exited hout
  | pop =>
      simp only [hworker] at hs
      exact workEffect_popStep hworker hs
  | flag =>
      simp only [hworker, Option.some.injEq] at hs
      subst hs
      exact workEffect_setWorker _ (houtside (by simp [hworker]))
  | waiting =>
      simp only [hworker] at hs
      exact workEffect_beginPop hs
  -- the call is the one step that may add to the list
  | call popped =>
      have hout := houtside (by simp [hworker])
      simp only [hworker, callHandler] at hs
      split at hs
      · cases hs
        refine ⟨rfl, rfl, rfl, fun _ hid => List.mem_append_left _ hid, fun w' hw => ?_,
          .inl ⟨rfl, fun _ ht => ht⟩, fun _ => hout⟩
        simp [setWorker, hw]
      · cases hs
        exact workEffect_setWorker .check hout
      · cases hs
  | run =>
      simp only [hworker, Option.some.injEq] at hs
      subst hs
      exact workEffect_setWorker .check (houtside (by simp [hworker]))
  | exited =>
      simp only [hworker] at hs
      cases hs

end

end PoolState

/-! ## The invariant of the pool -/

namespace PoolState

variable {π ω : Type} {n : QueueSize} {s s' : PoolState π ω} {w : ω} {p : π}

/-- The ticket that a worker has claimed and whose handler it has not called yet. -/
def pending (s : PoolState π ω) (w : ω) : Option Nat :=
  match s.worker w with
  | .pop | .call true => (s.queue.pop w).claim
  | _ => none

/-- Handler `id` was accepted, and the worker that claimed it has called it. -/
def Done (s : PoolState π ω) (id : Nat) : Prop :=
  ∃ t f, t < s.queue.queue.m_dequeue_pos ∧ s.queue.accepted[t]? = some f ∧ f.call = .ran id ∧
    ∀ w, s.pending w ≠ some t

/-- What a worker's variable holds: what it has just popped when it is about to call that, and
otherwise nothing, or a handler that was run. -/
def HandlerOk (s : PoolState π ω) (w : ω) : Prop :=
  if s.worker w = .call true then
    ∃ t, s.queue.pop w = .popped t (some (s.handler w))
  else s.handler w = .empty ∨ ∃ c id, s.handler w = .of c id ∧ id ∈ s.invoked

/-- The invariant of the pool. -/
structure Inv (n : QueueSize) (s : PoolState π ω) : Prop where
  queue : s.queue.Inv n
  accepted : ∀ (i : Nat) (f : FixedFunction Nat), s.queue.accepted[i]? = some f →
    ∃ c id, f = .of c id ∧ id < s.posted
  distinct : ∀ (i j : Nat) (f g : FixedFunction Nat), s.queue.accepted[i]? = some f →
    s.queue.accepted[j]? = some g →
    f.call = g.call → i = j
  value : ∀ p f, (s.queue.push p).value = some f → ∃ c id, f = .of c id ∧ id < s.posted
  value_new : ∀ p f (i : Nat) (g : FixedFunction Nat), (s.queue.push p).value = some f →
    s.queue.accepted[i]? = some g →
    g.call ≠ f.call
  value_distinct : ∀ p p' f g, (s.queue.push p).value = some f →
    (s.queue.push p').value = some g → f.call = g.call → p = p'
  done : ∀ id ∈ s.invoked, s.Done id
  handler : ∀ w, s.HandlerOk w

theorem inv_init (n : QueueSize) : Inv n (init : PoolState π ω) where
  queue := QueueState.inv_init n
  accepted := fun i f h => by simp [init, QueueState.init] at h
  distinct := fun i j f g h => by simp [init, QueueState.init] at h
  value := fun p f h => by simp [init, QueueState.init, PushPc.value] at h
  value_new := fun p f i g h => by simp [init, QueueState.init, PushPc.value] at h
  value_distinct := fun p p' f g h => by simp [init, QueueState.init, PushPc.value] at h
  done := fun id h => by simp [init] at h
  handler := fun w => .inl rfl

/-- A handler stays done when nothing is forgotten and new claims are new tickets. -/
theorem Done.mono {id : Nat} (h : s.Done id) (haccepted : s'.queue.accepted = s.queue.accepted)
    (hpos : s.queue.queue.m_dequeue_pos ≤ s'.queue.queue.m_dequeue_pos)
    (hpending : ∀ w t, s'.pending w = some t →
      s.pending w = some t ∨ s.queue.queue.m_dequeue_pos ≤ t) : s'.Done id := by
  obtain ⟨t, f, ht, hf, hcall, hw⟩ := h
  refine ⟨t, f, by omega, by rw [haccepted]; exact hf, hcall, fun w hwt => ?_⟩
  rcases hpending w t hwt with hold | hnew
  · exact hw w hold
  · omega

/-- A worker that does not move keeps its variable right. -/
theorem HandlerOk.mono (h : s.HandlerOk w) (hworker : s'.worker w = s.worker w)
    (hpop : s'.queue.pop w = s.queue.pop w) (hhandler : s'.handler w = s.handler w)
    (hinvoked : ∀ id ∈ s.invoked, id ∈ s'.invoked) : s'.HandlerOk w := by
  unfold HandlerOk at h ⊢
  rw [hworker, hpop, hhandler]
  split at h
  · next hcall =>
    rw [if_pos hcall]
    exact h
  · next hcall =>
    rw [if_neg hcall]
    rcases h with hempty | ⟨c, id, hof, hid⟩
    · exact .inl hempty
    · exact .inr ⟨c, id, hof, hinvoked id hid⟩

/-- Nor does a worker that neither was about to call what it had just popped nor is now. -/
theorem HandlerOk.of_not_call (h : s.HandlerOk w) (hold : s.worker w ≠ .call true)
    (hnew : s'.worker w ≠ .call true) (hhandler : s'.handler w = s.handler w)
    (hinvoked : s'.invoked = s.invoked) : s'.HandlerOk w := by
  unfold HandlerOk at h ⊢
  rw [if_neg hold] at h
  rw [if_neg hnew, hhandler, hinvoked]
  exact h

/-- **The frame rule of the workers**: what the posters see is untouched, so only the queue, the
invoked handlers and the workers' variables have to be looked at. -/
theorem inv_workers (h : Inv n s) (hqueue : s'.queue.Inv n)
    (hpush : s'.queue.push = s.queue.push) (haccepted : s'.queue.accepted = s.queue.accepted)
    (hposted : s'.posted = s.posted) (hdone : ∀ id ∈ s'.invoked, s'.Done id)
    (hhandler : ∀ w, s'.HandlerOk w) : Inv n s' where
  queue := hqueue
  accepted := by rw [haccepted, hposted]; exact h.accepted
  distinct := by rw [haccepted]; exact h.distinct
  value := by rw [hpush, hposted]; exact h.value
  value_new := by rw [hpush, haccepted]; exact h.value_new
  value_distinct := by rw [hpush]; exact h.value_distinct
  done := hdone
  handler := hhandler

section Steps

variable [DecidableEq π] [DecidableEq ω]

omit [DecidableEq π] in
/-- A worker moves and nothing else changes: its new position asks for no new ticket, and it is not
about to call what it has just popped. -/
theorem inv_setWorker (h : Inv n s) {q : WorkerPc} (hold : s.worker w ≠ .call true)
    (hpop : q ≠ .pop) (hcall : q ≠ .call true) : Inv n (s.setWorker w q) := by
  refine inv_workers h h.queue rfl rfl rfl ?_ ?_
  · intro id hid
    refine (h.done id hid).mono rfl (Nat.le_refl _) fun w' t ht => .inl ?_
    by_cases hw : w' = w
    · subst hw
      simp only [pending, worker_setWorker, if_true] at ht
      cases ht
    · simpa [pending, hw] using ht
  · intro w'
    by_cases hw : w' = w
    · subst hw
      exact (h.handler w').of_not_call hold (by simpa using hcall) rfl rfl
    · exact (h.handler w').mono (by simp [hw]) rfl rfl fun _ hid => hid

omit [DecidableEq π] in
/-- A worker begins to pop, or goes on popping: the only new ticket is the next one. -/
theorem inv_popQueue (h : Inv n s) {q : QueueState π ω (FixedFunction Nat)}
    (hworker : s.worker w ≠ .call true) (hqueue : q.Inv n) (hpush : q.push = s.queue.push)
    (haccepted : q.accepted = s.queue.accepted) (hother : ∀ w', w' ≠ w → q.pop w' = s.queue.pop w')
    (hpos : s.queue.queue.m_dequeue_pos ≤ q.queue.m_dequeue_pos)
    (hclaim : ∀ t, (q.pop w).claim = some t →
      s.pending w = some t ∨ s.queue.queue.m_dequeue_pos ≤ t) :
    Inv n ({ s with queue := q }.setWorker w .pop) := by
  refine inv_workers h hqueue hpush haccepted rfl ?_ ?_
  · intro id hid
    refine (h.done id hid).mono haccepted hpos fun w' t ht => ?_
    by_cases hw : w' = w
    · subst hw
      refine hclaim t ?_
      simpa [pending, setWorker] using ht
    · refine .inl ?_
      simpa [pending, setWorker, hw, hother w' hw] using ht
  · intro w'
    by_cases hw : w' = w
    · subst hw
      exact (h.handler w').of_not_call hworker (by simp) rfl rfl
    · exact (h.handler w').mono (by simp [setWorker, hw]) (hother w' hw) rfl fun _ hid => hid

theorem inv_beginPop (h : Inv n s) (hworker : s.worker w ≠ .call true)
    (hs : s.beginPop n w = some s') : Inv n s' := by
  unfold beginPop at hs
  obtain ⟨q, hq, rfl⟩ := Option.map_eq_some_iff.mp hs
  have hqueue := QueueState.inv_step _ _ _ h.queue hq
  simp only [QueueState.step] at hq
  split at hq
  · cases hq
    refine inv_popQueue h hworker hqueue rfl rfl (fun w' hw => by simp [hw]) (Nat.le_refl _) ?_
    intro t ht
    simp [PopPc.claim] at ht
  · cases hq

/-- A worker inside `pop`. -/
theorem inv_popStep {spurious : Bool} (h : Inv n s) (hworker : s.worker w = .pop)
    (hs : s.popStep n w spurious = some s') : Inv n s' := by
  unfold popStep at hs
  split at hs
  · next t f hpop =>
    cases hs
    -- the value comes from the ticket, so moving it into the variable makes that callable
    have hok := h.queue.pop w
    rw [hpop] at hok
    obtain ⟨c, id, rfl, -⟩ := h.accepted t f hok.2.symm
    rw [FixedFunction.moveFromOther_of]
    refine inv_workers h h.queue rfl rfl rfl ?_ ?_
    · intro id' hid
      refine (h.done id' hid).mono rfl (Nat.le_refl _) fun w' t' ht => .inl ?_
      by_cases hw : w' = w
      · subst hw
        simpa [pending, setWorker, setHandler, hworker] using ht
      · simpa [pending, setWorker, setHandler, hw] using ht
    · intro w'
      by_cases hw : w' = w
      · subst hw
        unfold HandlerOk
        rw [if_pos (by simp)]
        exact ⟨t, by simpa [setWorker, setHandler] using hpop⟩
      · exact (h.handler w').mono (by simp [setWorker, setHandler, hw]) rfl
          (by simp [setWorker, setHandler, hw]) fun _ hid => hid
  · cases hs
  · -- an empty queue leaves the variable as it is
    cases hs
    exact inv_setWorker h (by simp [hworker]) (by simp) (by simp)
  · obtain ⟨q, hq, rfl⟩ := Option.map_eq_some_iff.mp hs
    obtain ⟨hpush, haccepted, hother, hclaim⟩ := QueueState.popStep_effect hq
    -- all other steps are the queue's own, with the worker still in its pop
    have hmoved : { s with queue := q } = { s with queue := q }.setWorker w .pop := by
      unfold setWorker
      congr 1
      funext w'
      split
      · next hw => rw [hw, hworker]
      · rfl
    rw [hmoved]
    refine inv_popQueue h (by simp [hworker]) (QueueState.inv_popStep h.queue hq) hpush haccepted
      hother ?_ ?_
    · rcases hclaim with ⟨hpos, -⟩ | ⟨hpos, -⟩ <;> omega
    · intro t ht
      rcases hclaim with ⟨-, hsame⟩ | ⟨-, hnew⟩
      · left
        simp only [pending, hworker]
        rw [← hsame]
        exact ht
      · right
        rw [hnew] at ht
        cases ht
        exact Nat.le_refl _

omit [DecidableEq π] in
/-- The call after a successful `pop`: the handler was not called before, and is done now. -/
theorem call_popped (h : Inv n s) (hworker : s.worker w = .call true) :
    ∃ c id, s.handler w = .of c id ∧ id ∉ s.invoked ∧
      Inv n ({ s with invoked := s.invoked ++ [id] }.setWorker w .run) := by
  have hhandler := h.handler w
  unfold HandlerOk at hhandler
  rw [if_pos hworker] at hhandler
  obtain ⟨t, hpop⟩ := hhandler
  have hok := h.queue.pop w
  rw [hpop] at hok
  obtain ⟨hlt, hget⟩ := hok
  obtain ⟨c, id, hof, -⟩ := h.accepted t _ hget.symm
  have hpending : s.pending w = some t := by
    simp only [pending, hworker, hpop]
    rfl
  refine ⟨c, id, hof, ?_, ?_⟩
  · intro hid
    obtain ⟨t', f, -, hf, hcall, hnone⟩ := h.done id hid
    have htt : t' = t := h.distinct t' t f _ hf hget.symm (by rw [hcall, hof, FixedFunction.call_of])
    exact hnone w (htt ▸ hpending)
  · refine inv_workers h h.queue rfl rfl rfl ?_ ?_
    · intro id' hid
      have hother : ∀ w' t', ({ s with invoked := s.invoked ++ [id] }.setWorker w .run).pending w' =
          some t' → w' ≠ w ∧ s.pending w' = some t' := by
        intro w' t' ht
        by_cases hw : w' = w
        · subst hw
          simp [pending, setWorker] at ht
        · exact ⟨hw, by simpa [pending, setWorker, hw] using ht⟩
      rcases List.mem_append.mp hid with hold | hnew
      · exact (h.done id' hold).mono rfl (Nat.le_refl _) fun w' t' ht => .inl (hother w' t' ht).2
      · cases List.mem_singleton.mp hnew
        refine ⟨t, _, hlt, hget.symm, by rw [hof, FixedFunction.call_of], fun w' hw' => ?_⟩
        obtain ⟨hne, hpend⟩ := hother w' t hw'
        -- a ticket is claimed by one worker only
        have hclaim : (s.queue.pop w').claim = some t := by
          unfold pending at hpend
          split at hpend
          · exact hpend
          · exact hpend
          · cases hpend
        exact hne (h.queue.pop_inj w' w t hclaim (by rw [hpop]; rfl))
    · intro w'
      by_cases hw : w' = w
      · subst hw
        unfold HandlerOk
        rw [if_neg (by simp)]
        exact .inr ⟨c, id, hof, by simp [setWorker]⟩
      · exact (h.handler w').mono (by simp [setWorker, hw]) rfl rfl
          fun _ hid => List.mem_append_left _ hid

omit [DecidableEq π] in
/-- The call after a failed `pop`: the variable is empty, or it is a handler that was run before. -/
theorem call_stale (h : Inv n s) (hworker : s.worker w = .call false) :
    s.handler w = .empty ∨ ∃ c id, s.handler w = .of c id ∧ id ∈ s.invoked ∧
      Inv n ({ s with invoked := s.invoked ++ [id] }.setWorker w .run) := by
  have hhandler := h.handler w
  unfold HandlerOk at hhandler
  rw [if_neg (by simp [hworker])] at hhandler
  rcases hhandler with hempty | ⟨c, id, hof, hid⟩
  · exact .inl hempty
  · refine .inr ⟨c, id, hof, hid, ?_⟩
    have hmem : ∀ id', id' ∈ s.invoked ++ [id] → id' ∈ s.invoked := by
      intro id' h'
      rcases List.mem_append.mp h' with hold | hnew
      · exact hold
      · exact List.mem_singleton.mp hnew ▸ hid
    have hmoved := inv_setWorker (q := .run) h (w := w) (by simp [hworker]) (by simp) (by simp)
    exact inv_workers hmoved hmoved.queue rfl rfl rfl (fun id' h' => hmoved.done id' (hmem id' h'))
      fun w' => (hmoved.handler w').mono rfl rfl rfl fun _ hid => List.mem_append_left _ hid

/-- A poster hands a new handler to `tryPost`. -/
theorem inv_post {c : Callable} (h : Inv n s) (hs : s.step n (.post p c) = some s') : Inv n s' := by
  obtain ⟨q, hq, rfl⟩ := Option.map_eq_some_iff.mp hs
  have hqueue := QueueState.inv_step _ _ _ h.queue hq
  simp only [QueueState.step] at hq
  split at hq
  · cases hq
    -- what the producers hold afterwards: the new callable, or what they held before
    have hvalue : ∀ p' f, ((s.queue.setPush p (.load (.of c s.posted))).push p').value = some f →
        p' = p ∧ f = .of c s.posted ∨ p' ≠ p ∧ (s.queue.push p').value = some f := by
      intro p' f hf
      rw [QueueState.push_setPush] at hf
      split at hf
      · next hp =>
        cases hf
        exact .inl ⟨hp, rfl⟩
      · next hp => exact .inr ⟨hp, hf⟩
    -- the number of the new handler is larger than all others
    have hnew : ∀ f : FixedFunction Nat, (∃ c id, f = .of c id ∧ id < s.posted) →
        f.call ≠ (FixedFunction.of c s.posted).call := by
      rintro f ⟨c', id, rfl, hlt⟩ heq
      simp only [FixedFunction.call_of, CallResult.ran.injEq] at heq
      omega
    constructor
    · exact hqueue
    · intro i f hf
      obtain ⟨c', id, hof, hlt⟩ := h.accepted i f hf
      exact ⟨c', id, hof, Nat.lt_succ_of_lt hlt⟩
    · exact h.distinct
    · intro p' f hf
      rcases hvalue p' f hf with ⟨-, rfl⟩ | ⟨-, hf'⟩
      · exact ⟨c, s.posted, rfl, Nat.lt_succ_self _⟩
      · obtain ⟨c', id, hof, hlt⟩ := h.value p' f hf'
        exact ⟨c', id, hof, Nat.lt_succ_of_lt hlt⟩
    · intro p' f i g hf hg
      rcases hvalue p' f hf with ⟨-, rfl⟩ | ⟨-, hf'⟩
      · exact hnew g (h.accepted i g hg)
      · exact h.value_new p' f i g hf' hg
    · intro p₁ p₂ f g hf hg heq
      rcases hvalue p₁ f hf with ⟨hp₁, rfl⟩ | ⟨-, hf'⟩
      · rcases hvalue p₂ g hg with ⟨hp₂, -⟩ | ⟨-, hg'⟩
        · rw [hp₁, hp₂]
        · exact absurd heq.symm (hnew g (h.value p₂ g hg'))
      · rcases hvalue p₂ g hg with ⟨-, rfl⟩ | ⟨-, hg'⟩
        · exact absurd heq (hnew f (h.value p₁ f hf'))
        · exact h.value_distinct p₁ p₂ f g hf' hg' heq
    · exact h.done
    · exact h.handler
  · cases hq

/-- A step of `tryPost`. -/
theorem inv_pushStep {spurious : Bool} (h : Inv n s)
    (hs : s.step n (.pushStep p spurious) = some s') : Inv n s' := by
  obtain ⟨q, hq, rfl⟩ := Option.map_eq_some_iff.mp hs
  have hqueue := QueueState.inv_step _ _ _ h.queue hq
  obtain ⟨hpop, hpos, hother, heffect⟩ := QueueState.pushStep_effect hq
  -- a step creates no value: what a producer holds now it held before
  have hvalue : ∀ p' f, (q.push p').value = some f → (s.queue.push p').value = some f := by
    intro p' f hf
    by_cases hp : p' = p
    · subst hp
      rcases heffect with ⟨-, hkeep⟩ | ⟨_, -, -, hnone⟩
      · exact hkeep f hf
      · rw [hnone] at hf
        cases hf
    · rwa [hother p' hp] at hf
  have hpending : ∀ w, ({ s with queue := q } : PoolState π ω).pending w = s.pending w := by
    intro w
    simp only [pending, hpop]
  have hhandler : ∀ w, ({ s with queue := q } : PoolState π ω).HandlerOk w := fun w =>
    (h.handler w).mono rfl (by rw [hpop]) rfl fun _ hid => hid
  have hdistinct := fun p₁ p₂ f g hf hg => h.value_distinct p₁ p₂ f g (hvalue p₁ f hf) (hvalue p₂ g hg)
  have hvalues := fun p' f hf => h.value p' f (hvalue p' f hf)
  rcases heffect with ⟨haccepted, -⟩ | ⟨data, hdata, haccepted, hnone⟩
  · -- no value is accepted, so all facts about accepted ones stand
    refine ⟨hqueue, ?_, ?_, hvalues, ?_, hdistinct, ?_, hhandler⟩
    · rw [haccepted]
      exact h.accepted
    · rw [haccepted]
      exact h.distinct
    · intro p' f i g hf hg
      exact h.value_new p' f i g (hvalue p' f hf) (haccepted ▸ hg)
    · intro id hid
      exact (h.done id hid).mono haccepted (Nat.le_of_eq hpos.symm) fun w t ht =>
        .inl (hpending w ▸ ht)
  · -- the value of `p` moves from the producer to the end of the history
    have hget : ∀ (i : Nat) f, q.accepted[i]? = some f →
        s.queue.accepted[i]? = some f ∨ i = s.queue.accepted.length ∧ f = data :=
      fun i f hf => QueueState.getElem?_accepted_append (haccepted ▸ hf)
    refine ⟨hqueue, ?_, ?_, hvalues, ?_, hdistinct, ?_, hhandler⟩
    · intro i f hf
      rcases hget i f hf with hold | ⟨-, rfl⟩
      · exact h.accepted i f hold
      · exact h.value p f hdata
    · intro i j f g hf hg heq
      -- the new value differs from the old ones because a producer still held it
      rcases hget i f hf with hf' | ⟨hi, rfl⟩ <;> rcases hget j g hg with hg' | ⟨hj, rfl⟩
      · exact h.distinct i j f g hf' hg' heq
      · exact absurd heq (h.value_new p g i f hdata hf')
      · exact absurd heq.symm (h.value_new p f j g hdata hg')
      · rw [hi, hj]
    · intro p' f i g hf hg heq
      rcases hget i g hg with hg' | ⟨-, rfl⟩
      · exact h.value_new p' f i g (hvalue p' f hf) hg' heq
      · have hp := h.value_distinct p' p f g (hvalue p' f hf) hdata heq.symm
        rw [hp, hnone] at hf
        cases hf
    · intro id hid
      obtain ⟨t, f, ht, hf, hcall, hw⟩ := h.done id hid
      refine ⟨t, f, hpos ▸ ht, ?_, hcall, fun w => by rw [hpending w]; exact hw w⟩
      show q.accepted[t]? = some f
      rw [haccepted, List.getElem?_append_left (List.getElem?_eq_some_iff.mp hf).1]
      exact hf

/-- A step of a worker. -/
theorem inv_work {spurious : Bool} (h : Inv n s) (hs : s.work n w spurious = some s') :
    Inv n s' := by
  unfold work at hs
  cases hworker : s.worker w with
  | check =>
      simp only [hworker] at hs
      split at hs
      · exact inv_beginPop h (by simp [hworker]) hs
      · cases hs
        exact inv_setWorker h (by simp [hworker]) (by simp) (by simp)
  | pop =>
      simp only [hworker] at hs
      exact inv_popStep h hworker hs
  | flag =>
      simp only [hworker, Option.some.injEq] at hs
      subst hs
      refine inv_setWorker h (by simp [hworker]) ?_ ?_ <;> split <;> simp
  | waiting =>
      simp only [hworker] at hs
      exact inv_beginPop h (by simp [hworker]) hs
  | call popped =>
      simp only [hworker, callHandler] at hs
      cases popped with
      | true =>
          -- after a pop the variable holds the callable of its ticket
          obtain ⟨c, id, hof, -, hinv⟩ := call_popped h hworker
          rw [hof, FixedFunction.call_of] at hs
          cases hs
          exact hinv
      | false =>
          -- after a failed pop it holds nothing, or what ran the last time
          rcases call_stale h hworker with hempty | ⟨c, id, hof, -, hinv⟩
          · rw [hempty, FixedFunction.call_empty] at hs
            cases hs
            exact inv_setWorker h (by simp [hworker]) (by simp) (by simp)
          · rw [hof, FixedFunction.call_of] at hs
            cases hs
            exact hinv
  | run =>
      simp only [hworker, Option.some.injEq] at hs
      subst hs
      exact inv_setWorker h (by simp [hworker]) (by simp) (by simp)
  | exited =>
      simp only [hworker] at hs
      cases hs

/-- **The step lemma**: every action of the pool keeps its invariant. -/
theorem inv_step (s : PoolState π ω) (act : PoolAction π ω) (s' : PoolState π ω) (h : Inv n s)
    (hs : s.step n act = some s') : Inv n s' := by
  cases act with
  | post p c => exact inv_post h hs
  | pushStep p spurious => exact inv_pushStep h hs
  | work w spurious => exact inv_work h hs
  | stop w =>
      cases hs
      exact ⟨h.queue, h.accepted, h.distinct, h.value, h.value_new, h.value_distinct, h.done,
        h.handler⟩

/-! ## When a handler is invoked twice -/

omit [DecidableEq π] [DecidableEq ω] in
/-- The condition on a step: a worker whose wait was ended by the cleared flag, after a `pop` that
failed, has no handler left to call. -/
def NothingStale (s : PoolState π ω) : PoolAction π ω → Prop
  | .work w _ => s.worker w = .call false → (s.handler w).m_method_ptr = false
  | _ => True

/-- Only a call adds to the invoked handlers. -/
theorem invoked_of_not_call {act : PoolAction π ω} (hs : s.step n act = some s')
    (hcall : ∀ w spurious popped, act = .work w spurious → s.worker w ≠ .call popped) :
    s'.invoked = s.invoked := by
  -- a pop that starts invokes nothing
  have hbegin : ∀ w, s.beginPop n w = some s' → s'.invoked = s.invoked := by
    intro w hw
    obtain ⟨q, -, rfl⟩ := Option.map_eq_some_iff.mp hw
    rfl
  cases act with
  | post p c =>
      obtain ⟨q, -, rfl⟩ := Option.map_eq_some_iff.mp hs
      rfl
  | pushStep p spurious =>
      obtain ⟨q, -, rfl⟩ := Option.map_eq_some_iff.mp hs
      rfl
  | stop w =>
      cases hs
      rfl
  | work w spurious =>
      have hnot := fun popped => hcall w spurious popped rfl
      simp only [step, work] at hs
      split at hs
      · split at hs
        · exact hbegin w hs
        · cases hs
          rfl
      · unfold popStep at hs
        split at hs
        · cases hs
          rfl
        · cases hs
        · cases hs
          rfl
        · obtain ⟨q, -, rfl⟩ := Option.map_eq_some_iff.mp hs
          rfl
      · cases hs
        rfl
      · exact hbegin w hs
      · next popped hpc => exact absurd hpc (hnot popped)
      · cases hs
        rfl
      · cases hs

/-- **One step invokes nothing twice just when nothing stale is called.** -/
theorem nodup_step (s : PoolState π ω) (act : PoolAction π ω) (s' : PoolState π ω) (h : Inv n s)
    (hs : s.step n act = some s') :
    s'.invoked.Nodup ↔ s.invoked.Nodup ∧ NothingStale s act := by
  -- only a call of the handler adds to the list
  by_cases hact : ∃ w spurious popped, act = .work w spurious ∧ s.worker w = .call popped
  · obtain ⟨w, spurious, popped, rfl, hworker⟩ := hact
    simp only [step, work, hworker, callHandler] at hs
    cases popped with
    | true =>
        obtain ⟨c, id, hof, hid, -⟩ := call_popped h hworker
        rw [hof, FixedFunction.call_of] at hs
        cases hs
        have hquiet : NothingStale s (.work w spurious) := by
          intro hfalse
          rw [hworker] at hfalse
          cases hfalse
        show (s.invoked ++ [id]).Nodup ↔ _
        rw [and_iff_left hquiet, List.nodup_append]
        -- the number has not been invoked: its ticket was pending until now
        refine and_iff_left ⟨List.nodup_singleton id, fun a ha b hb heq => ?_⟩
        rw [List.mem_singleton] at hb
        exact hid (hb ▸ heq ▸ ha)
    | false =>
        rcases call_stale h hworker with hempty | ⟨c, id, hof, hid, -⟩
        · rw [hempty, FixedFunction.call_empty] at hs
          cases hs
          refine (and_iff_left fun _ => ?_).symm
          rw [hempty]
          rfl
        · rw [hof, FixedFunction.call_of] at hs
          cases hs
          show (s.invoked ++ [id]).Nodup ↔ _
          -- the number is on the list already
          refine iff_of_false (fun hnodup => ?_) fun hquiet => ?_
          · exact (List.nodup_append.mp hnodup).2.2 id hid id (List.mem_singleton.mpr rfl) rfl
          · have hnull := hquiet.2 hworker
            rw [hof] at hnull
            cases c <;> cases hnull
  · have hcall : ∀ w spurious popped, act = .work w spurious → s.worker w ≠ .call popped := by
      intro w spurious popped heq hworker
      exact hact ⟨w, spurious, popped, heq, hworker⟩
    rw [invoked_of_not_call hs hcall]
    refine (and_iff_left ?_).symm
    cases act with
    | work w spurious => exact fun hfalse => absurd hfalse (hcall w spurious false rfl)
    | _ => trivial

/-- **Handlers are invoked at most once exactly in runs where nothing stale is called**: for every
number of workers and posters, every sequence of `tryPost` calls with arbitrary callables, and every
interleaving with the workers and with the destructor. -/
theorem invoked_at_most_once_iff (n : QueueSize) (acts : List (PoolAction π ω)) (s : PoolState π ω)
    (h : run (step n) init acts = some s) :
    (∀ id, s.invoked.count id ≤ 1) ↔ Guarded (step n) NothingStale init acts := by
  have hiff := guarded_iff (G := NothingStale) (P := fun s : PoolState π ω => s.invoked.Nodup)
    inv_step nodup_step (inv_init n) h
  rw [← List.nodup_iff_count_le_one, hiff]
  exact and_iff_right List.nodup_nil

end Steps

/-- One poster hands over one job, the only worker runs it. -/
def oneJob : List (PoolAction Unit Unit) :=
  [.post () .object] ++ List.replicate 5 (.pushStep () false) ++
    List.replicate 9 (.work () false)

theorem one_job_at_most_once_iff :
    ∃ s, run (step ⟨2, by decide⟩) init oneJob = some s ∧
      ((∀ id, s.invoked.count id ≤ 1) ↔ Guarded (step ⟨2, by decide⟩) NothingStale init oneJob) := by
  have hrun : (run (step ⟨2, by decide⟩) init oneJob).isSome := by rfl
  obtain ⟨s, hs⟩ := Option.isSome_iff_exists.mp hrun
  exact ⟨s, hs, invoked_at_most_once_iff _ _ s hs⟩

/-- After its job the worker goes to sleep, and is woken by the destructor. -/
def oneJobThenStop : List (PoolAction Unit Unit) :=
  oneJob ++ List.replicate 5 (.work () false) ++ [.stop ()] ++ List.replicate 6 (.work () false)

theorem handler_invoked_twice :
    ∃ s, run (step ⟨2, by decide⟩) init oneJobThenStop = some s ∧
      ¬ ∀ id, s.invoked.count id ≤ 1 := by
  have hrun : (run (step ⟨2, by decide⟩) init oneJobThenStop).map invoked = some [0, 0] := by rfl
  obtain ⟨s, hs, hinvoked⟩ := Option.map_eq_some_iff.mp hrun
  refine ⟨s, hs, fun h => ?_⟩
  have htwice := h 0
  rw [hinvoked] at htwice
  exact absurd htwice (by decide)

end PoolState

end LimbWorker.ThreadPool
