import LimbWorker.AppConfig.JsonParser
import LimbWorker.ThreadPool.AtMostOnce
import LimbWorker.ThreadPool.Options
import Mathlib.Data.List.Perm.Subperm

/-!
# Flow control

The consumer of `ProcessImage`, the pool it posts to, and a broker that keeps at most a fixed number
of deliveries unsettled. Deliveries are numbered in order; the job of delivery `tag` is handler `tag`
of the pool. A tag is settled some time after its handler was called, or after it was rejected
because `tryPost` returned false. The pool is destroyed only after the event loop has ended, so no
worker is stopped here.

Whether the queue can be found full depends on three numbers. The queue refuses a value when the cell
of the enqueue position still belongs to the previous round: because as many jobs wait as there are
cells, or because one consumer has not finished with a cell that the others have long left behind.
The second happens with two workers as soon as two deliveries may be unsettled.
-/

namespace LimbWorker.AppTransport

open AppConfig Lib ThreadPool

/-! ## The system -/

/-- The pool as the consumer uses it, from one thread. `refused` are the tags that `tryPost` did not
accept, `settled` those whose acknowledgement or rejection has reached the broker. -/
structure FlowState (ω : Type) where
  pool : PoolState Unit ω
  refused : List Nat
  settled : List Nat

/-- An action of the schedule: the next delivery, the next step of `tryPost`, the next step of a
worker, the broker learning that a tag is settled. -/
inductive FlowAction (ω : Type) where
  | deliver
  | pushStep (spurious : Bool)
  | work (w : ω) (spurious : Bool)
  | settle (tag : Nat)

namespace FlowState

variable {ω : Type} [DecidableEq ω] (n : QueueSize) (prefetch : Nat)

def init : FlowState ω := ⟨.init, [], []⟩

omit [DecidableEq ω] in
/-- The deliveries that the broker counts against the prefetch count. -/
def unsettled (s : FlowState ω) : Nat := s.pool.posted - s.settled.length

omit [DecidableEq ω] in
/-- What `tryPost` has just refused. -/
def refusal (p : PoolState Unit ω) : List Nat :=
  match p.queue.push () with
  | .full _ => [p.posted - 1]
  | _ => []

/-- One action. -/
def step (s : FlowState ω) : FlowAction ω → Option (FlowState ω)
  | .deliver =>
      if s.unsettled < prefetch then
        (s.pool.step n (.post () .object)).map fun p => { s with pool := p }
      else none
  | .pushStep spurious =>
      (s.pool.step n (.pushStep () spurious)).map fun p =>
        { s with pool := p, refused := s.refused ++ refusal p }
  | .work w spurious =>
      (s.pool.step n (.work w spurious)).map fun p => { s with pool := p }
  | .settle tag =>
      if (tag ∈ s.pool.invoked ∨ tag ∈ s.refused) ∧ tag ∉ s.settled then
        some { s with settled := s.settled ++ [tag] }
      else none

/-! ## The invariant of runs without a refusal -/

/-- Where the consumer is in `tryPost`, when nothing was refused: the value on its way is the job of
the latest delivery, and its ticket will be the number of that delivery. -/
def PushOk (posted accepted : Nat) : PushPc (FixedFunction Nat) → Prop
  | .load f => f = .of .object accepted ∧ posted = accepted + 1
  | .sequence f pos | .exchange f pos =>
      f = .of .object accepted ∧ posted = accepted + 1 ∧ pos = accepted
  | .full _ => False
  | _ => posted = accepted

omit [DecidableEq ω] in
/-- Nothing was refused: tickets are delivery numbers, and what is settled was called. -/
structure Inv (n : QueueSize) (prefetch : Nat) (s : FlowState ω) : Prop where
  pool : s.pool.Inv n
  popping : ∀ w, s.pool.worker w ≠ .pop → (s.pool.queue.pop w).outside
  last : Subsingleton ω → ∀ w t, (s.pool.queue.pop w).claim = some t →
    t + 1 = s.pool.queue.queue.m_dequeue_pos
  tickets : ∀ (t : Nat) f, s.pool.queue.accepted[t]? = some f → f = .of .object t
  push : PushOk s.pool.posted s.pool.queue.accepted.length (s.pool.queue.push ())
  refused : s.refused = []
  nodup : s.settled.Nodup
  settled : ∀ tag ∈ s.settled, tag ∈ s.pool.invoked
  window : s.pool.posted ≤ s.settled.length + prefetch

section Invariant

variable {n : QueueSize} {prefetch : Nat} {s s' : FlowState ω}

omit [DecidableEq ω] in
theorem inv_init (n : QueueSize) (prefetch : Nat) : Inv n prefetch (init : FlowState ω) where
  pool := PoolState.inv_init n
  popping := fun _ _ => rfl
  last := fun _ _ _ ht => by simp [init, PoolState.init, QueueState.init, PopPc.claim] at ht
  tickets := fun _ _ hf => by simp [init, PoolState.init, QueueState.init] at hf
  push := rfl
  refused := rfl
  nodup := List.nodup_nil
  settled := fun _ htag => by simp [init] at htag
  window := Nat.zero_le _

omit [DecidableEq ω] in
/-- A tag whose job was called lies below the dequeue position, and no worker is still fetching it. -/
theorem Inv.lt_of_invoked (h : Inv n prefetch s) {tag : Nat} (htag : tag ∈ s.pool.invoked) :
    tag < s.pool.queue.queue.m_dequeue_pos ∧ ∀ w, s.pool.pending w ≠ some tag := by
  obtain ⟨t, f, hlt, hf, hcall, hnone⟩ := h.pool.done tag htag
  rw [h.tickets t f hf, FixedFunction.call_of, CallResult.ran.injEq] at hcall
  subst hcall
  exact ⟨hlt, hnone⟩

/-- Distinct numbers below a bound are no more than the bound. -/
theorem length_le_of_nodup_of_lt {l : List Nat} {b : Nat} (hnodup : l.Nodup)
    (hlt : ∀ x ∈ l, x < b) : l.length ≤ b := by
  have hsub : l ⊆ List.range b := fun x hx => List.mem_range.mpr (hlt x hx)
  simpa using (hnodup.subperm hsub).length_le

omit [DecidableEq ω] in
/-- Only what was dequeued is settled. -/
theorem Inv.settled_length_le (h : Inv n prefetch s) :
    s.settled.length ≤ s.pool.queue.queue.m_dequeue_pos := by
  apply length_le_of_nodup_of_lt h.nodup
  intro tag htag
  exact (h.lt_of_invoked (h.settled tag htag)).1

omit [DecidableEq ω] in
/-- A worker inside a cell has not settled the job it is fetching. -/
theorem Inv.settled_length_lt (h : Inv n prefetch s) {w : ω} {t : Nat}
    (ht : (s.pool.queue.pop w).ticket = some t) :
    s.settled.length + 1 ≤ s.pool.queue.queue.m_dequeue_pos := by
  have hpop : s.pool.worker w = .pop := by
    by_contra hne
    have houtside := h.popping w hne
    cases hpc : s.pool.queue.pop w <;> simp_all [PopPc.outside, PopPc.ticket]
  have hpending : s.pool.pending w = some t := by
    simp only [PoolState.pending, hpop]
    exact PopPc.claim_of_ticket ht
  have hnodup : (t :: s.settled).Nodup := by
    apply List.Nodup.cons _ h.nodup
    intro hmem
    exact (h.lt_of_invoked (h.settled t hmem)).2 w hpending
  apply length_le_of_nodup_of_lt hnodup
  intro tag htag
  rcases List.mem_cons.mp htag with rfl | hmem
  · exact (h.pool.queue.pop_ticket ht).1
  · exact (h.lt_of_invoked (h.settled tag hmem)).1

/-- The consumer takes a delivery from the broker. -/
theorem inv_deliver (h : Inv n prefetch s) (hs : s.step n prefetch .deliver = some s') :
    Inv n prefetch s' := by
  simp only [step] at hs
  split at hs
  · next hroom =>
    obtain ⟨p, hp, rfl⟩ := Option.map_eq_some_iff.mp hs
    have hpool := PoolState.inv_step _ _ _ h.pool hp
    obtain ⟨q, hq, rfl⟩ := Option.map_eq_some_iff.mp hp
    simp only [QueueState.step] at hq
    split at hq
    · next houtside =>
      cases hq
      -- between two posts everything posted has been accepted
      have hposted : s.pool.posted = s.pool.queue.accepted.length := by
        have hok := h.push
        cases hpc : s.pool.queue.push () <;> simp_all [PushPc.outside, PushOk]
      refine ⟨hpool, h.popping, h.last, h.tickets, ?_, h.refused, h.nodup, h.settled, ?_⟩
      · simp [PushOk, hposted]
      · have hwindow := h.window
        unfold unsettled at hroom
        show s.pool.posted + 1 ≤ s.settled.length + prefetch
        omega
    · cases hq
  · cases hs

/-- A step of a worker. -/
theorem inv_work (h : Inv n prefetch s) {w : ω} {spurious : Bool}
    (hs : s.step n prefetch (.work w spurious) = some s') : Inv n prefetch s' := by
  obtain ⟨p, hp, rfl⟩ := Option.map_eq_some_iff.mp hs
  have hpool := PoolState.inv_step _ _ _ h.pool hp
  -- the worker touches its own pop and the list of what it ran
  have heffect := PoolState.work_effect (h.popping w) hp
  refine ⟨hpool, ?_, ?_, ?_, ?_, h.refused, h.nodup, ?_, ?_⟩
  · intro w' hw'
    by_cases hw : w' = w
    · subst hw
      exact heffect.popping hw'
    · obtain ⟨hworker, hpop⟩ := heffect.others w' hw
      show (p.queue.pop w').outside
      rw [hpop]
      exact h.popping w' (hworker ▸ hw')
  · intro hsingle w' t ht
    obtain rfl := Subsingleton.elim w' w
    show t + 1 = p.queue.queue.m_dequeue_pos
    rcases heffect.claim with ⟨hpos, hsame⟩ | ⟨hpos, hnew⟩
    · rw [hpos]
      exact h.last hsingle w' t (hsame t ht)
    · have hsome : some s.pool.queue.queue.m_dequeue_pos = some t := hnew ▸ ht
      cases hsome
      exact hpos.symm
  · show ∀ (t : Nat) f, p.queue.accepted[t]? = some f → _
    rw [heffect.accepted]
    exact h.tickets
  · show PushOk p.posted p.queue.accepted.length (p.queue.push ())
    rw [heffect.posted, heffect.accepted, heffect.push]
    exact h.push
  · exact fun tag htag => heffect.invoked tag (h.settled tag htag)
  · show p.posted ≤ s.settled.length + prefetch
    rw [heffect.posted]
    exact h.window

/-- The broker learns that a tag is settled. -/
theorem inv_settle (h : Inv n prefetch s) {tag : Nat}
    (hs : s.step n prefetch (.settle tag) = some s') : Inv n prefetch s' := by
  simp only [step] at hs
  split at hs
  · next hcond =>
    cases hs
    obtain ⟨hcalled, hnew⟩ := hcond
    -- nothing has been refused, so what is settled has been run
    have hinvoked : tag ∈ s.pool.invoked := by
      rcases hcalled with hinvoked | hrefused
      · exact hinvoked
      · rw [h.refused] at hrefused
        cases hrefused
    refine ⟨h.pool, h.popping, h.last, h.tickets, h.push, h.refused, ?_, ?_, ?_⟩
    · exact List.nodup_append.mpr ⟨h.nodup, List.nodup_singleton tag,
        fun a ha b hb heq => hnew (List.mem_singleton.mp hb ▸ heq ▸ ha)⟩
    · intro tag' htag'
      rcases List.mem_append.mp htag' with hold | hlast
      · exact h.settled tag' hold
      · exact List.mem_singleton.mp hlast ▸ hinvoked
    · have hwindow := h.window
      show s.pool.posted ≤ (s.settled ++ [tag]).length + prefetch
      rw [List.length_append]
      omega
  · cases hs

/-! ## Numbers that fit -/

section Fits

variable (hfits : prefetch ≤ 1 ∨ Subsingleton ω ∧ prefetch ≤ n.size)

include hfits

omit [DecidableEq ω] in
/-- **The cell of the enqueue position is free** whenever the consumer looks at it. -/
theorem Inv.cell_free (h : Inv n prefetch s)
    (hposted : s.pool.posted = s.pool.queue.queue.m_enqueue_pos + 1) :
    s.pool.queue.queue.m_enqueue_pos ≤
      s.pool.queue.queue.sequenceAt n s.pool.queue.queue.m_enqueue_pos := by
  have hn := n.two_le
  have hbounds := h.pool.queue.bounds
  have hwindow := h.window
  by_contra hbehind
  by_cases hfull : s.pool.queue.queue.m_enqueue_pos < s.pool.queue.queue.m_dequeue_pos + n.size
  · rcases h.pool.queue.outer _ (Nat.le_refl _) hfull with hfree | ⟨t, w, ht, -, hticket⟩
    · omega
    · -- a consumer is still in the cell, so two jobs at least are not settled
      have hlength := h.settled_length_lt hticket
      rcases hfits with hone | ⟨hsingle, hroom⟩
      · omega
      · have hlast := h.last hsingle w t (PopPc.claim_of_ticket hticket)
        omega
  · -- as many jobs wait as there are cells
    have hlength := h.settled_length_le
    omega

omit [DecidableEq ω] in
/-- A step of `push` by the only producer, when the cell is free. -/
theorem pushOk_pushStep (h : Inv n prefetch s) {spurious : Bool}
    {q : QueueState Unit ω (FixedFunction Nat)}
    (hq : s.pool.queue.pushStep n () spurious = some q) :
    PushOk s.pool.posted q.accepted.length (q.push ()) ∧
      ∀ (t : Nat) f, q.accepted[t]? = some f → f = .of .object t := by
  have hok := h.push
  have hlength := h.pool.queue.length
  unfold QueueState.pushStep at hq
  split at hq
  · next f hpc =>
    rw [hpc] at hok
    cases hq
    exact ⟨by simp [PushOk, hok.1, hok.2, hlength], h.tickets⟩
  · next f pos hpc =>
    rw [hpc] at hok
    obtain ⟨hf, hposted, rfl⟩ := hok
    -- the prefetch count keeps the cell free, so the branch of a full queue is not taken
    have hfree := h.cell_free hfits (hlength ▸ hposted)
    rw [← hlength] at hfree
    have hsequence : s.pool.queue.accepted.length ≤
        (s.pool.queue.queue.cell n s.pool.queue.accepted.length).sequence := hfree
    simp only at hq
    split at hq
    · cases hq
      exact ⟨by simp [PushOk, hf, hposted], h.tickets⟩
    · split at hq
      · omega
      · cases hq
        exact ⟨by simp [PushOk, hf, hposted], h.tickets⟩
  · next f pos hpc =>
    rw [hpc] at hok
    obtain ⟨hf, hposted, rfl⟩ := hok
    split at hq
    · cases hq
      -- the value is accepted under the number of its delivery
      refine ⟨by simp [PushOk, hposted], fun t g hg => ?_⟩
      rcases QueueState.getElem?_accepted_append hg with hold | ⟨rfl, rfl⟩
      · exact h.tickets t g hold
      · exact hf
    · cases hq
      exact ⟨by simp [PushOk, hf, hposted, hlength], h.tickets⟩
  · next f pos hpc =>
    rw [hpc] at hok
    cases hq
    exact ⟨by simpa [PushOk] using hok, h.tickets⟩
  · next pos hpc =>
    rw [hpc] at hok
    cases hq
    exact ⟨by simpa [PushOk] using hok, h.tickets⟩
  · cases hq

/-- A step of `tryPost`. -/
theorem inv_pushStep (h : Inv n prefetch s) {spurious : Bool}
    (hs : s.step n prefetch (.pushStep spurious) = some s') : Inv n prefetch s' := by
  obtain ⟨p, hp, rfl⟩ := Option.map_eq_some_iff.mp hs
  have hpool := PoolState.inv_step _ _ _ h.pool hp
  obtain ⟨q, hq, rfl⟩ := Option.map_eq_some_iff.mp hp
  obtain ⟨hpop, hpos, -, -⟩ := QueueState.pushStep_effect hq
  obtain ⟨hpush, htickets⟩ := pushOk_pushStep hfits h hq
  refine ⟨hpool, ?_, ?_, htickets, hpush, ?_, h.nodup, h.settled, h.window⟩
  · intro w hw
    show (q.pop w).outside
    rw [hpop]
    exact h.popping w hw
  · intro hsingle w t ht
    show t + 1 = q.queue.m_dequeue_pos
    rw [hpos]
    apply h.last hsingle w t
    rw [← hpop]
    exact ht
  · show s.refused ++ refusal _ = []
    rw [h.refused, List.nil_append]
    cases hpc : q.push () <;> simp_all [refusal, PushOk]

/-- **The step lemma**: while the numbers fit, nothing is refused. -/
theorem inv_step (s : FlowState ω) (act : FlowAction ω) (s' : FlowState ω) (h : Inv n prefetch s)
    (hs : s.step n prefetch act = some s') : Inv n prefetch s' := by
  cases act with
  | deliver => exact inv_deliver h hs
  | pushStep spurious => exact inv_pushStep hfits h hs
  | work w spurious => exact inv_work h hs
  | settle tag => exact inv_settle h hs

end Fits

end Invariant

end FlowState

end LimbWorker.AppTransport
