import LimbWorker.ThreadPool.Queue

/-!
# The invariant of the queue

A *ticket* is a position that a compare-exchange handed out: to a producer, which then fills the cell
of that position, and later to a consumer, which empties it. Let `D ≤ E` be the dequeue and the enqueue
position. The cells are exactly the cells of the positions `D, …, D + size - 1`, and each of them is in
one of four phases, told apart by its sequence:

* position `w` with `D ≤ w < E` is being written (`w`, by the producer with ticket `w`) or full
  (`w + 1`, holding the value accepted as number `w`);
* position `w` with `E ≤ w < D + size` is free (`w`) or still being read (`w - size + 1`, by the
  consumer with ticket `w - size`).

Everything else follows: who holds a ticket, and that nobody else holds the same one.
-/

namespace LimbWorker.ThreadPool

open Lib

/-! ## Cells after a store -/

namespace MPMCBoundedQueue

variable {T : Type} (n : QueueSize) (q : MPMCBoundedQueue T) (pos w seq : Nat) (data : Option T)

def sequenceAt (w : Nat) : Nat := (q.cell n w).sequence

def dataAt (w : Nat) : Option T := (q.cell n w).data

@[simp] theorem enqueue_storeSequence :
    (q.storeSequence n pos seq).m_enqueue_pos = q.m_enqueue_pos := rfl
@[simp] theorem dequeue_storeSequence :
    (q.storeSequence n pos seq).m_dequeue_pos = q.m_dequeue_pos := rfl
@[simp] theorem enqueue_storeData :
    (q.storeData n pos data).m_enqueue_pos = q.m_enqueue_pos := rfl
@[simp] theorem dequeue_storeData :
    (q.storeData n pos data).m_dequeue_pos = q.m_dequeue_pos := rfl

@[simp] theorem sequenceAt_storeSequence :
    (q.storeSequence n pos seq).sequenceAt n w =
      if n.index w = n.index pos then seq else q.sequenceAt n w := by
  unfold sequenceAt cell storeSequence
  dsimp only
  split <;> rfl

@[simp] theorem dataAt_storeSequence : (q.storeSequence n pos seq).dataAt n w = q.dataAt n w := by
  unfold dataAt cell storeSequence
  dsimp only
  split <;> rfl

@[simp] theorem sequenceAt_storeData :
    (q.storeData n pos data).sequenceAt n w = q.sequenceAt n w := by
  unfold sequenceAt cell storeData
  dsimp only
  split <;> rfl

@[simp] theorem dataAt_storeData :
    (q.storeData n pos data).dataAt n w =
      if n.index w = n.index pos then data else q.dataAt n w := by
  unfold dataAt cell storeData
  dsimp only
  split <;> rfl

/-- The same cell has the same sequence. -/
theorem sequenceAt_congr {w w' : Nat} (h : n.index w = n.index w') :
    q.sequenceAt n w = q.sequenceAt n w' := by
  unfold sequenceAt cell
  rw [h]

end MPMCBoundedQueue

/-! ## Tickets -/

/-- The ticket of a producer that still has to publish its cell. -/
def PushPc.ticket {T : Type} : PushPc T → Option Nat
  | .write _ pos | .publish pos => some pos
  | _ => none

/-- The ticket of a consumer that still has to publish its cell. -/
def PopPc.ticket {T : Type} : PopPc T → Option Nat
  | .read pos | .publish pos _ => some pos
  | _ => none

/-- The ticket of a consumer that has taken one and not begun another `pop`. -/
def PopPc.claim {T : Type} : PopPc T → Option Nat
  | .read pos | .publish pos _ | .popped pos _ => some pos
  | _ => none

theorem PopPc.claim_of_ticket {T : Type} {pc : PopPc T} {t : Nat} (h : pc.ticket = some t) :
    pc.claim = some t := by
  cases pc <;> simp_all [PopPc.ticket, PopPc.claim]

/-- What a producer knows. -/
def PushPc.Ok {T : Type} (n : QueueSize) (q : MPMCBoundedQueue T) (accepted : List T) :
    PushPc T → Prop
  | .sequence _ pos => pos ≤ q.m_enqueue_pos
  | .exchange _ pos => pos ≤ q.m_enqueue_pos ∧ (pos = q.m_enqueue_pos → q.sequenceAt n pos = pos)
  | .write data pos =>
      q.m_dequeue_pos ≤ pos ∧ pos < q.m_enqueue_pos ∧ q.sequenceAt n pos = pos ∧
        accepted[pos]? = some data
  | .publish pos =>
      q.m_dequeue_pos ≤ pos ∧ pos < q.m_enqueue_pos ∧ q.sequenceAt n pos = pos ∧
        q.dataAt n pos = accepted[pos]?
  | _ => True

/-- What a consumer knows. -/
def PopPc.Ok {T : Type} (n : QueueSize) (q : MPMCBoundedQueue T) (accepted : List T) :
    PopPc T → Prop
  | .sequence pos => pos ≤ q.m_dequeue_pos
  | .exchange pos =>
      pos ≤ q.m_dequeue_pos ∧ (pos = q.m_dequeue_pos → q.sequenceAt n pos = pos + 1)
  | .read pos =>
      pos < q.m_dequeue_pos ∧ q.m_enqueue_pos ≤ pos + n.size ∧ q.sequenceAt n pos = pos + 1 ∧
        q.dataAt n pos = accepted[pos]?
  | .publish pos data =>
      pos < q.m_dequeue_pos ∧ q.m_enqueue_pos ≤ pos + n.size ∧ q.sequenceAt n pos = pos + 1 ∧
        data = accepted[pos]?
  | .popped pos data => pos < q.m_dequeue_pos ∧ data = accepted[pos]?
  | _ => True

/-! ## What a change leaves known -/

section Frame

variable {T : Type} {n : QueueSize} {q q' : MPMCBoundedQueue T} {l l' : List T}

/-- **The frame rule of producers**: what one knows survives a change in which the enqueue position does
not go back, a free cell at it stays free, and the cell and the value of its ticket are not touched. -/
theorem PushPc.Ok.frame {pc : PushPc T} (h : pc.Ok n q l)
    (hE : q.m_enqueue_pos ≤ q'.m_enqueue_pos)
    (hfree : q'.m_enqueue_pos = q.m_enqueue_pos →
      q.sequenceAt n q.m_enqueue_pos = q.m_enqueue_pos →
        q'.sequenceAt n q.m_enqueue_pos = q.m_enqueue_pos)
    (hticket : ∀ t, pc.ticket = some t → q'.m_dequeue_pos ≤ t ∧
      q'.sequenceAt n t = q.sequenceAt n t ∧ q'.dataAt n t = q.dataAt n t ∧ l'[t]? = l[t]?) :
    pc.Ok n q' l' := by
  cases pc with
  | sequence data pos => exact Nat.le_trans h hE
  | exchange data pos =>
      obtain ⟨hle, hseq⟩ := h
      refine ⟨Nat.le_trans hle hE, fun heq => ?_⟩
      -- the position is still the enqueue position, so that one has not moved
      have hpos : pos = q.m_enqueue_pos := by omega
      subst hpos
      exact hfree heq.symm (hseq rfl)
  | write data pos =>
      obtain ⟨-, hlt, hseq, hdata⟩ := h
      obtain ⟨hD', hseq', -, hl'⟩ := hticket pos rfl
      exact ⟨hD', Nat.lt_of_lt_of_le hlt hE, hseq'.trans hseq, hl'.trans hdata⟩
  | publish pos =>
      obtain ⟨-, hlt, hseq, hdata⟩ := h
      obtain ⟨hD', hseq', hdata', hl'⟩ := hticket pos rfl
      exact ⟨hD', Nat.lt_of_lt_of_le hlt hE, hseq'.trans hseq, hdata'.trans (hdata.trans hl'.symm)⟩
  | idle | load _ | pushed | full _ => trivial

/-- **The frame rule of consumers**, likewise: the dequeue position does not go back, a full cell at it
stays full, and the cell of the ticket and the value of the claim are not touched. -/
theorem PopPc.Ok.frame {pc : PopPc T} (h : pc.Ok n q l)
    (hD : q.m_dequeue_pos ≤ q'.m_dequeue_pos)
    (hfull : q'.m_dequeue_pos = q.m_dequeue_pos →
      q.sequenceAt n q.m_dequeue_pos = q.m_dequeue_pos + 1 →
        q'.sequenceAt n q.m_dequeue_pos = q.m_dequeue_pos + 1)
    (hticket : ∀ t, pc.ticket = some t → q'.m_enqueue_pos ≤ t + n.size ∧
      q'.sequenceAt n t = q.sequenceAt n t ∧ q'.dataAt n t = q.dataAt n t)
    (hclaim : ∀ t, pc.claim = some t → l'[t]? = l[t]?) : pc.Ok n q' l' := by
  cases pc with
  | sequence pos => exact Nat.le_trans h hD
  | exchange pos =>
      obtain ⟨hle, hseq⟩ := h
      refine ⟨Nat.le_trans hle hD, fun heq => ?_⟩
      have hpos : pos = q.m_dequeue_pos := by omega
      subst hpos
      exact hfull heq.symm (hseq rfl)
  | read pos =>
      obtain ⟨hlt, -, hseq, hdata⟩ := h
      obtain ⟨hE', hseq', hdata'⟩ := hticket pos rfl
      exact ⟨Nat.lt_of_lt_of_le hlt hD, hE', hseq'.trans hseq,
        hdata'.trans (hdata.trans (hclaim pos rfl).symm)⟩
  | publish pos v =>
      obtain ⟨hlt, -, hseq, hdata⟩ := h
      obtain ⟨hE', hseq', -⟩ := hticket pos rfl
      exact ⟨Nat.lt_of_lt_of_le hlt hD, hE', hseq'.trans hseq, hdata.trans (hclaim pos rfl).symm⟩
  | popped pos v => exact ⟨Nat.lt_of_lt_of_le h.1 hD, h.2.trans (hclaim pos rfl).symm⟩
  | idle | load | empty => trivial

end Frame

namespace QueueState

variable {π κ T : Type} {n : QueueSize} {s s' : QueueState π κ T} {p : π} {c : κ}

/-- The invariant of the queue. -/
structure Inv (n : QueueSize) (s : QueueState π κ T) : Prop where
  bounds : s.queue.m_dequeue_pos ≤ s.queue.m_enqueue_pos ∧
    s.queue.m_enqueue_pos ≤ s.queue.m_dequeue_pos + n.size
  length : s.accepted.length = s.queue.m_enqueue_pos
  inner : ∀ w, s.queue.m_dequeue_pos ≤ w → w < s.queue.m_enqueue_pos →
    (s.queue.sequenceAt n w = w ∧ ∃ p, (s.push p).ticket = some w) ∨
      (s.queue.sequenceAt n w = w + 1 ∧ s.queue.dataAt n w = s.accepted[w]?)
  outer : ∀ w, s.queue.m_enqueue_pos ≤ w → w < s.queue.m_dequeue_pos + n.size →
    s.queue.sequenceAt n w = w ∨
      ∃ t c, w = t + n.size ∧ s.queue.sequenceAt n w = t + 1 ∧ (s.pop c).ticket = some t
  push : ∀ p, (s.push p).Ok n s.queue s.accepted
  pop : ∀ c, (s.pop c).Ok n s.queue s.accepted
  push_inj : ∀ p p' t, (s.push p).ticket = some t → (s.push p').ticket = some t → p = p'
  pop_inj : ∀ c c' t, (s.pop c).claim = some t → (s.pop c').claim = some t → c = c'

theorem inv_init (n : QueueSize) : Inv n (init : QueueState π κ T) where
  bounds := by simp [init, MPMCBoundedQueue.new]
  length := rfl
  inner := fun w _ h => absurd h (Nat.not_lt_zero w)
  outer := fun w _ h => by
    left
    have hw : w < n.size := by simpa [init, MPMCBoundedQueue.new] using h
    show n.index w = w
    rw [n.index_eq_mod, Nat.mod_eq_of_lt hw]
  push := fun _ => trivial
  pop := fun _ => trivial
  push_inj := by simp [init, PushPc.ticket]
  pop_inj := by simp [init, PopPc.claim]

/-- Tickets of producers lie between the two positions. -/
theorem Inv.push_ticket (h : Inv n s) {t : Nat} (ht : (s.push p).ticket = some t) :
    s.queue.m_dequeue_pos ≤ t ∧ t < s.queue.m_enqueue_pos ∧ s.queue.sequenceAt n t = t := by
  have hok := h.push p
  cases hpc : s.push p <;> simp_all [PushPc.ticket, PushPc.Ok]

/-- Tickets of consumers lie before the dequeue position, by less than a queue length. -/
theorem Inv.pop_ticket (h : Inv n s) {t : Nat} (ht : (s.pop c).ticket = some t) :
    t < s.queue.m_dequeue_pos ∧ s.queue.m_enqueue_pos ≤ t + n.size ∧
      s.queue.sequenceAt n t = t + 1 := by
  have hok := h.pop c
  cases hpc : s.pop c <;> simp_all [PopPc.ticket, PopPc.Ok]

/-- What a consumer has claimed was dequeued. -/
theorem Inv.claim_lt (h : Inv n s) {t : Nat} (ht : (s.pop c).claim = some t) :
    t < s.queue.m_dequeue_pos := by
  have hok := h.pop c
  cases hpc : s.pop c <;> simp_all [PopPc.claim, PopPc.Ok]

/-- Two positions between the dequeue and the enqueue position have different cells. -/
theorem Inv.index_ne (h : Inv n s) {w w' : Nat} (hne : w ≠ w')
    (hw : s.queue.m_dequeue_pos ≤ w ∧ w < s.queue.m_enqueue_pos)
    (hw' : s.queue.m_dequeue_pos ≤ w' ∧ w' < s.queue.m_enqueue_pos) :
    n.index w ≠ n.index w' := by
  intro heq
  have hE := h.bounds.2
  exact hne (n.eq_of_index_eq heq (by omega) (by omega))

/-- Two producers with tickets are in different cells. -/
theorem Inv.push_index_ne (h : Inv n s) {p p' : π} {t t' : Nat} (hne : p' ≠ p)
    (ht : (s.push p).ticket = some t) (ht' : (s.push p').ticket = some t') :
    n.index t' ≠ n.index t := by
  obtain ⟨hD, hE, -⟩ := h.push_ticket ht
  obtain ⟨hD', hE', -⟩ := h.push_ticket ht'
  refine h.index_ne ?_ ⟨hD', hE'⟩ ⟨hD, hE⟩
  rintro rfl
  exact hne (h.push_inj p' p t' ht' ht)

/-- Two consumers with tickets are in different cells. -/
theorem Inv.pop_index_ne (h : Inv n s) {c c' : κ} {t t' : Nat} (hne : c' ≠ c)
    (ht : (s.pop c).ticket = some t) (ht' : (s.pop c').ticket = some t') :
    n.index t' ≠ n.index t := by
  intro heq
  obtain ⟨hlt, hle, -⟩ := h.pop_ticket ht
  obtain ⟨hlt', hle', -⟩ := h.pop_ticket ht'
  have hDE := h.bounds.1
  obtain rfl := n.eq_of_index_eq heq (by omega) (by omega)
  exact hne (h.pop_inj c' c t' (PopPc.claim_of_ticket ht') (PopPc.claim_of_ticket ht))

/-- A consumer is in no cell between the two positions. -/
theorem Inv.index_ne_pop (h : Inv n s) {w t : Nat} (ht : (s.pop c).ticket = some t)
    (hw : s.queue.m_dequeue_pos ≤ w ∧ w < s.queue.m_enqueue_pos) : n.index w ≠ n.index t := by
  intro heq
  obtain ⟨hlt, hle, -⟩ := h.pop_ticket ht
  have hpos := n.eq_of_index_eq heq (by omega) (by omega)
  omega

/-- At the dequeue position of a full cell: there is a value to take, and it is the next one. -/
theorem Inv.dequeue_full (h : Inv n s)
    (hseq : s.queue.sequenceAt n s.queue.m_dequeue_pos = s.queue.m_dequeue_pos + 1) :
    s.queue.m_dequeue_pos < s.queue.m_enqueue_pos ∧
      s.queue.dataAt n s.queue.m_dequeue_pos = s.accepted[s.queue.m_dequeue_pos]? := by
  have hn := n.two_le
  have hDE := h.bounds.1
  -- past the enqueue position the cell would be free, or still being read
  have hlt : s.queue.m_dequeue_pos < s.queue.m_enqueue_pos := by
    by_contra hge
    rcases h.outer s.queue.m_dequeue_pos (by omega) (by omega) with hfree | ⟨t, c, hw, hwseq, -⟩
    · omega
    · omega
  rcases h.inner s.queue.m_dequeue_pos (Nat.le_refl _) hlt with ⟨hw, -⟩ | ⟨-, hdata⟩
  · omega
  · exact ⟨hlt, hdata⟩

section Steps

variable [DecidableEq π] [DecidableEq κ]

omit [DecidableEq κ] in
@[simp] theorem push_setPush (pc : PushPc T) (p' : π) :
    (s.setPush p pc).push p' = if p' = p then pc else s.push p' := rfl
omit [DecidableEq π] in
@[simp] theorem pop_setPop (pc : PopPc T) (c' : κ) :
    (s.setPop c pc).pop c' = if c' = c then pc else s.pop c' := rfl

omit [DecidableEq κ] in
@[simp] theorem queue_setPush (pc : PushPc T) : (s.setPush p pc).queue = s.queue := rfl
omit [DecidableEq κ] in
@[simp] theorem pop_setPush (pc : PushPc T) : (s.setPush p pc).pop = s.pop := rfl
omit [DecidableEq κ] in
@[simp] theorem accepted_setPush (pc : PushPc T) : (s.setPush p pc).accepted = s.accepted := rfl
omit [DecidableEq π] in
@[simp] theorem queue_setPop (pc : PopPc T) : (s.setPop c pc).queue = s.queue := rfl
omit [DecidableEq π] in
@[simp] theorem push_setPop (pc : PopPc T) : (s.setPop c pc).push = s.push := rfl
omit [DecidableEq π] in
@[simp] theorem accepted_setPop (pc : PopPc T) : (s.setPop c pc).accepted = s.accepted := rfl

omit [DecidableEq κ] in
/-- A producer without a ticket moves to another place without one. -/
theorem inv_setPush (h : Inv n s) {pc : PushPc T} (hold : (s.push p).ticket = none)
    (hnew : pc.ticket = none) (hok : pc.Ok n s.queue s.accepted) : Inv n (s.setPush p pc) where
  bounds := h.bounds
  length := h.length
  inner := fun w hD hE => by
    rcases h.inner w hD hE with ⟨hseq, p', hp'⟩ | hfull
    · refine .inl ⟨hseq, p', ?_⟩
      -- who writes a cell has a ticket, so it is not the producer that moves
      have hne : p' ≠ p := by
        rintro rfl
        rw [hold] at hp'
        cases hp'
      simpa [hne] using hp'
    · exact .inr hfull
  outer := h.outer
  push := fun p' => by
    rw [push_setPush]
    split
    · exact hok
    · exact h.push p'
  pop := h.pop
  push_inj := fun p₁ p₂ t h₁ h₂ => by
    rw [push_setPush] at h₁ h₂
    split at h₁
    · rw [hnew] at h₁
      cases h₁
    · split at h₂
      · rw [hnew] at h₂
        cases h₂
      · exact h.push_inj p₁ p₂ t h₁ h₂
  pop_inj := h.pop_inj

omit [DecidableEq π] in
/-- A consumer without an unpublished ticket moves to a place without a claim. -/
theorem inv_setPop (h : Inv n s) {pc : PopPc T} (hold : (s.pop c).ticket = none)
    (hnew : pc.claim = none) (hok : pc.Ok n s.queue s.accepted) : Inv n (s.setPop c pc) where
  bounds := h.bounds
  length := h.length
  inner := h.inner
  outer := fun w hE hD => by
    rcases h.outer w hE hD with hfree | ⟨t, c', hw, hseq, hc'⟩
    · exact .inl hfree
    · refine .inr ⟨t, c', hw, hseq, ?_⟩
      -- who holds a ticket is somebody else
      have hne : c' ≠ c := by
        rintro rfl
        rw [hold] at hc'
        cases hc'
      simpa [hne] using hc'
  push := h.push
  pop := fun c' => by
    rw [pop_setPop]
    split
    · exact hok
    · exact h.pop c'
  push_inj := h.push_inj
  pop_inj := fun c₁ c₂ t h₁ h₂ => by
    rw [pop_setPop] at h₁ h₂
    split at h₁
    · rw [hnew] at h₁
      cases h₁
    · split at h₂
      · rw [hnew] at h₂
        cases h₂
      · exact h.pop_inj c₁ c₂ t h₁ h₂

omit [DecidableEq κ] in
/-- A producer whose compare-exchange succeeds takes the ticket `m_enqueue_pos`, whose cell is free. -/
theorem inv_accept (h : Inv n s) {data : T} {pos : Nat} (hpc : s.push p = .exchange data pos)
    (hpos : s.queue.m_enqueue_pos = pos) :
    Inv n ({ s with
      queue := { s.queue with m_enqueue_pos := pos + 1 }
      accepted := s.accepted ++ [data] }.setPush p (.write data pos)) := by
  subst hpos
  have hn := n.two_le
  obtain ⟨hDE, hEN⟩ := h.bounds
  have hseq : s.queue.sequenceAt n s.queue.m_enqueue_pos = s.queue.m_enqueue_pos := by
    have hok := h.push p
    rw [hpc] at hok
    exact hok.2 rfl
  have hget : ∀ w, w < s.queue.m_enqueue_pos → (s.accepted ++ [data])[w]? = s.accepted[w]? := by
    intro w hw
    rw [List.getElem?_append_left (by rw [h.length]; exact hw)]
  have hlast : (s.accepted ++ [data])[s.queue.m_enqueue_pos]? = some data := by
    rw [← h.length, List.getElem?_append_right (Nat.le_refl _), Nat.sub_self]
    rfl
  -- the cell of the new ticket is not the one of a ticket that is still in use
  have hroom : s.queue.m_enqueue_pos < s.queue.m_dequeue_pos + n.size := by
    by_contra hge
    have heq : s.queue.m_enqueue_pos = s.queue.m_dequeue_pos + n.size := by omega
    have hcell := s.queue.sequenceAt_congr n
      (show n.index s.queue.m_enqueue_pos = n.index s.queue.m_dequeue_pos by
        rw [heq, n.index_add_size])
    rcases h.inner s.queue.m_dequeue_pos (Nat.le_refl _) (by omega) with hw | hw <;> omega
  have hticket : ∀ p' t, (s.push p').ticket = some t → p' ≠ p := by
    rintro p' t ht rfl
    rw [hpc] at ht
    cases ht
  refine ⟨⟨?_, ?_⟩, ?_, ?_, ?_, ?_, ?_, ?_, h.pop_inj⟩
  · show s.queue.m_dequeue_pos ≤ s.queue.m_enqueue_pos + 1
    omega
  · show s.queue.m_enqueue_pos + 1 ≤ s.queue.m_dequeue_pos + n.size
    omega
  · simp [setPush, h.length]
  · -- the new ticket is one that is being written, and the older ones are as before
    intro w hD hE
    rcases Nat.lt_succ_iff_lt_or_eq.mp hE with hlt | rfl
    · rcases h.inner w hD hlt with ⟨hw, p', hp'⟩ | ⟨hw, hdata⟩
      · exact .inl ⟨hw, p', by simpa [hticket p' w hp'] using hp'⟩
      · exact .inr ⟨hw, hdata.trans (hget w hlt).symm⟩
    · exact .inl ⟨hseq, p, by simp [PushPc.ticket]⟩
  · intro w hE hD
    exact h.outer w (Nat.le_of_succ_le hE) hD
  · intro p'
    rw [push_setPush]
    split
    · -- the producer itself: its cell is free and its value is the last one accepted
      exact ⟨hDE, Nat.lt_succ_self _, hseq, hlast⟩
    · apply (h.push p').frame (Nat.le_succ _)
      · -- the enqueue position has moved, so nothing is promised of the cell there
        intro heq
        exact absurd heq (Nat.succ_ne_self _)
      · intro t ht
        obtain ⟨hD, hE, -⟩ := h.push_ticket ht
        exact ⟨hD, rfl, rfl, hget t hE⟩
  · intro c
    apply (h.pop c).frame
    · exact Nat.le_refl _
    · exact fun _ hfull => hfull
    · intro t ht
      obtain ⟨hlt, hle, ht'⟩ := h.pop_ticket ht
      refine ⟨?_, rfl, rfl⟩
      -- a cell that is still being read is not the one of the new ticket
      have hne : s.queue.m_enqueue_pos ≠ t + n.size := by
        intro heq
        have hcell := s.queue.sequenceAt_congr n
          (show n.index s.queue.m_enqueue_pos = n.index t by rw [heq, n.index_add_size])
        omega
      show s.queue.m_enqueue_pos + 1 ≤ t + n.size
      omega
    · intro t ht
      have hlt := h.claim_lt ht
      exact hget t (by omega)
  · intro p₁ p₂ t h₁ h₂
    rw [push_setPush] at h₁ h₂
    split at h₁
    · next hp₁ =>
      -- every other ticket is an older one
      cases h₁
      split at h₂
      · next hp₂ => rw [hp₁, hp₂]
      · have := (h.push_ticket h₂).2.1
        omega
    · split at h₂
      · cases h₂
        have := (h.push_ticket h₁).2.1
        omega
      · exact h.push_inj p₁ p₂ t h₁ h₂

omit [DecidableEq κ] in
/-- A producer stores its value in the cell of its ticket. -/
theorem inv_write (h : Inv n s) {data : T} {pos : Nat} (hpc : s.push p = .write data pos) :
    Inv n ({ s with queue := s.queue.storeData n pos (some data) }.setPush p (.publish pos)) := by
  have hok := h.push p
  rw [hpc] at hok
  obtain ⟨hD, hE, hseq, hdata⟩ := hok
  have hticket : ∀ p', (if p' = p then PushPc.publish pos else s.push p').ticket =
      (s.push p').ticket := by
    intro p'
    split
    · next hp' => rw [hp', hpc]; rfl
    · rfl
  constructor
  · exact h.bounds
  · exact h.length
  · intro w hDw hwE
    simp only [push_setPush, queue_setPush, hticket, MPMCBoundedQueue.sequenceAt_storeData,
      MPMCBoundedQueue.dataAt_storeData]
    rcases h.inner w hDw hwE with hwriting | ⟨hw, hfull⟩
    · exact .inl hwriting
    · -- a cell that is full is not the one that is being written
      have hne : w ≠ pos := by
        rintro rfl
        omega
      rw [if_neg (h.index_ne hne ⟨hDw, hwE⟩ ⟨hD, hE⟩)]
      exact .inr ⟨hw, hfull⟩
  · intro w hEw hwD
    simp only [queue_setPush, MPMCBoundedQueue.sequenceAt_storeData]
    exact h.outer w hEw hwD
  · intro p'
    simp only [push_setPush, queue_setPush, accepted_setPush]
    split
    · exact ⟨hD, hE, by simpa using hseq, by simpa using hdata.symm⟩
    · next hne =>
      -- another producer has another cell
      apply (h.push p').frame
      · exact Nat.le_refl _
      · exact fun _ hfree => by simpa using hfree
      · intro t ht
        have hcell := h.push_index_ne hne (by rw [hpc]; rfl) ht
        exact ⟨(h.push_ticket ht).1, by simp, by simp [hcell], rfl⟩
  · intro c
    simp only [pop_setPush, queue_setPush, accepted_setPush]
    apply (h.pop c).frame
    · exact Nat.le_refl _
    · exact fun _ hfull => by simpa using hfull
    · intro t ht
      -- and so has every consumer
      have hcell := (h.index_ne_pop ht ⟨hD, hE⟩).symm
      exact ⟨(h.pop_ticket ht).2.1, by simp, by simp [hcell]⟩
    · exact fun _ _ => rfl
  · intro p₁ p₂ t h₁ h₂
    rw [push_setPush, hticket] at h₁ h₂
    exact h.push_inj p₁ p₂ t h₁ h₂
  · exact h.pop_inj

omit [DecidableEq κ] in
/-- A producer publishes the cell of its ticket: from now on it is full. -/
theorem inv_publish (h : Inv n s) {pos : Nat} (hpc : s.push p = .publish pos) :
    Inv n ({ s with queue := s.queue.storeSequence n pos (pos + 1) }.setPush p .pushed) := by
  have hok := h.push p
  rw [hpc] at hok
  obtain ⟨hD, hE, hseq, hdata⟩ := hok
  have hEN := h.bounds.2
  -- a cell whose sequence is not `pos` is another one
  have hcell : ∀ w, s.queue.sequenceAt n w ≠ pos → n.index w ≠ n.index pos := by
    intro w hw heq
    exact hw ((s.queue.sequenceAt_congr n heq).trans hseq)
  constructor
  · exact h.bounds
  · exact h.length
  · intro w hDw hwE
    simp only [push_setPush, queue_setPush, accepted_setPush,
      MPMCBoundedQueue.sequenceAt_storeSequence, MPMCBoundedQueue.dataAt_storeSequence]
    -- the published cell is full from now on, the others are as they were
    by_cases hw : w = pos
    · subst hw
      exact .inr ⟨if_pos rfl, hdata⟩
    · rw [if_neg (h.index_ne hw ⟨hDw, hwE⟩ ⟨hD, hE⟩)]
      rcases h.inner w hDw hwE with ⟨hwseq, p', hp'⟩ | hfull
      · have hne : p' ≠ p := by
          rintro rfl
          rw [hpc] at hp'
          cases hp'
          exact hw rfl
        exact .inl ⟨hwseq, p', by rw [if_neg hne]; exact hp'⟩
      · exact .inr hfull
  · intro w hEw hwD
    -- a free position lies less than a queue length beyond the ticket
    have hne : n.index w ≠ n.index pos := by
      intro heq
      have hEw' : s.queue.m_enqueue_pos ≤ w := hEw
      have hwD' : w < s.queue.m_dequeue_pos + n.size := hwD
      have := n.eq_of_index_eq heq (by omega) (by omega)
      omega
    simp only [queue_setPush, pop_setPush, MPMCBoundedQueue.sequenceAt_storeSequence]
    rw [if_neg hne]
    exact h.outer w hEw hwD
  · intro p'
    simp only [push_setPush, queue_setPush, accepted_setPush]
    split
    · trivial
    · next hne =>
      apply (h.push p').frame
      · exact Nat.le_refl _
      · -- the cell at the enqueue position is free for it, so it is not the published one
        intro _ hfree
        show (s.queue.storeSequence n pos (pos + 1)).sequenceAt n s.queue.m_enqueue_pos = _
        rw [MPMCBoundedQueue.sequenceAt_storeSequence, if_neg (hcell _ (by omega))]
        exact hfree
      · intro t ht
        have hother := h.push_index_ne hne (by rw [hpc]; rfl) ht
        exact ⟨(h.push_ticket ht).1, by simp [hother], by simp, rfl⟩
  · intro c
    simp only [pop_setPush, queue_setPush, accepted_setPush]
    apply (h.pop c).frame
    · exact Nat.le_refl _
    · intro _ hfull
      -- the cell at the dequeue position was full before, so it is not the published one either
      have hne : n.index s.queue.m_dequeue_pos ≠ n.index pos := by
        intro heq
        have hpos := n.eq_of_index_eq heq (by omega) (by omega)
        rw [hpos, hseq] at hfull
        omega
      show (s.queue.storeSequence n pos (pos + 1)).sequenceAt n s.queue.m_dequeue_pos = _
      rw [MPMCBoundedQueue.sequenceAt_storeSequence, if_neg hne]
      exact hfull
    · intro t ht
      have hne := (h.index_ne_pop ht ⟨hD, hE⟩).symm
      exact ⟨(h.pop_ticket ht).2.1, by simp [hne], by simp⟩
    · exact fun _ _ => rfl
  · intro p₁ p₂ t h₁ h₂
    rw [push_setPush] at h₁ h₂
    split at h₁
    · cases h₁
    · split at h₂
      · cases h₂
      · exact h.push_inj p₁ p₂ t h₁ h₂
  · exact h.pop_inj

omit [DecidableEq π] in
/-- A consumer whose compare-exchange succeeds takes the ticket `m_dequeue_pos`, whose cell is full. -/
theorem inv_claim (h : Inv n s) {pos : Nat} (hpc : s.pop c = .exchange pos)
    (hpos : s.queue.m_dequeue_pos = pos) :
    Inv n ({ s with queue := { s.queue with m_dequeue_pos := pos + 1 } }.setPop c (.read pos)) := by
  subst hpos
  obtain ⟨hDE, hEN⟩ := h.bounds
  have hseq : s.queue.sequenceAt n s.queue.m_dequeue_pos = s.queue.m_dequeue_pos + 1 := by
    have hok := h.pop c
    rw [hpc] at hok
    exact hok.2 rfl
  obtain ⟨hlt, hdata⟩ := h.dequeue_full hseq
  constructor
  · refine ⟨hlt, ?_⟩
    show s.queue.m_enqueue_pos ≤ s.queue.m_dequeue_pos + 1 + n.size
    omega
  · exact h.length
  · intro w hDw hwE
    exact h.inner w (Nat.le_of_succ_le hDw) hwE
  · intro w hEw hwD
    have hwD' : w < s.queue.m_dequeue_pos + 1 + n.size := hwD
    simp only [queue_setPop, pop_setPop]
    -- which of the free cells were in the window before
    rcases Nat.lt_or_ge w (s.queue.m_dequeue_pos + n.size) with hw | hw
    · rcases h.outer w hEw hw with hfree | ⟨t, c', hwt, hwseq, hc'⟩
      · exact .inl hfree
      · refine .inr ⟨t, c', hwt, hwseq, ?_⟩
        have hne : c' ≠ c := by
          rintro rfl
          rw [hpc] at hc'
          cases hc'
        rw [if_neg hne]
        exact hc'
    · -- the window moves on: its new last cell is the one that is being read from now on
      have hw' : w = s.queue.m_dequeue_pos + n.size := by omega
      refine .inr ⟨s.queue.m_dequeue_pos, c, hw', ?_, by rw [if_pos rfl]; rfl⟩
      rw [hw']
      exact (s.queue.sequenceAt_congr n (n.index_add_size _)).trans hseq
  · intro p
    apply (h.push p).frame
    · exact Nat.le_refl _
    · exact fun _ hfree => hfree
    · intro t ht
      obtain ⟨hD, -, ht'⟩ := h.push_ticket ht
      refine ⟨?_, rfl, rfl, rfl⟩
      -- the cell that was claimed is full, so nobody is writing it
      have hne : t ≠ s.queue.m_dequeue_pos := by
        rintro rfl
        omega
      show s.queue.m_dequeue_pos + 1 ≤ t
      omega
  · intro c'
    rw [pop_setPop]
    split
    · exact ⟨Nat.lt_succ_self _, hEN, hseq, hdata⟩
    · apply (h.pop c').frame
      · exact Nat.le_succ _
      · -- the dequeue position has moved, so nothing is promised of the cell there
        intro heq
        exact absurd heq (Nat.succ_ne_self _)
      · exact fun t ht => ⟨(h.pop_ticket ht).2.1, rfl, rfl⟩
      · exact fun _ _ => rfl
  · exact h.push_inj
  · intro c₁ c₂ t h₁ h₂
    rw [pop_setPop] at h₁ h₂
    split at h₁
    · next hc₁ =>
      -- every other claim is an older one
      cases h₁
      split at h₂
      · next hc₂ => rw [hc₁, hc₂]
      · have hclaim := h.claim_lt h₂
        omega
    · split at h₂
      · cases h₂
        have hclaim := h.claim_lt h₁
        omega
      · exact h.pop_inj c₁ c₂ t h₁ h₂

omit [DecidableEq π] in
/-- A consumer moves the value out of the cell of its ticket. -/
theorem inv_read (h : Inv n s) {pos : Nat} (hpc : s.pop c = .read pos) :
    Inv n ({ s with queue := s.queue.storeData n pos none }.setPop c
      (.publish pos (s.queue.cell n pos).data)) := by
  have hok := h.pop c
  rw [hpc] at hok
  obtain ⟨hD, hE, hseq, hdata⟩ := hok
  have hDE := h.bounds.1
  -- moving the value out changes neither tickets nor claims
  have hticket : ∀ c', (if c' = c then PopPc.publish pos (s.queue.cell n pos).data
      else s.pop c').ticket = (s.pop c').ticket := by
    intro c'
    split
    · next hc' => rw [hc', hpc]; rfl
    · rfl
  have hclaim : ∀ c', (if c' = c then PopPc.publish pos (s.queue.cell n pos).data
      else s.pop c').claim = (s.pop c').claim := by
    intro c'
    split
    · next hc' => rw [hc', hpc]; rfl
    · rfl
  -- the positions between the two have other cells
  have hcell : ∀ w, s.queue.m_dequeue_pos ≤ w ∧ w < s.queue.m_enqueue_pos →
      n.index w ≠ n.index pos := fun w hw => h.index_ne_pop (by rw [hpc]; rfl) hw
  constructor
  · exact h.bounds
  · exact h.length
  · intro w hDw hwE
    simp only [queue_setPop, push_setPop, accepted_setPop, MPMCBoundedQueue.sequenceAt_storeData,
      MPMCBoundedQueue.dataAt_storeData]
    rw [if_neg (hcell w ⟨hDw, hwE⟩)]
    exact h.inner w hDw hwE
  · intro w hEw hwD
    simp only [queue_setPop, pop_setPop, hticket, MPMCBoundedQueue.sequenceAt_storeData]
    exact h.outer w hEw hwD
  · intro p
    simp only [queue_setPop, push_setPop, accepted_setPop]
    apply (h.push p).frame
    · exact Nat.le_refl _
    · exact fun _ hfree => by simpa using hfree
    · intro t ht
      obtain ⟨hD', hE', -⟩ := h.push_ticket ht
      exact ⟨hD', by simp, by simp [hcell t ⟨hD', hE'⟩], rfl⟩
  · intro c'
    simp only [queue_setPop, pop_setPop, accepted_setPop]
    split
    · exact ⟨hD, hE, by simpa using hseq, hdata⟩
    · next hne =>
      apply (h.pop c').frame
      · exact Nat.le_refl _
      · exact fun _ hfull => by simpa using hfull
      · intro t ht
        have hother := h.pop_index_ne hne (by rw [hpc]; rfl) ht
        exact ⟨(h.pop_ticket ht).2.1, by simp, by simp [hother]⟩
      · exact fun _ _ => rfl
  · exact h.push_inj
  · intro c₁ c₂ t h₁ h₂
    rw [pop_setPop, hclaim] at h₁ h₂
    exact h.pop_inj c₁ c₂ t h₁ h₂

omit [DecidableEq π] in
/-- A consumer publishes the cell of its ticket: from now on it is free for the next lap. -/
theorem inv_release (h : Inv n s) {pos : Nat} {data : Option T}
    (hpc : s.pop c = .publish pos data) :
    Inv n ({ s with queue := s.queue.storeSequence n pos (pos + n.m_buffer_mask + 1) }.setPop c
      (.popped pos data)) := by
  have hn := n.two_le
  have hmask : pos + n.m_buffer_mask + 1 = pos + n.size := by
    unfold QueueSize.m_buffer_mask
    omega
  rw [hmask]
  have hok := h.pop c
  rw [hpc] at hok
  obtain ⟨hD, hE, hseq, hdata⟩ := hok
  obtain ⟨hDE, hEN⟩ := h.bounds
  -- what was taken stays claimed
  have hclaim : ∀ c', (if c' = c then PopPc.popped pos data else s.pop c').claim =
      (s.pop c').claim := by
    intro c'
    split
    · next hc' => rw [hc', hpc]; rfl
    · rfl
  have hcell : ∀ w, s.queue.m_dequeue_pos ≤ w ∧ w < s.queue.m_enqueue_pos →
      n.index w ≠ n.index pos := fun w hw => h.index_ne_pop (by rw [hpc]; rfl) hw
  -- of the free cells only the last one of the lap is the one of the ticket
  have hlap : ∀ w, s.queue.m_enqueue_pos ≤ w → w < s.queue.m_dequeue_pos + n.size →
      n.index w = n.index pos → w = pos + n.size := by
    intro w hEw hwD heq
    rw [← n.index_add_size pos] at heq
    exact n.eq_of_index_eq heq (by omega) (by omega)
  constructor
  · exact ⟨hDE, hEN⟩
  · exact h.length
  · intro w hDw hwE
    simp only [queue_setPop, push_setPop, accepted_setPop,
      MPMCBoundedQueue.sequenceAt_storeSequence, MPMCBoundedQueue.dataAt_storeSequence]
    rw [if_neg (hcell w ⟨hDw, hwE⟩)]
    exact h.inner w hDw hwE
  · intro w hEw hwD
    simp only [queue_setPop, pop_setPop, MPMCBoundedQueue.sequenceAt_storeSequence]
    -- the cell comes back as the last one of the next lap, and it is free
    by_cases hidx : n.index w = n.index pos
    · rw [if_pos hidx]
      exact .inl (hlap w hEw hwD hidx).symm
    · rw [if_neg hidx]
      rcases h.outer w hEw hwD with hfree | ⟨t, c', hwt, hwseq, hc'⟩
      · exact .inl hfree
      · refine .inr ⟨t, c', hwt, hwseq, ?_⟩
        -- a consumer that is still reading some cell is another one
        have hne : c' ≠ c := by
          rintro rfl
          rw [hpc] at hc'
          cases hc'
          exact hidx (by rw [hwt, n.index_add_size])
        rw [if_neg hne]
        exact hc'
  · intro p
    simp only [queue_setPop, push_setPop, accepted_setPop]
    apply (h.push p).frame
    · exact Nat.le_refl _
    · intro _ hfree
      show (s.queue.storeSequence n pos (pos + n.size)).sequenceAt n s.queue.m_enqueue_pos = _
      rw [MPMCBoundedQueue.sequenceAt_storeSequence]
      -- the enqueue position may be waiting for just this cell
      by_cases hidx : n.index s.queue.m_enqueue_pos = n.index pos
      · rw [if_pos hidx]
        rw [← n.index_add_size pos] at hidx
        exact (n.eq_of_index_eq hidx (by omega) (by omega)).symm
      · rw [if_neg hidx]
        exact hfree
    · intro t ht
      obtain ⟨hD', hE', -⟩ := h.push_ticket ht
      exact ⟨hD', by simp [hcell t ⟨hD', hE'⟩], by simp, rfl⟩
  · intro c'
    simp only [queue_setPop, pop_setPop, accepted_setPop]
    split
    · exact ⟨hD, hdata⟩
    · next hne =>
      apply (h.pop c').frame
      · exact Nat.le_refl _
      · intro _ hfull
        -- the cell is not full at the dequeue position, where it holds an older sequence
        have hne' : n.index s.queue.m_dequeue_pos ≠ n.index pos := by
          intro hidx
          have hcong := s.queue.sequenceAt_congr n hidx
          omega
        show (s.queue.storeSequence n pos (pos + n.size)).sequenceAt n s.queue.m_dequeue_pos = _
        rw [MPMCBoundedQueue.sequenceAt_storeSequence, if_neg hne']
        exact hfull
      · intro t ht
        have hother := h.pop_index_ne hne (by rw [hpc]; rfl) ht
        exact ⟨(h.pop_ticket ht).2.1, by simp [hother], by simp⟩
      · exact fun _ _ => rfl
  · exact h.push_inj
  · intro c₁ c₂ t h₁ h₂
    rw [pop_setPop, hclaim] at h₁ h₂
    exact h.pop_inj c₁ c₂ t h₁ h₂

/-! ## All steps -/

omit [DecidableEq κ] in
theorem inv_pushStep {spurious : Bool} (h : Inv n s)
    (hs : s.pushStep n p spurious = some s') : Inv n s' := by
  have hok := h.push p
  unfold pushStep at hs
  split at hs
  · next data hpc =>
    cases hs
    exact inv_setPush h (by rw [hpc]; rfl) rfl (Nat.le_refl _)
  · next data pos hpc =>
    rw [hpc] at hok
    have hold : (s.push p).ticket = none := by rw [hpc]; rfl
    simp only at hs
    split at hs
    · next hdif =>
      -- the cell is free for this position: the exchange may be tried
      cases hs
      refine inv_setPush h hold rfl ⟨hok, fun _ => ?_⟩
      show (s.queue.cell n pos).sequence = pos
      omega
    · split at hs <;> cases hs <;> exact inv_setPush h hold rfl trivial
  · next data pos hpc =>
    split at hs
    · next hcas =>
      -- the exchange succeeds only while the position is still the enqueue position
      cases hs
      exact inv_accept h hpc hcas.1
    · cases hs
      exact inv_setPush h (by rw [hpc]; rfl) rfl (Nat.le_refl _)
  · next data pos hpc =>
    cases hs
    exact inv_write h hpc
  · next pos hpc =>
    cases hs
    exact inv_publish h hpc
  · cases hs

omit [DecidableEq π] in
theorem inv_popStep {spurious : Bool} (h : Inv n s)
    (hs : s.popStep n c spurious = some s') : Inv n s' := by
  have hok := h.pop c
  unfold popStep at hs
  split at hs
  · next hpc =>
    cases hs
    exact inv_setPop h (by rw [hpc]; rfl) rfl (Nat.le_refl _)
  · next pos hpc =>
    rw [hpc] at hok
    have hold : (s.pop c).ticket = none := by rw [hpc]; rfl
    simp only at hs
    split at hs
    · next hdif =>
      -- the cell is full at this position: the exchange may be tried
      cases hs
      refine inv_setPop h hold rfl ⟨hok, fun _ => ?_⟩
      show (s.queue.cell n pos).sequence = pos + 1
      omega
    · split at hs <;> cases hs <;> exact inv_setPop h hold rfl trivial
  · next pos hpc =>
    split at hs
    · next hcas =>
      cases hs
      exact inv_claim h hpc hcas.1
    · cases hs
      exact inv_setPop h (by rw [hpc]; rfl) rfl (Nat.le_refl _)
  · next pos hpc =>
    cases hs
    exact inv_read h hpc
  · next pos data hpc =>
    cases hs
    exact inv_release h hpc
  · cases hs

/-- **The step lemma**: every action of the queue keeps its invariant. -/
theorem inv_step (s : QueueState π κ T) (act : QueueAction π κ T) (s' : QueueState π κ T)
    (h : Inv n s) (hs : s.step n act = some s') : Inv n s' := by
  cases act with
  | push p data =>
      simp only [step] at hs
      split at hs
      · next hout =>
        cases hs
        refine inv_setPush h ?_ rfl trivial
        cases hpc : s.push p <;> simp_all [PushPc.outside, PushPc.ticket]
      · cases hs
  | pushStep p spurious => exact inv_pushStep h hs
  | pop c =>
      simp only [step] at hs
      split at hs
      · next hout =>
        cases hs
        refine inv_setPop h ?_ rfl trivial
        cases hpc : s.pop c <;> simp_all [PopPc.outside, PopPc.ticket]
      · cases hs
  | popStep c spurious => exact inv_popStep h hs

/-- **The run lemma**: the invariant holds in every reachable state of the queue. -/
theorem inv_reachable (h : Reachable (step n) (init : QueueState π κ T) s) : Inv n s :=
  h.invariant inv_step (inv_init n)

end Steps

end QueueState

end LimbWorker.ThreadPool
