import LimbWorker.Lib.Logged
import LimbWorker.ThreadPool.Solo

/-!
# The log of the queue

What happens at the queue, as an observer writes it down: calls of `push` and what comes of them, the
tickets that producers and consumers take, the data that is stored and moved out. The life of a ticket is

    accepted → stored → posted → claimed → moved → popped

and the invariant of the log says that every ticket goes through it in this order, each stage once, with
the same data all the way.
-/

namespace LimbWorker.ThreadPool

open Lib

/-! ## Events -/

/-- An event at the queue. `posted` and `refused` are the two ways for `push` to return, `popped` is the
successful one for `pop`. -/
inductive QueueEvent (π κ T : Type) where
  | called (p : π) (data : T)
  | accepted (p : π) (pos : Nat) (data : T)
  | stored (p : π) (pos : Nat) (data : T)
  | posted (p : π) (pos : Nat)
  | refused (p : π) (data : T)
  | claimed (c : κ) (pos : Nat)
  | moved (c : κ) (pos : Nat) (data : Option T)
  | popped (c : κ) (pos : Nat) (data : Option T)
  deriving DecidableEq

namespace QueueEvent

variable {π κ T : Type}

/-- The handler that was accepted, with its ticket. -/
def acceptance : QueueEvent π κ T → Option (T × Nat)
  | .accepted _ pos data => some (data, pos)
  | _ => none

/-- The ticket with which a `push` has returned true. -/
def postedTicket : QueueEvent π κ T → Option Nat
  | .posted _ pos => some pos
  | _ => none

/-- The ticket that a consumer has taken. -/
def claimedTicket : QueueEvent π κ T → Option Nat
  | .claimed _ pos => some pos
  | _ => none

/-- The ticket whose data was moved out. -/
def movedTicket : QueueEvent π κ T → Option Nat
  | .moved _ pos _ => some pos
  | _ => none

/-- What must have happened, in this order, before an event. -/
def Cause (log : List (QueueEvent π κ T)) : QueueEvent π κ T → Prop
  | .called _ _ => True
  | .accepted p _ data => .called p data ∈ log
  | .stored p pos data => [.called p data, .accepted p pos data].Sublist log
  | .posted p pos => ∃ data, [.called p data, .accepted p pos data, .stored p pos data].Sublist log
  | .refused p data => .called p data ∈ log
  | .claimed _ pos => ∃ p data,
      [.called p data, .accepted p pos data, .stored p pos data, .posted p pos].Sublist log
  | .moved c pos data => ∃ p value, data = some value ∧
      [.called p value, .accepted p pos value, .stored p pos value, .posted p pos,
        .claimed c pos].Sublist log
  | .popped c pos data => ∃ p value, data = some value ∧
      [.called p value, .accepted p pos value, .stored p pos value, .posted p pos,
        .claimed c pos, .moved c pos data].Sublist log

end QueueEvent

namespace QueueState

variable {π κ T : Type} (n : QueueSize) (s : QueueState π κ T)

/-- What an action writes into the log. -/
def note : QueueAction π κ T → List (QueueEvent π κ T)
  | .push p data => [.called p data]
  | .pushStep p spurious =>
      match s.push p with
      | .sequence data pos => if s.queue.sequenceAt n pos < pos then [.refused p data] else []
      | .exchange data pos =>
          if s.queue.m_enqueue_pos = pos ∧ spurious = false then [.accepted p pos data] else []
      | .write data pos => [.stored p pos data]
      | .publish pos => [.posted p pos]
      | _ => []
  | .pop _ => []
  | .popStep c spurious =>
      match s.pop c with
      | .exchange pos =>
          if s.queue.m_dequeue_pos = pos ∧ spurious = false then [.claimed c pos] else []
      | .read pos => [.moved c pos (s.queue.dataAt n pos)]
      | .publish pos data => [.popped c pos data]
      | _ => []

/-- **What a step of `push` can do**, with what it writes into the log. -/
inductive PushMove [DecidableEq π] (p : π) : QueueState π κ T → List (QueueEvent π κ T) → Prop where
  | onward (data : T) (pc : PushPc T) (hold : (s.push p).value = some data)
      (hnew : pc.value = some data) : PushMove p (s.setPush p pc) []
  | refuse (data : T) (pos : Nat) (hpc : s.push p = .sequence data pos)
      (hbehind : s.queue.sequenceAt n pos < pos) :
      PushMove p (s.setPush p (.full data)) [.refused p data]
  | accept (data : T) (hpc : s.push p = .exchange data s.queue.m_enqueue_pos) :
      PushMove p
        ({ s with
          queue := { s.queue with m_enqueue_pos := s.queue.m_enqueue_pos + 1 }
          accepted := s.accepted ++ [data] }.setPush p (.write data s.queue.m_enqueue_pos))
        [.accepted p s.queue.m_enqueue_pos data]
  | store (data : T) (pos : Nat) (hpc : s.push p = .write data pos) :
      PushMove p ({ s with queue := s.queue.storeData n pos (some data) }.setPush p (.publish pos))
        [.stored p pos data]
  | post (pos : Nat) (hpc : s.push p = .publish pos) :
      PushMove p ({ s with queue := s.queue.storeSequence n pos (pos + 1) }.setPush p .pushed)
        [.posted p pos]

/-- **What a step of `pop` can do**, with what it writes into the log. -/
inductive PopMove [DecidableEq κ] (c : κ) : QueueState π κ T → List (QueueEvent π κ T) → Prop where
  | onward (pc : PopPc T) (hold : (s.pop c).claim = none) (hnew : pc.claim = none) :
      PopMove c (s.setPop c pc) []
  | claim (hpc : s.pop c = .exchange s.queue.m_dequeue_pos) :
      PopMove c
        ({ s with queue := { s.queue with m_dequeue_pos := s.queue.m_dequeue_pos + 1 } }.setPop c
          (.read s.queue.m_dequeue_pos))
        [.claimed c s.queue.m_dequeue_pos]
  | move (pos : Nat) (hpc : s.pop c = .read pos) :
      PopMove c
        ({ s with queue := s.queue.storeData n pos none }.setPop c
          (.publish pos (s.queue.dataAt n pos)))
        [.moved c pos (s.queue.dataAt n pos)]
  | release (pos : Nat) (data : Option T) (hpc : s.pop c = .publish pos data) :
      PopMove c
        ({ s with queue := s.queue.storeSequence n pos (pos + n.m_buffer_mask + 1) }.setPop c
          (.popped pos data))
        [.popped c pos data]

variable {n s} {s' : QueueState π κ T}

theorem pushMove [DecidableEq π] {p : π} {spurious : Bool} (hs : s.pushStep n p spurious = some s') :
    PushMove n s p s' (note n s (.pushStep p spurious)) := by
  unfold pushStep at hs
  unfold note
  split at hs
  · next data hpc =>
    cases hs
    simp only [hpc]
    exact .onward data _ (by rw [hpc]; rfl) rfl
  · next data pos hpc =>
    -- the sequence number is read: equal, behind and ahead of the position
    have hold : (s.push p).value = some data := by rw [hpc]; rfl
    have hcell : s.queue.sequenceAt n pos = (s.queue.cell n pos).sequence := rfl
    simp only [hpc]
    simp only at hs
    split at hs
    · cases hs
      rw [if_neg (by omega)]
      exact .onward data _ hold rfl
    · split at hs
      · cases hs
        have hbehind : s.queue.sequenceAt n pos < pos := by omega
        rw [if_pos hbehind]
        exact .refuse data pos hpc hbehind
      · cases hs
        rw [if_neg (by omega)]
        exact .onward data _ hold rfl
  · next data pos hpc =>
    -- the exchange wins the position or reads a newer one
    simp only [hpc]
    split at hs
    · next hcas =>
      cases hs
      rw [if_pos hcas]
      obtain ⟨rfl, -⟩ := hcas
      exact .accept data hpc
    · next hcas =>
      cases hs
      rw [if_neg hcas]
      exact .onward data _ (by rw [hpc]; rfl) rfl
  · next data pos hpc =>
    cases hs
    simp only [hpc]
    exact .store data pos hpc
  · next pos hpc =>
    cases hs
    simp only [hpc]
    exact .post pos hpc
  · cases hs

theorem popMove [DecidableEq κ] {c : κ} {spurious : Bool} (hs : s.popStep n c spurious = some s') :
    PopMove n s c s' (note n s (.popStep c spurious)) := by
  unfold popStep at hs
  unfold note
  split at hs
  · next hpc =>
    cases hs
    simp only [hpc]
    exact .onward _ (by rw [hpc]; rfl) rfl
  · next pos hpc =>
    -- none of the three answers about the sequence number is an event
    have hold : (s.pop c).claim = none := by rw [hpc]; rfl
    simp only [hpc]
    simp only at hs
    split at hs
    · cases hs
      exact .onward _ hold rfl
    · split at hs <;> cases hs <;> exact .onward _ hold rfl
  · next pos hpc =>
    -- winning the exchange is the claim
    simp only [hpc]
    split at hs
    · next hcas =>
      cases hs
      rw [if_pos hcas]
      obtain ⟨rfl, -⟩ := hcas
      exact .claim hpc
    · next hcas =>
      cases hs
      rw [if_neg hcas]
      exact .onward _ (by rw [hpc]; rfl) rfl
  · next pos hpc =>
    cases hs
    simp only [hpc]
    exact .move pos hpc
  · next pos data hpc =>
    cases hs
    simp only [hpc]
    exact .release pos data hpc
  · cases hs

end QueueState

/-! ## The invariant of the log -/

section History

variable {π κ T : Type}

/-- What the log says of the call that a producer is in. -/
def PushPc.History (log : List (QueueEvent π κ T)) (p : π) : PushPc T → Prop
  | .load data | .sequence data _ | .exchange data _ => .called p data ∈ log
  | .write data pos => [.called p data, .accepted p pos data].Sublist log
  | .publish pos => ∃ data, [.called p data, .accepted p pos data, .stored p pos data].Sublist log
  | _ => True

/-- What the log says of a ticket whose producer is done. -/
def Posted (log : List (QueueEvent π κ T)) (pos : Nat) : Prop :=
  ∃ p data, [.called p data, .accepted p pos data, .stored p pos data, .posted p pos].Sublist log

/-- What the log says of the ticket that a consumer has taken. -/
def PopPc.History (log : List (QueueEvent π κ T)) (c : κ) : PopPc T → Prop
  | .read pos => ∃ p data, [.called p data, .accepted p pos data, .stored p pos data,
      .posted p pos, .claimed c pos].Sublist log
  | .publish pos data => ∃ p value, data = some value ∧ [.called p value, .accepted p pos value,
      .stored p pos value, .posted p pos, .claimed c pos, .moved c pos data].Sublist log
  | _ => True

theorem PushPc.history_of_value {log : List (QueueEvent π κ T)} {p : π} {pc : PushPc T} {data : T}
    (hvalue : pc.value = some data) : pc.History log p ↔ .called p data ∈ log := by
  cases pc <;> cases hvalue <;> rfl

/-- A history stays one in a longer log. -/
theorem PushPc.History.append {log more : List (QueueEvent π κ T)} {p : π} {pc : PushPc T}
    (h : pc.History log p) : pc.History (log ++ more) p := by
  cases pc with
  | load _ | sequence _ _ | exchange _ _ => exact List.mem_append_left _ h
  | write _ _ => exact h.trans (List.sublist_append_left _ _)
  | publish pos =>
      obtain ⟨data, hsub⟩ := h
      exact ⟨data, hsub.trans (List.sublist_append_left _ _)⟩
  | idle | pushed | full _ => trivial

theorem Posted.append {log more : List (QueueEvent π κ T)} {pos : Nat} (h : Posted log pos) :
    Posted (log ++ more) pos := by
  obtain ⟨p, data, hsub⟩ := h
  exact ⟨p, data, hsub.trans (List.sublist_append_left _ _)⟩

theorem PopPc.History.append {log more : List (QueueEvent π κ T)} {c : κ} {pc : PopPc T}
    (h : pc.History log c) : pc.History (log ++ more) c := by
  cases pc with
  | read pos =>
      obtain ⟨p, data, hsub⟩ := h
      exact ⟨p, data, hsub.trans (List.sublist_append_left _ _)⟩
  | publish pos data =>
      obtain ⟨p, value, hdata, hsub⟩ := h
      exact ⟨p, value, hdata, hsub.trans (List.sublist_append_left _ _)⟩
  | idle | load | sequence _ | exchange _ | popped _ _ | empty => trivial

end History

namespace QueueState

variable {π κ T : Type} {n : QueueSize} {s s' : QueueState π κ T}
  {log : List (QueueEvent π κ T)}

/-- What holds of a queue and the log of how it came about. -/
structure Recorded (n : QueueSize) (s : QueueState π κ T) (log : List (QueueEvent π κ T)) : Prop where
  inv : Inv n s
  acceptances : log.filterMap QueueEvent.acceptance = s.accepted.zipIdx
  claims : log.filterMap QueueEvent.claimedTicket = List.range s.queue.m_dequeue_pos
  moves : (log.filterMap QueueEvent.movedTicket).Nodup
  moved : ∀ t, t ∈ log.filterMap QueueEvent.movedTicket ↔
    t < s.queue.m_dequeue_pos ∧ ∀ c, s.pop c ≠ .read t
  pushing : ∀ p, (s.push p).History log p
  posted : ∀ t < s.queue.m_enqueue_pos, (∃ p, (s.push p).ticket = some t) ∨ Posted log t
  popping : ∀ c, (s.pop c).History log c
  justified : Justified QueueEvent.Cause log

theorem recorded_init (n : QueueSize) : Recorded n (init : QueueState π κ T) [] where
  inv := inv_init n
  acceptances := rfl
  claims := rfl
  moves := List.nodup_nil
  moved := fun t => by simp [init, MPMCBoundedQueue.new]
  pushing := fun _ => trivial
  posted := fun t ht => absurd ht (Nat.not_lt_zero t)
  popping := fun _ => trivial
  justified := justified_nil

/-- An accepted handler is the one of its ticket. -/
theorem Recorded.accepted_eq (h : Recorded n s log) {p : π} {pos : Nat} {data : T}
    (hmem : .accepted p pos data ∈ log) : s.accepted[pos]? = some data := by
  have hzip : (data, pos) ∈ s.accepted.zipIdx := by
    rw [← h.acceptances]
    exact List.mem_filterMap.mpr ⟨_, hmem, rfl⟩
  exact List.mem_zipIdx_iff_getElem?.mp hzip

section Steps

variable [DecidableEq π] [DecidableEq κ]

omit [DecidableEq κ] in
/-- A step of one producer: what is left to show of it. -/
theorem Recorded.of_push (h : Recorded n s log) {p : π} {pc : PushPc T}
    {es : List (QueueEvent π κ T)} (hinv : Inv n s')
    (hpush : ∀ p', s'.push p' = if p' = p then pc else s.push p') (hpop : s'.pop = s.pop)
    (hD : s'.queue.m_dequeue_pos = s.queue.m_dequeue_pos)
    (hacceptances : s.accepted.zipIdx ++ es.filterMap QueueEvent.acceptance = s'.accepted.zipIdx)
    (hclaims : es.filterMap QueueEvent.claimedTicket = [])
    (hmoves : es.filterMap QueueEvent.movedTicket = [])
    (hhistory : pc.History (log ++ es) p)
    (hticket : ∀ t, (s.push p).ticket = some t → pc.ticket = some t ∨ Posted (log ++ es) t)
    (hnew : ∀ t, s.queue.m_enqueue_pos ≤ t → t < s'.queue.m_enqueue_pos → pc.ticket = some t)
    (hjustified : Justified QueueEvent.Cause (log ++ es)) : Recorded n s' (log ++ es) where
  inv := hinv
  acceptances := by rw [List.filterMap_append, h.acceptances, hacceptances]
  claims := by rw [List.filterMap_append, h.claims, hclaims, List.append_nil, hD]
  moves := by
    rw [List.filterMap_append, hmoves, List.append_nil]
    exact h.moves
  moved := fun t => by
    rw [List.filterMap_append, hmoves, List.append_nil, hD, hpop]
    exact h.moved t
  pushing := fun p' => by
    rw [hpush]
    split
    · next heq => exact heq ▸ hhistory
    · exact (h.pushing p').append
  posted := fun t ht => by
    by_cases hold : t < s.queue.m_enqueue_pos
    · -- an old ticket is held by whoever held it, unless `p` has just posted it
      rcases h.posted t hold with ⟨p', hp'⟩ | hposted
      · by_cases hpp : p' = p
        · rcases hticket t (hpp ▸ hp') with hsame | hposted
          · exact .inl ⟨p, by rw [hpush, if_pos rfl, hsame]⟩
          · exact .inr hposted
        · exact .inl ⟨p', by rw [hpush, if_neg hpp, hp']⟩
      · exact .inr hposted.append
    · -- a new one is held by `p`, which has claimed it
      exact .inl ⟨p, by rw [hpush, if_pos rfl, hnew t (by omega) ht]⟩
  popping := fun c => by
    rw [hpop]
    exact (h.popping c).append
  justified := hjustified

theorem PushPc.ticket_of_value {pc : PushPc T} {data : T} (h : pc.value = some data) :
    pc.ticket = none := by
  cases pc <;> first | rfl | cases h

omit [DecidableEq κ] in
/-- **A step of `push` keeps the log true.** -/
theorem Recorded.push (h : Recorded n s log) {p : π} {es : List (QueueEvent π κ T)}
    (hinv : Inv n s') (hmove : PushMove n s p s' es) : Recorded n s' (log ++ es) := by
  have hhistory := h.pushing p
  have hnone : ∀ t, s.queue.m_enqueue_pos ≤ t → ¬ t < s.queue.m_enqueue_pos := by omega
  cases hmove with
  | onward data pc hold hnew =>
      -- nothing but the call is remembered before the ticket is claimed
      have hcalled := (PushPc.history_of_value hold).mp hhistory
      apply h.of_push hinv (fun _ => rfl) rfl rfl (List.append_nil _) rfl rfl
      · exact (PushPc.history_of_value hnew).mpr (List.mem_append_left _ hcalled)
      · intro t ht
        rw [PushPc.ticket_of_value hold] at ht
        cases ht
      · exact fun t hle hlt => absurd hlt (hnone t hle)
      · rw [List.append_nil]
        exact h.justified
  | refuse data pos hpc hbehind =>
      rw [hpc] at hhistory
      apply h.of_push hinv (fun _ => rfl) rfl rfl (List.append_nil _) rfl rfl
      · trivial
      · intro t ht
        rw [hpc] at ht
        cases ht
      · exact fun t hle hlt => absurd hlt (hnone t hle)
      · exact justified_concat h.justified hhistory
  | accept data hpc =>
      rw [hpc] at hhistory
      -- the value joins the accepted ones at the position that becomes its ticket
      apply h.of_push hinv (fun _ => rfl) rfl rfl ?_ rfl rfl
      · exact sublist_concat _ (List.singleton_sublist.mpr hhistory)
      · intro t ht
        rw [hpc] at ht
        cases ht
      · intro t hle hlt
        have ht : t = s.queue.m_enqueue_pos := Nat.le_antisymm (Nat.le_of_lt_succ hlt) hle
        rw [ht]
        rfl
      · exact justified_concat h.justified hhistory
      · show _ = (s.accepted ++ [data]).zipIdx
        rw [List.zipIdx_append, h.inv.length, Nat.zero_add]
        rfl
  | store data pos hpc =>
      rw [hpc] at hhistory
      apply h.of_push hinv (fun _ => rfl) rfl rfl (List.append_nil _) rfl rfl
      · exact ⟨data, sublist_concat _ hhistory⟩
      · intro t ht
        rw [hpc] at ht
        -- the ticket stays with the producer until the sequence number is published
        exact .inl ht
      · exact fun t hle hlt => absurd hlt (hnone t hle)
      · exact justified_concat h.justified hhistory
  | post pos hpc =>
      rw [hpc] at hhistory
      obtain ⟨data, hsub⟩ := hhistory
      apply h.of_push hinv (fun _ => rfl) rfl rfl (List.append_nil _) rfl rfl
      · trivial
      · intro t ht
        rw [hpc] at ht
        cases ht
        -- it is given up here, and from now on the log shows it as posted
        exact .inr ⟨p, data, sublist_concat _ hsub⟩
      · exact fun t hle hlt => absurd hlt (hnone t hle)
      · exact justified_concat h.justified ⟨data, hsub⟩

omit [DecidableEq π] in
/-- A step of one consumer: what is left to show of it. -/
theorem Recorded.of_pop (h : Recorded n s log) {c : κ} {pc : PopPc T}
    {es : List (QueueEvent π κ T)} (hinv : Inv n s')
    (hpop : ∀ c', s'.pop c' = if c' = c then pc else s.pop c') (hpush : s'.push = s.push)
    (hE : s'.queue.m_enqueue_pos = s.queue.m_enqueue_pos) (haccepted : s'.accepted = s.accepted)
    (hD : s.queue.m_dequeue_pos ≤ s'.queue.m_dequeue_pos)
    (hacceptances : es.filterMap QueueEvent.acceptance = [])
    (hclaims : List.range s.queue.m_dequeue_pos ++ es.filterMap QueueEvent.claimedTicket =
      List.range s'.queue.m_dequeue_pos)
    (hmoves : (es.filterMap QueueEvent.movedTicket).Nodup)
    (hmoved : ∀ t, t ∈ es.filterMap QueueEvent.movedTicket ↔ s.pop c = .read t ∧ pc ≠ .read t)
    (hnew : ∀ t, pc = .read t → s.queue.m_dequeue_pos ≤ t)
    (hread : ∀ t, s.queue.m_dequeue_pos ≤ t → t < s'.queue.m_dequeue_pos → pc = .read t)
    (hhistory : pc.History (log ++ es) c)
    (hjustified : Justified QueueEvent.Cause (log ++ es)) : Recorded n s' (log ++ es) where
  inv := hinv
  acceptances := by
    rw [List.filterMap_append, h.acceptances, hacceptances, List.append_nil, haccepted]
  claims := by rw [List.filterMap_append, h.claims, hclaims]
  moves := by
    rw [List.filterMap_append, List.nodup_append']
    -- a ticket that has been moved before is not being read now
    refine ⟨h.moves, hmoves, fun t hold hnew => ?_⟩
    exact ((h.moved t).mp hold).2 c ((hmoved t).mp hnew).1
  moved := fun t => by
    rw [List.filterMap_append, List.mem_append, h.moved, hmoved]
    constructor
    · -- a moved ticket is claimed and no longer read: an old one by the record, a new one by this step
      rintro (⟨hlt, hnone⟩ | ⟨hpc, hpc'⟩)
      · refine ⟨Nat.lt_of_lt_of_le hlt hD, fun c' => ?_⟩
        rw [hpop]
        split
        · intro heq
          have hle := hnew t heq
          omega
        · exact hnone c'
      · have hlt : t < s.queue.m_dequeue_pos := h.inv.claim_lt (c := c) (by rw [hpc]; rfl)
        refine ⟨Nat.lt_of_lt_of_le hlt hD, fun c' => ?_⟩
        rw [hpop]
        split
        · exact hpc'
        · next hne =>
          -- nobody else reads the same ticket
          intro heq
          exact hne (h.inv.pop_inj c' c t (by rw [heq]; rfl) (by rw [hpc]; rfl))
    · rintro ⟨hlt, hnone⟩
      have hpc' : pc ≠ .read t := by
        have hc := hnone c
        rwa [hpop, if_pos rfl] at hc
      -- conversely the reader was `c` until this step, or the ticket had been moved before
      by_cases hpc : s.pop c = .read t
      · exact .inr ⟨hpc, hpc'⟩
      · refine .inl ⟨?_, fun c' => ?_⟩
        · by_contra hge
          exact hpc' (hread t (by omega) hlt)
        · by_cases hcc : c' = c
          · rwa [hcc]
          · have hc := hnone c'
            rwa [hpop, if_neg hcc] at hc
  pushing := fun p => by
    rw [hpush]
    exact (h.pushing p).append
  posted := fun t ht => by
    rw [hpush]
    rw [hE] at ht
    exact (h.posted t ht).imp_right Posted.append
  popping := fun c' => by
    rw [hpop]
    split
    · next heq => exact heq ▸ hhistory
    · exact (h.popping c').append
  justified := hjustified

omit [DecidableEq π] [DecidableEq κ] in
/-- The full cell at the dequeue position was posted. -/
theorem Recorded.posted_of_full (h : Recorded n s log)
    (hseq : s.queue.sequenceAt n s.queue.m_dequeue_pos = s.queue.m_dequeue_pos + 1) :
    Posted log s.queue.m_dequeue_pos := by
  rcases h.posted _ (h.inv.dequeue_full hseq).1 with ⟨p, hp⟩ | hposted
  · have hticket := (h.inv.push_ticket hp).2.2
    omega
  · exact hposted

omit [DecidableEq π] in
/-- **A step of `pop` keeps the log true.** -/
theorem Recorded.pop (h : Recorded n s log) {c : κ} {es : List (QueueEvent π κ T)}
    (hinv : Inv n s') (hmove : PopMove n s c s' es) : Recorded n s' (log ++ es) := by
  have hhistory := h.popping c
  have hok := h.inv.pop c
  have hnone : ∀ t, s.queue.m_dequeue_pos ≤ t → ¬ t < s.queue.m_dequeue_pos := by omega
  cases hmove with
  | onward pc hold hnew =>
      have hnoread : ∀ t, pc ≠ .read t := by
        rintro t rfl
        cases hnew
      have holdread : ∀ t, s.pop c ≠ .read t := by
        intro t heq
        rw [heq] at hold
        cases hold
      -- a consumer on its way claims and moves nothing, so no list grows
      refine h.of_pop hinv (fun _ => rfl) rfl rfl rfl (Nat.le_refl _) rfl (List.append_nil _)
        List.nodup_nil ?_ ?_ ?_ ?_ ?_
      · exact fun t => iff_of_false List.not_mem_nil fun hpc => holdread t hpc.1
      · exact fun t heq => absurd heq (hnoread t)
      · exact fun t hle hlt => absurd hlt (hnone t hle)
      · cases pc <;> trivial
      · rw [List.append_nil]
        exact h.justified
  | claim hpc =>
      rw [hpc] at hok
      -- the cell was full, so its value has been posted: that is the cause of the claim
      obtain ⟨p, data, hsub⟩ := h.posted_of_full (hok.2 rfl)
      -- the claimed ticket is the next one, which keeps the claims a range
      refine h.of_pop hinv (fun _ => rfl) rfl rfl rfl (Nat.le_succ _) rfl List.range_succ.symm
        List.nodup_nil ?_ ?_ ?_ ?_ ?_
      · intro t
        refine iff_of_false List.not_mem_nil ?_
        rintro ⟨hread, -⟩
        rw [hpc] at hread
        cases hread
      · intro t heq
        cases heq
        exact Nat.le_refl _
      · intro t hle hlt
        have ht : t = s.queue.m_dequeue_pos := Nat.le_antisymm (Nat.le_of_lt_succ hlt) hle
        rw [ht]
      · exact ⟨p, data, sublist_concat _ hsub⟩
      · exact justified_concat h.justified ⟨p, data, hsub⟩
  | move pos hpc =>
      rw [hpc] at hok hhistory
      obtain ⟨-, -, -, hdata⟩ := hok
      obtain ⟨p, data, hsub⟩ := hhistory
      -- the cell holds what was accepted with this ticket
      have hvalue : s.queue.dataAt n pos = some data := by
        rw [hdata]
        exact h.accepted_eq (p := p) (hsub.subset (by simp))
      refine h.of_pop hinv (fun _ => rfl) rfl rfl rfl (Nat.le_refl _) rfl (List.append_nil _)
        (List.nodup_singleton _) ?_ ?_ ?_ ?_ ?_
      · intro t
        show t ∈ [pos] ↔ _
        rw [List.mem_singleton, hpc]
        constructor
        · rintro rfl
          exact ⟨rfl, by simp⟩
        · rintro ⟨heq, -⟩
          cases heq
          rfl
      · intro t heq
        cases heq
      · exact fun t hle hlt => absurd hlt (hnone t hle)
      · exact ⟨p, data, hvalue, sublist_concat _ hsub⟩
      · exact justified_concat h.justified ⟨p, data, hvalue, hsub⟩
  | release pos data hpc =>
      rw [hpc] at hhistory
      refine h.of_pop hinv (fun _ => rfl) rfl rfl rfl (Nat.le_refl _) rfl (List.append_nil _)
        List.nodup_nil ?_ ?_ ?_ ?_ ?_
      · intro t
        refine iff_of_false List.not_mem_nil ?_
        rintro ⟨hread, -⟩
        rw [hpc] at hread
        cases hread
      · intro t heq
        cases heq
      · exact fun t hle hlt => absurd hlt (hnone t hle)
      · trivial
      · exact justified_concat h.justified hhistory

/-- A call of `push` or of `pop` begins. -/
theorem Recorded.begin (h : Recorded n s log) {act : QueueAction π κ T} (hinv : Inv n s')
    (hs : s.step n act = some s') (hpush : ∀ p spurious, act ≠ .pushStep p spurious)
    (hpop : ∀ c spurious, act ≠ .popStep c spurious) : Recorded n s' (log ++ note n s act) := by
  cases act with
  | push p data =>
      simp only [step] at hs
      split at hs
      · next hout =>
        cases hs
        -- a producer outside of a call holds no ticket
        have hticket : (s.push p).ticket = none := by
          cases hpc : s.push p <;> simp_all [PushPc.outside, PushPc.ticket]
        apply h.of_push hinv (fun _ => rfl) rfl rfl (List.append_nil _) rfl rfl
        · exact List.mem_append_right _ (List.mem_singleton.mpr rfl)
        · intro t ht
          rw [hticket] at ht
          cases ht
        · exact fun t hle hlt => absurd hlt (Nat.not_lt.mpr hle)
        · exact justified_concat h.justified trivial
      · cases hs
  | pop c =>
      simp only [step] at hs
      split at hs
      · next hout =>
        cases hs
        -- a consumer outside of a call reads nothing
        have hread : ∀ t, s.pop c ≠ .read t := by
          intro t hpc
          rw [hpc] at hout
          cases hout
        refine h.of_pop hinv (fun _ => rfl) rfl rfl rfl (Nat.le_refl _) rfl (List.append_nil _)
          List.nodup_nil ?_ ?_ ?_ ?_ ?_
        · exact fun t => iff_of_false List.not_mem_nil fun hpc => hread t hpc.1
        · intro t heq
          cases heq
        · exact fun t hle hlt => absurd hlt (Nat.not_lt.mpr hle)
        · trivial
        · rw [note, List.append_nil]
          exact h.justified
      · cases hs
  | pushStep p spurious => exact absurd rfl (hpush p spurious)
  | popStep c spurious => exact absurd rfl (hpop c spurious)

/-- **The step lemma of the log.** -/
theorem recorded_step (x : QueueState π κ T × List (QueueEvent π κ T)) (act : QueueAction π κ T)
    (x' : QueueState π κ T × List (QueueEvent π κ T)) (h : Recorded n x.1 x.2)
    (hs : logged (step n) (note n) x act = some x') : Recorded n x'.1 x'.2 := by
  obtain ⟨s, log⟩ := x
  obtain ⟨s', log'⟩ := x'
  obtain ⟨hstep, rfl⟩ := logged_eq_some hs
  have hinv := inv_step s act s' h.inv hstep
  cases act with
  | push p data => exact h.begin hinv hstep (by simp) (by simp)
  | pushStep p spurious => exact h.push hinv (pushMove hstep)
  | pop c => exact h.begin hinv hstep (by simp) (by simp)
  | popStep c spurious => exact h.pop hinv (popMove hstep)

/-- **The run lemma of the log.** -/
theorem recorded_run {acts : List (QueueAction π κ T)}
    (h : run (logged (step n) (note n)) (init, []) acts = some (s, log)) : Recorded n s log :=
  run_invariant (I := fun x : QueueState π κ T × List (QueueEvent π κ T) => Recorded n x.1 x.2)
    recorded_step (recorded_init n) h

end Steps

end QueueState

end LimbWorker.ThreadPool
