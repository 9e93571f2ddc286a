import LimbWorker.AppTransport.AmqpHandler

/-!
# Concurrent senders

Any number of threads call `AmqpHandler::onData` while the network thread calls
`sendDataFromBuffer` from `loop`. Two mutexes are involved: `writeMtx` is held for a whole `onData`,
`sendMtx` for a whole `sendDataFromBuffer` — and the flush of the loop takes only the second one.

One action is one step of one thread between two points where another thread may run: taking or
releasing a mutex, a buffer write, the availability check, `send1`, `drain`. Here `send1` accepts
everything it is offered and no payload is longer than the buffer.

The invariant that makes it work is stated nowhere in the source: **the buffer is non-empty only
while some `onData` holds `writeMtx` and has not finished its flush**. So a payload always meets an
empty buffer, and whoever is between `send1` and `drain` keeps every writer out.
-/

namespace LimbWorker.AppTransport

open Lib

/-! ## The threads -/

/-- Where a thread is inside `sendDataFromBuffer`; each constructor is the next thing it does. -/
inductive FlushPc where
  | lockSend
  | check
  | send
  | drain
  | unlockSend
  deriving DecidableEq, Repr

/-- Where a thread is with respect to `onData`; each constructor is the next thing it does. -/
inductive SenderPc where
  | outside
  | lockWrite (data : Bytes)
  | write (data : Bytes)
  | flush (data : Bytes) (writen : Nat) (pc : FlushPc)
  | writeRest (data : Bytes) (writen : Nat)
  | unlockWrite
  deriving DecidableEq, Repr

/-- Who can be inside `sendDataFromBuffer`: a thread inside `onData`, or the network thread. -/
inductive Flusher (ι : Type) where
  | sender (i : ι)
  | loop
  deriving DecidableEq

/-- The shared state and every thread's position. `order` is a history variable: the payloads in the
order in which their threads took `writeMtx`. -/
structure SendState (ι : Type) where
  outBuffer : Buffer
  sent : Bytes
  writeMtx : Option ι
  sendMtx : Option (Flusher ι)
  sender : ι → SenderPc
  loop : FlushPc
  order : List Bytes

/-- An action of the schedule: a thread enters `onData`, a thread inside `onData` does its next step,
or the network thread does the next step of its flush. -/
inductive SendAction (ι : Type) where
  | call (i : ι) (data : Bytes)
  | sender (i : ι)
  | loop

/-- Where a thread inside `onData` is in its flush. -/
def SenderPc.flushPc : SenderPc → Option FlushPc
  | .flush _ _ pc => some pc
  | _ => none

namespace SendState

variable {ι : Type} [DecidableEq ι]

/-- Nobody is inside `onData`, nothing is buffered, nothing was sent. -/
def init : SendState ι :=
  ⟨Buffer.new BUFFER_SIZE, [], none, none, fun _ => .outside, .lockSend, []⟩

/-- Where an agent is inside `sendDataFromBuffer`. -/
def flushPc (s : SendState ι) : Flusher ι → Option FlushPc
  | .sender i => (s.sender i).flushPc
  | .loop => some s.loop

/-- Move sender `i` to `pc`. -/
def setSender (s : SendState ι) (i : ι) (pc : SenderPc) : SendState ι :=
  { s with sender := fun j => if j = i then pc else s.sender j }

/-- Move an agent inside `sendDataFromBuffer` to `next`; `none` means that the call returns, to the
second `write` of `onData` or to the next iteration of `loop`. -/
def advance (s : SendState ι) (a : Flusher ι) (next : Option FlushPc) : SendState ι :=
  match a with
  | .loop => { s with loop := next.getD .lockSend }
  | .sender i =>
      match s.sender i with
      | .flush data writen _ =>
          s.setSender i (next.elim (.writeRest data writen) (.flush data writen))
      | _ => s

/-- One step of `sendDataFromBuffer` by `a`, which is at `pc`. -/
def flushStep (s : SendState ι) (a : Flusher ι) : FlushPc → Option (SendState ι)
  | .lockSend =>
      if s.sendMtx = none then some ({ s with sendMtx := some a }.advance a (some .check)) else none
  | .check =>
      if s.outBuffer.available ≠ 0 then some (s.advance a (some .send))
      else some (s.advance a (some .unlockSend))
  | .send => some ({ s with sent := s.sent ++ s.outBuffer.data }.advance a (some .drain))
  | .drain => some ({ s with outBuffer := s.outBuffer.drain }.advance a (some .unlockSend))
  | .unlockSend => some ({ s with sendMtx := none }.advance a none)

/-- One step of `onData` by thread `i`. -/
def senderStep (s : SendState ι) (i : ι) : Option (SendState ι) :=
  match s.sender i with
  | .outside => none
  | .lockWrite data =>
      if s.writeMtx = none then
        some ({ s with writeMtx := some i, order := s.order ++ [data] }.setSender i (.write data))
      else none
  | .write data =>
      let (outBuffer, writen) := s.outBuffer.write data
      some ({ s with outBuffer := outBuffer }.setSender i
        (if writen = data.length then .flush data writen .lockSend else .unlockWrite))
  | .flush _ _ pc => s.flushStep (.sender i) pc
  | .writeRest data writen =>
      some ({ s with outBuffer := (s.outBuffer.write (data.drop writen)).1 }.setSender i .unlockWrite)
  | .unlockWrite => some ({ s with writeMtx := none }.setSender i .outside)

/-- One action. A thread may enter `onData` with any payload that fits into an empty buffer. -/
def step (s : SendState ι) : SendAction ι → Option (SendState ι)
  | .call i data =>
      if s.sender i = .outside ∧ data.length ≤ BUFFER_SIZE then
        some (s.setSender i (.lockWrite data))
      else none
  | .sender i => s.senderStep i
  | .loop => s.flushStep .loop s.loop

/-! ## What moving one agent changes -/

section Frame

variable (s : SendState ι) (i j : ι) (pc : SenderPc) (a b : Flusher ι) (next : Option FlushPc)

@[simp] theorem sender_setSender : (s.setSender i pc).sender j = if j = i then pc else s.sender j :=
  rfl

/-- Moving an agent leaves everything shared alone. -/
@[simp] theorem shared_advance :
    (s.advance a next).outBuffer = s.outBuffer ∧ (s.advance a next).sent = s.sent ∧
      (s.advance a next).writeMtx = s.writeMtx ∧ (s.advance a next).sendMtx = s.sendMtx ∧
      (s.advance a next).order = s.order := by
  unfold advance setSender
  repeat' split
  all_goals exact ⟨rfl, rfl, rfl, rfl, rfl⟩

/-- Moving a sender moves nobody else's flush. -/
theorem flushPc_setSender :
    (s.setSender i pc).flushPc a = if a = .sender i then pc.flushPc else s.flushPc a := by
  cases a with
  | loop => simp [flushPc, setSender]
  | sender j =>
      by_cases hji : j = i
      · simp [flushPc, hji]
      · simp [flushPc, hji]

/-- An agent that is not `a` stays where it is in its flush. -/
theorem flushPc_advance_of_ne (hba : b ≠ a) : (s.advance a next).flushPc b = s.flushPc b := by
  unfold advance
  split
  · cases b with
    | loop => exact absurd rfl hba
    | sender j => rfl
  · split
    · rw [flushPc_setSender, if_neg hba]
    · rfl

/-- The agent that moved is at `next`; when its call returned, only the network thread is still
somewhere in a flush: at the start of its next one. -/
theorem flushPc_advance_self {pc : FlushPc} (h : s.flushPc a = some pc) :
    (s.advance a next).flushPc a = if a = .loop then some (next.getD .lockSend) else next := by
  cases a with
  | loop => rfl
  | sender j =>
      simp only [flushPc] at h
      cases hj : s.sender j with
      | flush data writen pc' =>
          simp only [advance, hj, flushPc_setSender, reduceCtorEq, if_true, if_false]
          cases next <;> rfl
      | _ => simp [hj, SenderPc.flushPc] at h

/-- A sender that is not inside the flush that moved stays where it is. -/
theorem sender_advance :
    (s.advance a next).sender j = s.sender j ∨
      ∃ data writen pc, a = .sender j ∧ s.sender j = .flush data writen pc ∧
        (s.advance a next).sender j = next.elim (.writeRest data writen) (.flush data writen) := by
  unfold advance
  split
  · exact Or.inl rfl
  · next k =>
      split
      · next data writen pc hk =>
          by_cases hjk : j = k
          · subst hjk
            exact Or.inr ⟨data, writen, pc, rfl, hk, by simp⟩
          · exact Or.inl (by simp [hjk])
      · exact Or.inl rfl

end Frame

end SendState

/-! ## The invariant -/

/-- What is known at a position of `sendDataFromBuffer`; `mine` says that the agent holds `sendMtx`,
`stream` is everything handed to `onData` so far. -/
def FlushPc.Ok (mine : Prop) (held sent stream : Bytes) : FlushPc → Prop
  | .lockSend => ¬ mine
  | .check | .unlockSend => mine
  | .send => mine ∧ held ≠ []
  | .drain => mine ∧ held ≠ [] ∧ sent = stream

/-- What is known at a position of `onData`; `mine` says that the thread holds `writeMtx`. -/
def SenderPc.Ok (mine : Prop) (held sent stream : Bytes) : SenderPc → Prop
  | .outside => ¬ mine
  | .lockWrite data => ¬ mine ∧ data.length ≤ BUFFER_SIZE
  | .write data => mine ∧ data.length ≤ BUFFER_SIZE ∧ held = [] ∧ sent ++ data = stream
  | .flush data writen pc => mine ∧ writen = data.length ∧ (pc = .unlockSend → held = [])
  | .writeRest data writen => mine ∧ writen = data.length ∧ held = [] ∧ sent = stream
  | .unlockWrite => mine ∧ held = [] ∧ sent = stream

/-- Over an empty buffer nobody is between the check and the drain, so nobody notices what is written
and sent. -/
theorem FlushPc.Ok.frame {mine : Prop} {held sent stream held' sent' stream' : Bytes}
    {pc : FlushPc} (h : pc.Ok mine held sent stream) (hempty : held = []) :
    pc.Ok mine held' sent' stream' := by
  cases pc with
  | lockSend | check | unlockSend => exact h
  | send => exact absurd hempty h.2
  | drain => exact absurd hempty h.2.1

/-- What is buffered and sent does not matter to a thread that does not hold `writeMtx`. -/
theorem SenderPc.Ok.frame {mine mine' : Prop} {held sent stream held' sent' stream' : Bytes}
    {pc : SenderPc} (h : pc.Ok mine held sent stream) (hmine : ¬ mine) (hmine' : ¬ mine') :
    pc.Ok mine' held' sent' stream' := by
  cases pc with
  | outside => exact hmine'
  | lockWrite data => exact ⟨hmine', h.2⟩
  | _ => exact absurd h.1 hmine

namespace SendState

variable {ι : Type} [DecidableEq ι] {s s' : SendState ι} {i : ι} {a : Flusher ι}

/-- The invariant of the two mutexes. While somebody is in a flush and nobody is between `send1` and
`drain`, the socket and the buffer together hold everything. -/
structure Inv (s : SendState ι) : Prop where
  size : s.outBuffer.size = BUFFER_SIZE
  sender : ∀ i, (s.sender i).Ok (s.writeMtx = some i) s.outBuffer.data s.sent s.order.flatten
  flush : ∀ a pc, s.flushPc a = some pc →
    pc.Ok (s.sendMtx = some a) s.outBuffer.data s.sent s.order.flatten
  owner : ∀ a, s.sendMtx = some a → s.flushPc a ≠ none
  free : s.writeMtx = none → s.outBuffer.data = [] ∧ s.sent = s.order.flatten
  stream : ∀ i data writen pc, s.sender i = .flush data writen pc →
    (∀ a, s.flushPc a ≠ some .drain) → s.sent ++ s.outBuffer.data = s.order.flatten

omit [DecidableEq ι] in
theorem inv_init : Inv (init : SendState ι) where
  size := rfl
  sender := fun i => by simp [init, SenderPc.Ok]
  flush := fun a pc h => by
    cases a with
    | sender j => simp [init, flushPc, SenderPc.flushPc] at h
    | loop =>
        cases h
        simp [init, FlushPc.Ok]
  owner := fun a h => by simp [init] at h
  free := fun _ => ⟨rfl, rfl⟩
  stream := fun i data writen pc h => by simp [init] at h

omit [DecidableEq ι] in
/-- **Only a flushing holder of `writeMtx` leaves bytes in the buffer.** -/
theorem Inv.holder_flushes (h : Inv s) (hne : s.outBuffer.data ≠ []) :
    ∃ i data writen pc, s.sender i = .flush data writen pc := by
  cases hm : s.writeMtx with
  | none => exact absurd (h.free hm).1 hne
  | some i =>
      have hi := h.sender i
      cases hpc : s.sender i with
      | flush data writen pc => exact ⟨i, data, writen, pc, hpc⟩
      | _ => simp_all [SenderPc.Ok]

omit [DecidableEq ι] in
/-- A thread inside its flush holds `writeMtx` and has written its whole payload. -/
theorem Inv.flushing (h : Inv s) {data : Bytes} {writen : Nat} {pc : FlushPc}
    (hi : s.sender i = .flush data writen pc) :
    s.writeMtx = some i ∧ writen = data.length ∧ (pc = .unlockSend → s.outBuffer.data = []) := by
  have hok := h.sender i
  rw [hi] at hok
  exact hok

omit [DecidableEq ι] in
/-- What is asked of a thread that goes on inside its flush. -/
theorem Inv.goes_on (h : Inv s) {data : Bytes} {writen : Nat} {pc next : FlushPc}
    (hi : s.sender i = .flush data writen pc) {held sent stream : Bytes}
    (hheld : next = .unlockSend → held = []) :
    (SenderPc.flush data writen next).Ok (s.writeMtx = some i) held sent stream := by
  obtain ⟨hmine, hwriten, -⟩ := h.flushing hi
  exact ⟨hmine, hwriten, hheld⟩

omit [DecidableEq ι] in
/-- A thread that does not hold `writeMtx` does not notice a step of the holder. -/
theorem Inv.sender_frame (h : Inv s) {j k : ι} (hk : s.writeMtx = some k) (hjk : j ≠ k)
    {held sent stream : Bytes} : (s.sender j).Ok (s.writeMtx = some j) held sent stream := by
  have hmine : ¬ s.writeMtx = some j := fun hj => hjk (Option.some.inj (hj.symm.trans hk))
  exact (h.sender j).frame hmine hmine

omit [DecidableEq ι] in
/-- While a thread is inside its flush, no thread notices what is sent and drained. -/
theorem Inv.sender_frame_flushing (h : Inv s) {k : ι} {data : Bytes} {writen : Nat} {pc : FlushPc}
    (hk : s.sender k = .flush data writen pc) {held sent stream : Bytes}
    (hheld : pc = .unlockSend → held = []) (j : ι) :
    (s.sender j).Ok (s.writeMtx = some j) held sent stream := by
  by_cases hjk : j = k
  · subst hjk
    rw [hk]
    exact h.goes_on hk hheld
  · exact h.sender_frame (h.flushing hk).1 hjk

omit [DecidableEq ι] in
/-- An agent between taking and releasing `sendMtx` holds it. -/
theorem Inv.holds_sendMtx (h : Inv s) {pc : FlushPc} (hpc : s.flushPc a = some pc)
    (hne : pc ≠ .lockSend) : s.sendMtx = some a := by
  have hok := h.flush a pc hpc
  cases pc with
  | lockSend => exact absurd rfl hne
  | check | unlockSend => exact hok
  | send | drain => exact hok.1

omit [DecidableEq ι] in
/-- While an agent holds `sendMtx`, every other one in a flush waits for it. -/
theorem Inv.others_wait (h : Inv s) (ha : s.sendMtx = some a) {b : Flusher ι} {q : FlushPc}
    (hba : b ≠ a) (hb : s.flushPc b = some q) : q = .lockSend := by
  by_contra hq
  exact hba (Option.some.inj ((h.holds_sendMtx hb hq).symm.trans ha))

omit [DecidableEq ι] in
/-- While the holder of `sendMtx` is elsewhere, nobody is about to drain. -/
theorem Inv.nobody_drains (h : Inv s) {pc : FlushPc} (hpc : s.flushPc a = some pc)
    (ha : s.sendMtx = some a) (hne : pc ≠ .drain) : ∀ b, s.flushPc b ≠ some .drain := by
  intro b hb
  by_cases hba : b = a
  · rw [hba, hpc] at hb
    exact hne (Option.some.inj hb)
  · cases h.others_wait ha hba hb

omit [DecidableEq ι] in
/-- The stream as seen by an agent that is not about to drain itself. -/
theorem Inv.stream_of_others (h : Inv s) {pc : FlushPc} (hpc : s.flushPc a = some pc)
    (hne : pc ≠ .drain) {j : ι} {data : Bytes} {writen : Nat} {q : FlushPc}
    (hj : s.sender j = .flush data writen q) (hothers : ∀ b, b ≠ a → s.flushPc b ≠ some .drain) :
    s.sent ++ s.outBuffer.data = s.order.flatten := by
  apply h.stream j data writen q hj
  intro b hb
  by_cases hba : b = a
  · rw [hba, hpc] at hb
    exact hne (Option.some.inj hb)
  · exact hothers b hba hb

/-- **The frame rule of a flush.** Agent `a` at `pc` changes the shared state from `s` to `s₁` and
moves to `next`. The invariant asks for the threads at their old positions over the new shared
state, for `a` at its new position, and for the stream. -/
theorem inv_advance {s₁ : SendState ι} {next : Option FlushPc} {pc : FlushPc}
    (hpc : s.flushPc a = some pc) (hcore : s₁.sender = s.sender ∧ s₁.loop = s.loop)
    (hsize : s₁.outBuffer.size = BUFFER_SIZE)
    (hsender : ∀ j, (s.sender j).Ok (s₁.writeMtx = some j) s₁.outBuffer.data s₁.sent
      s₁.order.flatten)
    (hself : (next.getD .lockSend).Ok (s₁.sendMtx = some a) s₁.outBuffer.data s₁.sent
      s₁.order.flatten)
    (hreturn : ∀ j data writen, a = .sender j → s.sender j = .flush data writen pc →
      (next.elim (.writeRest data writen) (.flush data writen) : SenderPc).Ok
        (s₁.writeMtx = some j) s₁.outBuffer.data s₁.sent s₁.order.flatten)
    (hother : ∀ b q, b ≠ a → s.flushPc b = some q →
      q.Ok (s₁.sendMtx = some b) s₁.outBuffer.data s₁.sent s₁.order.flatten)
    (howner : s₁.sendMtx = none ∨ s₁.sendMtx = some a ∧ next ≠ none)
    (hfree : s₁.writeMtx = none → s₁.outBuffer.data = [] ∧ s₁.sent = s₁.order.flatten)
    (hstream : ∀ j data writen q, s.sender j = .flush data writen q →
      (∀ b, b ≠ a → s.flushPc b ≠ some .drain) → next ≠ some .drain →
        s₁.sent ++ s₁.outBuffer.data = s₁.order.flatten) :
    Inv (s₁.advance a next) := by
  have hflushPc : ∀ b, s₁.flushPc b = s.flushPc b := by
    intro b
    cases b <;> simp [flushPc, hcore]
  have hmoved := flushPc_advance_self s₁ a next ((hflushPc a).trans hpc)
  constructor
  · simpa using hsize
  · intro j
    simp only [shared_advance]
    -- a thread either stays where it is, or is the one whose flush goes on or returns
    rcases sender_advance s₁ j a next with hj | ⟨data, writen, pc', ha, hj, hj'⟩
    · rw [hj, hcore.1]
      exact hsender j
    · rw [hj']
      rw [hcore.1] at hj
      have hpc' : pc' = pc := by
        subst ha
        simpa [flushPc, hj, SenderPc.flushPc] using hpc
      exact hreturn j data writen ha (hpc' ▸ hj)
  · intro b q hq
    simp only [shared_advance]
    -- who flushes is the agent itself at its next position, or another one at its old one
    by_cases hba : b = a
    · subst hba
      have hq' : next.getD .lockSend = q := by
        rw [hmoved] at hq
        cases b with
        | loop => simpa using hq
        | sender j => simp at hq; simp [hq]
      exact hq' ▸ hself
    · rw [flushPc_advance_of_ne s₁ a b next hba, hflushPc] at hq
      exact hother b q hba hq
  · intro b hb
    simp only [shared_advance] at hb
    -- the mutex is free now, or the agent has it and is still inside
    rcases howner with hnone | ⟨hsome, hnext⟩
    · rw [hnone] at hb
      cases hb
    · have hba : b = a := Option.some.inj (hb.symm.trans hsome)
      subst hba
      rw [hmoved]
      split
      · simp
      · exact hnext
  · simpa using hfree
  · intro j data writen q hj hnd
    simp only [shared_advance]
    -- the others have not moved, so nobody was about to drain before either
    have hothers : ∀ b, b ≠ a → s.flushPc b ≠ some .drain := by
      intro b hba
      have := hnd b
      rwa [flushPc_advance_of_ne s₁ a b next hba, hflushPc] at this
    have hnext : next ≠ some .drain := by
      rintro rfl
      exact hnd a (by simpa using hmoved)
    rcases sender_advance s₁ j a next with hj' | ⟨data', writen', pc', -, hj', -⟩
    · rw [hj', hcore.1] at hj
      exact hstream j data writen q hj hothers hnext
    · rw [hcore.1] at hj'
      exact hstream j data' writen' pc' hj' hothers hnext

/-- A step of `sendDataFromBuffer`, in the loop or inside `onData`, keeps the invariant. -/
theorem inv_flushStep {pc : FlushPc} (h : Inv s) (hpc : s.flushPc a = some pc)
    (hs : s.flushStep a pc = some s') : Inv s' := by
  have hok := h.flush a pc hpc
  cases pc with
  | lockSend =>
      simp only [flushStep] at hs
      split at hs
      · next hfree =>
        cases hs
        refine inv_advance hpc ⟨rfl, rfl⟩ h.size h.sender rfl ?_ ?_ (Or.inr ⟨rfl, by simp⟩) h.free ?_
        · exact fun j data writen _ hj => h.goes_on hj (by simp)
        · intro b q hba hq
          -- nobody held `sendMtx`, so every other agent is still outside of it
          have hlock : q = .lockSend := by
            by_contra hne
            have hmine := h.holds_sendMtx hq hne
            rw [hfree] at hmine
            cases hmine
          subst hlock
          exact fun hab => hba (Option.some.inj hab).symm
        · exact fun j data writen q hj hothers _ => h.stream_of_others hpc (by decide) hj hothers
      · cases hs
  | check =>
      simp only [flushStep] at hs
      split at hs
      · next hne =>
        -- the buffer is not empty
        cases hs
        refine inv_advance hpc ⟨rfl, rfl⟩ h.size h.sender ⟨hok, by simpa using hne⟩ ?_
          (fun b q _ hq => h.flush b q hq) (Or.inr ⟨hok, by simp⟩) h.free
          (fun j data writen q hj hothers _ => h.stream_of_others hpc (by decide) hj hothers)
        exact fun j data writen _ hj => h.goes_on hj (by simp)
      · next hne =>
        -- nothing to send: the buffer is empty until the mutex is released
        cases hs
        refine inv_advance hpc ⟨rfl, rfl⟩ h.size h.sender hok ?_
          (fun b q _ hq => h.flush b q hq) (Or.inr ⟨hok, by simp⟩) h.free
          (fun j data writen q hj hothers _ => h.stream_of_others hpc (by decide) hj hothers)
        exact fun j data writen _ hj => h.goes_on hj fun _ => by simpa using hne
  | send =>
      simp only [flushStep, Option.some.injEq] at hs
      subst hs
      -- the buffer is not empty, so some thread is inside its flush and everything is accounted for
      obtain ⟨k, data, writen, pc, hk⟩ := h.holder_flushes hok.2
      have hall : s.sent ++ s.outBuffer.data = s.order.flatten := by
        apply h.stream k data writen pc hk
        exact h.nobody_drains hpc hok.1 (by decide)
      refine inv_advance hpc ⟨rfl, rfl⟩ h.size ?_ ⟨hok.1, hok.2, hall⟩ ?_ ?_
        (Or.inr ⟨hok.1, by simp⟩) ?_ ?_
      · exact h.sender_frame_flushing hk (h.flushing hk).2.2
      · exact fun j data writen _ hj => h.goes_on hj (by simp)
      · intro b q hba hq
        obtain rfl := h.others_wait hok.1 hba hq
        exact h.flush b _ hq
      · -- the thread that flushes holds `writeMtx`
        intro hnone
        have hmine : s.writeMtx = some k := (h.flushing hk).1
        rw [hnone] at hmine
        cases hmine
      · intro j data writen q hj _ hnext
        exact absurd rfl hnext
  | drain =>
      simp only [flushStep, Option.some.injEq] at hs
      subst hs
      obtain ⟨hmine, hne, hsent⟩ := hok
      -- what is dropped was sent, and only a thread inside its flush put it there
      obtain ⟨k, data, writen, pc, hk⟩ := h.holder_flushes hne
      refine inv_advance hpc ⟨rfl, rfl⟩ h.size ?_ hmine ?_ ?_ (Or.inr ⟨hmine, by simp⟩) ?_ ?_
      · exact h.sender_frame_flushing hk fun _ => rfl
      · exact fun j data writen _ hj => h.goes_on hj fun _ => rfl
      · intro b q hba hq
        obtain rfl := h.others_wait hmine hba hq
        exact h.flush b _ hq
      · intro _
        exact ⟨rfl, hsent⟩
      · intro j data writen q _ _ _
        simpa using hsent
  | unlockSend =>
      simp only [flushStep, Option.some.injEq] at hs
      subst hs
      -- with the mutex in hand nobody else drains, so the account is balanced
      have hothers := h.nobody_drains hpc hok (by decide)
      refine inv_advance hpc ⟨rfl, rfl⟩ h.size h.sender (by simp [FlushPc.Ok]) ?_ ?_
        (Or.inl rfl) h.free ?_
      · intro j data writen _ hj
        obtain ⟨hmine, hwriten, hempty⟩ := h.flushing hj
        have hall := h.stream j data writen _ hj hothers
        rw [hempty rfl, List.append_nil] at hall
        exact ⟨hmine, hwriten, hempty rfl, hall⟩
      · intro b q hba hq
        obtain rfl := h.others_wait hok hba hq
        simp [FlushPc.Ok]
      · intro j data writen q hj _ _
        exact h.stream j data writen q hj hothers

/-- **The frame rule of `onData`.** Thread `i`, outside of `sendDataFromBuffer`, changes the shared
state from `s` to `s₁` and moves to `pc`, which is not inside `sendDataFromBuffer` beyond its first
position. The flushes keep their positions. -/
theorem inv_setSender {s₁ : SendState ι} {pc : SenderPc} (hi : (s.sender i).flushPc = none)
    (h : Inv s)
    (hcore : s₁.sender = s.sender ∧ s₁.loop = s.loop ∧ s₁.sendMtx = s.sendMtx)
    (hsize : s₁.outBuffer.size = BUFFER_SIZE)
    (hpc : pc.Ok (s₁.writeMtx = some i) s₁.outBuffer.data s₁.sent s₁.order.flatten)
    (hstart : pc.flushPc = none ∨ pc.flushPc = some .lockSend)
    (hsender : ∀ j, j ≠ i → (s.sender j).Ok (s₁.writeMtx = some j) s₁.outBuffer.data s₁.sent
      s₁.order.flatten)
    (hflush : ∀ b q, s.flushPc b = some q →
      q.Ok (s₁.sendMtx = some b) s₁.outBuffer.data s₁.sent s₁.order.flatten)
    (hfree : s₁.writeMtx = none → s₁.outBuffer.data = [] ∧ s₁.sent = s₁.order.flatten)
    (hstream : ((∃ q, pc.flushPc = some q) ∨ ∃ j q, (s.sender j).flushPc = some q) →
      (∀ b, s.flushPc b ≠ some .drain) → s₁.sent ++ s₁.outBuffer.data = s₁.order.flatten) :
    Inv (s₁.setSender i pc) := by
  have hflushPc : ∀ b, (s₁.setSender i pc).flushPc b = if b = .sender i then pc.flushPc
      else s.flushPc b := by
    intro b
    rw [flushPc_setSender]
    cases b <;> simp [flushPc, hcore]
  -- outside of the flush the thread has no `sendMtx`
  have hidle : s.sendMtx ≠ some (.sender i) := fun hmine => h.owner _ hmine hi
  constructor
  · exact hsize
  · intro j
    rw [sender_setSender]
    split
    · next hji =>
      subst hji
      exact hpc
    · next hji =>
      rw [hcore.1]
      exact hsender j hji
  · intro b q hq
    rw [hflushPc] at hq
    split at hq
    · next hb =>
      subst hb
      -- if the new position is in a flush at all, it is where `sendMtx` is waited for
      rcases hstart with hnone | hlock
      · rw [hnone] at hq
        cases hq
      · rw [hlock] at hq
        cases hq
        intro hmine
        exact hidle (hcore.2.2 ▸ hmine)
    · exact hflush b q hq
  · intro b hb
    have hb' : s.sendMtx = some b := hcore.2.2 ▸ hb
    rw [hflushPc, if_neg]
    · exact h.owner b hb'
    · rintro rfl
      exact hidle hb'
  · exact hfree
  · intro j data writen q hj hnd
    -- the one that flushes is the thread itself, or another one at its old position
    apply hstream
    · by_cases hji : j = i
      · subst hji
        refine Or.inl ⟨q, ?_⟩
        simp at hj
        simp [hj, SenderPc.flushPc]
      · refine Or.inr ⟨j, q, ?_⟩
        simp [hji, hcore.1] at hj
        simp [hj, SenderPc.flushPc]
    · intro b hb
      refine hnd b ?_
      rw [hflushPc, if_neg]
      · exact hb
      · rintro rfl
        simp [flushPc, hi] at hb

/-- A step of `onData` keeps the invariant. -/
theorem inv_senderStep (h : Inv s) (hs : s.senderStep i = some s') : Inv s' := by
  have hok := h.sender i
  cases hpc : s.sender i with
  | outside => simp [senderStep, hpc] at hs
  | lockWrite data =>
      simp only [senderStep, hpc] at hs
      split at hs
      · next hfree =>
        cases hs
        -- nobody had `writeMtx`: the buffer is empty and all was sent
        obtain ⟨hempty, hsent⟩ := h.free hfree
        rw [hpc] at hok
        refine inv_setSender (s := s) (by rw [hpc]; rfl) h ⟨rfl, rfl, rfl⟩ h.size
          ⟨rfl, hok.2, hempty, by simp [hsent]⟩ (Or.inl rfl) ?_ ?_ (by simp) ?_
        · intro j hji
          apply (h.sender j).frame
          · simp [hfree]
          · exact fun hij => hji (Option.some.inj hij).symm
        · exact fun b q hq => (h.flush b q hq).frame hempty
        · rintro (⟨q, hq⟩ | ⟨j, q, hq⟩) _
          · cases hq
          · cases hj : s.sender j with
            | flush data writen pc =>
                have hmine := (h.flushing hj).1
                rw [hfree] at hmine
                cases hmine
            | _ => simp [hj, SenderPc.flushPc] at hq
      · cases hs
  | write data =>
      rw [hpc] at hok
      obtain ⟨hmine, hlen, hempty, hall⟩ := hok
      -- an empty buffer takes a whole payload, as payloads are not larger than it
      have hfits : s.outBuffer.available + data.length ≤ s.outBuffer.size := by
        rw [h.size, (Buffer.available_eq_zero _).mpr hempty]
        omega
      obtain ⟨hdata, hwriten⟩ := Buffer.write_of_fits hfits
      simp only [senderStep, hpc, hwriten, if_true, Option.some.injEq] at hs
      subst hs
      have hheld : (s.outBuffer.write data).1.data = data := by rw [hdata, hempty, List.nil_append]
      refine inv_setSender (s := s) (by rw [hpc]; rfl) h ⟨rfl, rfl, rfl⟩ h.size ⟨hmine, rfl, by simp⟩
        (Or.inr rfl) ?_ ?_ (by simp [hmine]) ?_
      · exact fun j hji => h.sender_frame hmine hji
      · exact fun b q hq => (h.flush b q hq).frame hempty
      · intro _ _
        simp [hheld, hall]
  | flush data writen pc =>
      simp only [senderStep, hpc] at hs
      exact inv_flushStep h (by simp [flushPc, hpc, SenderPc.flushPc]) hs
  | writeRest data writen =>
      rw [hpc] at hok
      obtain ⟨hmine, hwriten, hempty, hsent⟩ := hok
      -- nothing is left to write after a whole payload
      have hheld : (s.outBuffer.write (data.drop writen)).1.data = [] := by
        rw [hwriten, List.drop_length, Buffer.write_nil, hempty]
      simp only [senderStep, hpc, Option.some.injEq] at hs
      subst hs
      refine inv_setSender (s := s) (by rw [hpc]; rfl) h ⟨rfl, rfl, rfl⟩ h.size
        ⟨hmine, hheld, hsent⟩ (Or.inl rfl) ?_ ?_ (by simp [hmine]) ?_
      · exact fun j hji => h.sender_frame hmine hji
      · exact fun b q hq => (h.flush b q hq).frame hempty
      · intro _ _
        simp [hheld, hsent]
  | unlockWrite =>
      rw [hpc] at hok
      obtain ⟨hmine, hempty, hsent⟩ := hok
      simp only [senderStep, hpc, Option.some.injEq] at hs
      subst hs
      refine inv_setSender (s := s) (by rw [hpc]; rfl) h ⟨rfl, rfl, rfl⟩ h.size
        (by simp [SenderPc.Ok]) (Or.inl rfl) ?_ h.flush (fun _ => ⟨hempty, hsent⟩) ?_
      · intro j hji
        apply (h.sender j).frame
        · exact fun hj => hji (Option.some.inj (hj.symm.trans hmine))
        · simp
      · intro _ _
        simp [hempty, hsent]

/-- Entering `onData` keeps the invariant. -/
theorem inv_call {data : Bytes} (h : Inv s) (hs : s.step (.call i data) = some s') : Inv s' := by
  simp only [step] at hs
  split at hs
  · next hout =>
    cases hs
    obtain ⟨hpc, hlen⟩ := hout
    have hok := h.sender i
    rw [hpc] at hok
    refine inv_setSender (s := s) (by rw [hpc]; rfl) h ⟨rfl, rfl, rfl⟩ h.size ⟨hok, hlen⟩
      (Or.inl rfl) (fun j _ => h.sender j) h.flush h.free ?_
    rintro (⟨q, hq⟩ | ⟨j, q, hq⟩) hnd
    · cases hq
    · cases hj : s.sender j with
      | flush data writen pc => exact h.stream j data writen pc hj hnd
      | _ => simp [hj, SenderPc.flushPc] at hq
  · cases hs

/-- **The step lemma**: every action keeps the invariant. -/
theorem inv_step (s : SendState ι) (act : SendAction ι) (s' : SendState ι) (h : Inv s)
    (hs : s.step act = some s') : Inv s' := by
  cases act with
  | call i data => exact inv_call h hs
  | sender i => exact inv_senderStep h hs
  | loop => exact inv_flushStep h rfl hs

/-- **The run lemma**: the invariant holds in every reachable state. -/
theorem inv_reachable (h : Reachable step (init : SendState ι) s) : Inv s :=
  h.invariant inv_step inv_init

/-! ## Concurrent senders lose nothing -/

/-- What the buffer promises its users in state `s`: once every thread has left `onData`, the socket
has received the payloads in the order in which they took `writeMtx`; and while some agent is between
`send1` and `drain`, no thread is about to write. -/
structure NothingLost (s : SendState ι) : Prop where
  sent : (∀ i, s.sender i = .outside) → s.sent = s.order.flatten
  undisturbed : ∀ a, s.flushPc a = some .drain → ∀ i data, s.sender i ≠ .write data

/-- **Concurrent senders lose nothing**, under every interleaving of the two mutexes. -/
theorem concurrent_senders_lose_nothing (s : SendState ι)
    (h : Reachable step (init : SendState ι) s) : NothingLost s := by
  have hinv := inv_reachable h
  constructor
  · intro hout
    refine (hinv.free ?_).2
    cases hm : s.writeMtx with
    | none => rfl
    | some i =>
        have hi := hinv.sender i
        rw [hout i] at hi
        exact absurd hm hi
  · intro a ha i data hi
    have hheld := (hinv.flush a _ ha).2.1
    have hok := hinv.sender i
    rw [hi] at hok
    exact hheld hok.2.2.1

/-- Thread 0 writes and is about to send, the flush of the loop waits for `sendMtx`, thread 1 waits
for `writeMtx`; both payloads arrive. -/
def twoSenders : List (SendAction Nat) :=
  [.call 0 [1, 2], .call 1 [3], .sender 0, .sender 0, .sender 0, .sender 0, .sender 0, .sender 0,
    .sender 0, .loop, .sender 0, .loop, .loop, .sender 0] ++ List.replicate 9 (.sender 1)

theorem two_senders_lose_nothing :
    ∃ s, run step init twoSenders = some s ∧ NothingLost s ∧ s.sent = [1, 2, 3] := by
  have hrun : (run step init twoSenders).map sent = some [1, 2, 3] := by rfl
  obtain ⟨s, hs, hsent⟩ := Option.map_eq_some_iff.mp hrun
  exact ⟨s, hs, concurrent_senders_lose_nothing s ⟨_, hs⟩, hsent⟩

end SendState

end LimbWorker.AppTransport
