import LimbWorker.AppTransport.AmqpTransport
import LimbWorker.Lib.StepSystem
import Mathlib.Tactic.Common

/-!
# Frames on the channel

Worker threads run `handleProcessImage`, the network thread runs the consumers, and all of them emit
frames on one channel. `m_chMutex` is taken by both overloads of `sendResponse`, and by nothing else:
`sendAck` and `sendReject` emit their frame whenever their thread gets there.

A thread is a list of channel calls — the trace of the handler it runs — and a position inside the
call it is in. The publish of the AMQP library emits a method frame, a header frame and one or more
body frames; how many is left open (`bodyFrames`).
-/

namespace LimbWorker.AppTransport

open Lib

/-! ## Threads and frames -/

/-- A thread of the pool, or the network thread. -/
inductive ChThread (ι : Type) where
  | worker (i : ι)
  | network
  deriving DecidableEq

/-- A publish: the `n`-th one of its thread. -/
@[ext]
structure PublishId (ι : Type) where
  thread : ChThread ι
  n : Nat
  deriving DecidableEq

inductive FramePart where
  | method
  | header
  | body (last : Bool)
  deriving DecidableEq, Repr

/-- A frame on the channel. -/
inductive Frame (ι : Type) where
  | publish (id : PublishId ι) (part : FramePart)
  | ack (deliveryTag : Nat)
  | reject (deliveryTag : Nat)
  deriving DecidableEq

/-- Where a thread is inside its first remaining call; each constructor is the next thing it does.
All but `next` are inside the critical section of `sendResponse`. `n` is the number of the publish,
`k` how many body frames follow the next one. -/
inductive CallPc where
  | next
  | method
  | header (n : Nat)
  | body (n : Nat) (k : Nat)
  | ack
  | unlock
  deriving DecidableEq, Repr

/-- The publish that a thread is in the middle of. -/
def CallPc.midway : CallPc → Option Nat
  | .header n | .body n _ => some n
  | _ => none

/-- What a thread is asked to do: a job of the pool, or one of the consumers. -/
inductive Job where
  | processImage (env : Surroundings) (task : AmqpTask)
  | ping (env : Surroundings) (message : Message) (deliveryTag : Nat)
  | getAppInfo (env : Surroundings) (message : Message) (deliveryTag : Nat)
  | consume (env : Surroundings) (message : Message) (deliveryTag : Nat)

/-- The calls that a job makes on the channel. -/
def Job.calls : Job → List ChannelCall
  | .processImage env task => (handleProcessImage env task).events
  | .ping env message deliveryTag => (handlePing env message deliveryTag).events
  | .getAppInfo env message deliveryTag => (handleGetAppInfo env message deliveryTag).events
  | .consume env message deliveryTag => (consumeProcessImage env message deliveryTag).events

/-- Workers run jobs of the pool, the network thread runs the consumers. -/
def Job.runsOn {ι : Type} : Job → ChThread ι → Bool
  | .processImage _ _, .worker _ => true
  | .processImage _ _, .network => false
  | _, .worker _ => false
  | _, .network => true

/-- The channel and its users; `published` counts the publishes that a thread has begun. -/
structure ChState (ι : Type) where
  m_chMutex : Option (ChThread ι)
  wire : List (Frame ι)
  calls : ChThread ι → List ChannelCall
  pc : ChThread ι → CallPc
  published : ChThread ι → Nat

/-- An action of the schedule: a thread that has nothing to do takes a job, or a thread does its next
step. -/
inductive ChAction (ι : Type) where
  | start (t : ChThread ι) (job : Job)
  | step (t : ChThread ι)

namespace ChState

variable {ι : Type} [DecidableEq ι]

def init : ChState ι := ⟨none, [], fun _ => [], fun _ => .next, fun _ => 0⟩

def setPc (s : ChState ι) (t : ChThread ι) (pc : CallPc) : ChState ι :=
  { s with pc := fun u => if u = t then pc else s.pc u }

/-- The thread is done with its first remaining call. -/
def finishCall (s : ChState ι) (t : ChThread ι) : ChState ι :=
  { s with
    calls := fun u => if u = t then (s.calls t).tail else s.calls u
    pc := fun u => if u = t then .next else s.pc u }

omit [DecidableEq ι] in
def emit (s : ChState ι) (f : Frame ι) : ChState ι := { s with wire := s.wire ++ [f] }

/-- Begin a publish: its method frame gets the next number of the thread. -/
def beginPublish (s : ChState ι) (t : ChThread ι) : ChState ι :=
  { s.emit (.publish ⟨t, s.published t⟩ .method) with
    published := fun u => if u = t then s.published t + 1 else s.published u
    pc := fun u => if u = t then .header (s.published t) else s.pc u }

/-- The next step of thread `t`, inside or at the start of `call`. -/
def callStep (bodyFrames : Bytes → Nat) (s : ChState ι) (t : ChThread ι) (call : ChannelCall) :
    Option (ChState ι) :=
  match s.pc t, call with
  | .next, .sendAck tag => some ((s.emit (.ack tag)).finishCall t)
  | .next, .sendReject tag => some ((s.emit (.reject tag)).finishCall t)
  | .next, _ =>
      if s.m_chMutex = none then some ({ s with m_chMutex := some t }.setPc t .method) else none
  | .method, _ => some (s.beginPublish t)
  | .header n, .sendResponse _ resp | .header n, .sendResponseMessage _ _ resp =>
      some ((s.emit (.publish ⟨t, n⟩ .header)).setPc t (.body n (bodyFrames resp)))
  | .header _, _ => none
  | .body n (k + 1), _ => some ((s.emit (.publish ⟨t, n⟩ (.body false))).setPc t (.body n k))
  | .body n 0, .sendResponseMessage _ _ _ =>
      some ((s.emit (.publish ⟨t, n⟩ (.body true))).setPc t .ack)
  | .body n 0, _ => some ((s.emit (.publish ⟨t, n⟩ (.body true))).setPc t .unlock)
  | .ack, .sendResponseMessage _ tag _ => some ((s.emit (.ack tag)).setPc t .unlock)
  | .ack, _ => none
  | .unlock, _ => some ({ s with m_chMutex := none }.finishCall t)

/-- One action. -/
def step (bodyFrames : Bytes → Nat) (s : ChState ι) : ChAction ι → Option (ChState ι)
  | .start t job =>
      if s.calls t = [] ∧ job.runsOn t then
        some { s with calls := fun u => if u = t then job.calls else s.calls u }
      else none
  | .step t =>
      match s.calls t with
      | [] => none
      | call :: _ => s.callStep bodyFrames t call

end ChState

/-! ## Frames of one message together -/

section Together

variable {ι : Type}

/-- On `wire` the publish has begun and has not ended. -/
def IsOpen (wire : List (Frame ι)) (id : PublishId ι) : Prop :=
  (∃ part, .publish id part ∈ wire) ∧ .publish id (.body true) ∉ wire

/-- **Frames of one message are together**: a frame emitted while a publish was open is a frame of
that publish. -/
def Together (wire : List (Frame ι)) : Prop :=
  ∀ pre f post, wire = pre ++ f :: post → ∀ id, IsOpen pre id → ∃ part, f = .publish id part

theorem together_nil : Together ([] : List (Frame ι)) := by
  intro pre f post h
  simp at h

/-- One more frame keeps the frames together just when it belongs to whatever publish is open. -/
theorem together_snoc {wire : List (Frame ι)} {f : Frame ι} :
    Together (wire ++ [f]) ↔
      Together wire ∧ ∀ id, IsOpen wire id → ∃ part, f = .publish id part := by
  constructor
  · intro h
    refine ⟨fun pre g post hw => h pre g (post ++ [f]) (by simp [hw]), fun id hid => ?_⟩
    exact h wire f [] rfl id hid
  · rintro ⟨h, hf⟩ pre g post hw id hid
    rcases List.eq_nil_or_concat post with rfl | ⟨post', g', rfl⟩
    · obtain ⟨hpre, hg⟩ := List.append_inj' hw rfl
      cases hg
      exact hf id (hpre ▸ hid)
    · have hw' : wire ++ [f] = (pre ++ g :: post') ++ [g'] := by simpa using hw
      obtain ⟨hpre, -⟩ := List.append_inj' hw' rfl
      exact h pre g post' hpre id hid

end Together

/-! ## What a step does -/

/-- The calls that emit their frame without taking `m_chMutex`. -/
def ChannelCall.unlocked : ChannelCall → Bool
  | .sendReject _ | .sendAck _ => true
  | _ => false

/-- A frame of no publish. -/
def Frame.Settles {ι : Type} : Frame ι → Prop
  | .publish _ _ => False
  | _ => True

namespace ChState

variable {ι : Type} [DecidableEq ι] {bodyFrames : Bytes → Nat} {s s' : ChState ι}
  {t u : ChThread ι} {call : ChannelCall}

/-- Everything that a step of thread `t` inside `call` can do. -/
inductive CallEffect (s : ChState ι) (t : ChThread ι) (call : ChannelCall) : ChState ι → Prop where
  | settle (f : Frame ι) : s.pc t = .next → call.unlocked → f.Settles →
      CallEffect s t call ((s.emit f).finishCall t)
  | lock : s.pc t = .next → call.unlocked = false → s.m_chMutex = none →
      CallEffect s t call ({ s with m_chMutex := some t }.setPc t .method)
  | beginPublish : s.pc t = .method → CallEffect s t call (s.beginPublish t)
  | more (n : Nat) (part : FramePart) (pc : CallPc) : (s.pc t).midway = some n →
      part ≠ .body true → pc.midway = some n →
      CallEffect s t call ((s.emit (.publish ⟨t, n⟩ part)).setPc t pc)
  | last (n : Nat) (pc : CallPc) : (s.pc t).midway = some n → pc = .ack ∨ pc = .unlock →
      CallEffect s t call ((s.emit (.publish ⟨t, n⟩ (.body true))).setPc t pc)
  | ack (tag : Nat) : s.pc t = .ack →
      CallEffect s t call ((s.emit (.ack tag)).setPc t .unlock)
  | unlock : s.pc t = .unlock →
      CallEffect s t call ({ s with m_chMutex := none }.finishCall t)

theorem callEffect (h : s.callStep bodyFrames t call = some s') : CallEffect s t call s' := by
  unfold callStep at h
  split at h
  · next hpc => cases h; exact .settle _ hpc rfl trivial
  · next hpc => cases h; exact .settle _ hpc rfl trivial
  · next hpc hack hreject =>
      split at h
      · next hfree =>
        cases h
        refine .lock hpc ?_ hfree
        unfold ChannelCall.unlocked
        split
        · next tag => exact absurd rfl (hreject tag)
        · next tag => exact absurd rfl (hack tag)
        · rfl
      · cases h
  · next hpc => cases h; exact .beginPublish hpc
  · next hpc => cases h; exact .more _ _ _ (by rw [hpc]; rfl) (by simp) rfl
  · next hpc => cases h; exact .more _ _ _ (by rw [hpc]; rfl) (by simp) rfl
  · cases h
  · next hpc => cases h; exact .more _ _ _ (by rw [hpc]; rfl) (by simp) rfl
  · next hpc => cases h; exact .last _ _ (by rw [hpc]; rfl) (.inl rfl)
  · next hpc _ => cases h; exact .last _ _ (by rw [hpc]; rfl) (.inr rfl)
  · next hpc => cases h; exact .ack _ hpc
  · cases h
  · next hpc => cases h; exact .unlock hpc

/-! ## The invariant -/

/-- The mutex is held by the thread inside a critical section, the numbers on the wire are used up,
and the open publish is the one that some thread is in the middle of. -/
structure Inv (s : ChState ι) : Prop where
  mutex : ∀ t, s.pc t ≠ .next ↔ s.m_chMutex = some t
  used : ∀ id part, .publish id part ∈ s.wire → id.n < s.published id.thread
  isOpen : ∀ id, IsOpen s.wire id ↔ (s.pc id.thread).midway = some id.n

omit [DecidableEq ι] in
theorem inv_init : Inv (init : ChState ι) where
  mutex := by simp [init]
  used := by simp [init]
  isOpen := by simp [init, IsOpen, CallPc.midway]

omit [DecidableEq ι] in
/-- A frame of no publish opens and closes nothing. -/
theorem isOpen_emit_settles {f : Frame ι} (hf : f.Settles) (id : PublishId ι) :
    IsOpen (s.emit f).wire id ↔ IsOpen s.wire id := by
  cases f with
  | publish => exact hf.elim
  | ack tag => simp [IsOpen, emit]
  | reject tag => simp [IsOpen, emit]

omit [DecidableEq ι] in
/-- A frame of one publish does not touch the others. -/
theorem isOpen_emit_of_ne {id id' : PublishId ι} {part : FramePart} (hne : id ≠ id') :
    IsOpen (s.emit (.publish id' part)).wire id ↔ IsOpen s.wire id := by
  simp [IsOpen, emit, hne]

omit [DecidableEq ι] in
/-- After a frame of a publish that had not ended, it is open just when the frame was not its last
one. -/
theorem isOpen_emit_self {id : PublishId ι} {part : FramePart}
    (hnot : .publish id (.body true) ∉ s.wire) :
    IsOpen (s.emit (.publish id part)).wire id ↔ part ≠ .body true := by
  constructor
  · rintro ⟨-, h⟩ rfl
    exact h (by simp [emit])
  · intro hpart
    refine ⟨⟨part, by simp [emit]⟩, ?_⟩
    simpa [emit, hnot] using hpart.symm

omit [DecidableEq ι] in
/-- Two threads inside their critical sections are one. -/
theorem Inv.inside_unique (h : Inv s) (ht : s.pc t ≠ .next) (hu : s.pc u ≠ .next) : t = u :=
  Option.some.inj (((h.mutex t).mp ht).symm.trans ((h.mutex u).mp hu))

omit [DecidableEq ι] in
/-- A thread that is not in the middle of a publish, but inside a critical section, keeps everybody
else from being in the middle of one. -/
theorem Inv.not_isOpen (h : Inv s) (ht : s.pc t ≠ .next) (hmid : (s.pc t).midway = none)
    (id : PublishId ι) : ¬ IsOpen s.wire id := by
  rw [h.isOpen]
  intro hid
  have hu : s.pc id.thread ≠ .next := by
    intro hnext
    simp [hnext, CallPc.midway] at hid
  rw [← h.inside_unique ht hu, hmid] at hid
  cases hid

omit [DecidableEq ι] in
/-- Whoever is in the middle of a publish, that one is the only one open. -/
theorem Inv.isOpen_iff (h : Inv s) {n : Nat} (hmid : (s.pc t).midway = some n) (id : PublishId ι) :
    IsOpen s.wire id ↔ id = ⟨t, n⟩ := by
  have ht : s.pc t ≠ .next := by
    intro hnext
    simp [hnext, CallPc.midway] at hmid
  constructor
  · intro hid
    have hu := (h.isOpen id).mp hid
    have hne : s.pc id.thread ≠ .next := by
      intro hnext
      simp [hnext, CallPc.midway] at hu
    -- two threads in the middle of a publish are both inside, hence one
    have hthread := h.inside_unique ht hne
    rw [← hthread, hmid] at hu
    cases id
    cases hthread
    cases hu
    rfl
  · rintro rfl
    exact (h.isOpen _).mpr hmid

/-- **The frame rule**: thread `t` moves to `pc`, and what it does to the mutex and the wire fits its
new position; everybody else stays. -/
theorem inv_move {q : CallPc} (h : Inv s) (hpc : s'.pc = fun u => if u = t then q else s.pc u)
    (hown : q ≠ .next ↔ s'.m_chMutex = some t)
    (hother : ∀ u, u ≠ t → (s'.m_chMutex = some u ↔ s.m_chMutex = some u))
    (hused : ∀ id part, .publish id part ∈ s'.wire → id.n < s'.published id.thread)
    (hopen : ∀ id, IsOpen s'.wire id ↔
      if id.thread = t then q.midway = some id.n else IsOpen s.wire id) : Inv s' := by
  refine ⟨?_, hused, ?_⟩
  · intro u
    -- the mutex changes hands only as far as `t` goes
    by_cases hut : u = t
    · subst hut
      simpa [hpc] using hown
    · simpa [hpc, hut, hother u hut] using h.mutex u
  · intro id
    rw [hopen, hpc]
    by_cases hut : id.thread = t
    · simp [hut]
    · simpa [hut] using h.isOpen id

/-- The frame rule for a thread inside its critical section: nobody else has a publish open, so what
is open afterwards is its own. -/
theorem inv_move_inside {q : CallPc} (h : Inv s) (ht : s.pc t ≠ .next)
    (hpc : s'.pc = fun u => if u = t then q else s.pc u)
    (hmutex : s'.m_chMutex = if q = .next then none else some t)
    (hused : ∀ id part, .publish id part ∈ s'.wire → id.n < s'.published id.thread)
    (hopen : ∀ id, IsOpen s'.wire id ↔ id.thread = t ∧ q.midway = some id.n) : Inv s' := by
  -- within a locked call only `t` is inside, so every other frame is complete
  have hheld := (h.mutex t).mp ht
  refine inv_move h hpc ?_ ?_ hused ?_
  · rw [hmutex]
    split <;> simp_all
  · intro u hut
    rw [hmutex, hheld]
    split <;> simp [Ne.symm hut]
  · intro id
    rw [hopen]
    split
    · next hut => simp [hut]
    · next hut =>
      have hclosed : ¬ IsOpen s.wire id := by
        intro hid
        rw [h.isOpen] at hid
        refine hut (h.inside_unique (fun hnext => ?_) ht)
        simp [hnext, CallPc.midway] at hid
      simp [hut, hclosed]

omit [DecidableEq ι] in
/-- After a frame of the publish that thread `t` is in the middle of, that one is open unless the frame
was its last. -/
theorem Inv.isOpen_emit (h : Inv s) {n : Nat} {part : FramePart} (hmid : (s.pc t).midway = some n)
    (id : PublishId ι) :
    IsOpen (s.emit (.publish ⟨t, n⟩ part)).wire id ↔ id = ⟨t, n⟩ ∧ part ≠ .body true := by
  by_cases hid : id = ⟨t, n⟩
  · subst hid
    have hopen := (h.isOpen_iff hmid _).mpr rfl
    simp [isOpen_emit_self hopen.2]
  · rw [isOpen_emit_of_ne hid, h.isOpen_iff hmid]
    simp [hid]

omit [DecidableEq ι] in
/-- A frame of a publish that is on the wire already uses no new number. -/
theorem Inv.used_emit (h : Inv s) {n : Nat} {part : FramePart} (hmid : (s.pc t).midway = some n)
    (id : PublishId ι) (part' : FramePart)
    (hmem : .publish id part' ∈ (s.emit (.publish ⟨t, n⟩ part)).wire) :
    id.n < s.published id.thread := by
  simp only [emit, List.mem_append, List.mem_singleton] at hmem
  rcases hmem with hmem | hmem
  · exact h.used id part' hmem
  · cases hmem
    obtain ⟨⟨part'', hopen⟩, -⟩ := (h.isOpen_iff hmid _).mpr rfl
    exact h.used _ _ hopen

/-- A step inside a call keeps the invariant. -/
theorem inv_callEffect (h : Inv s) (he : CallEffect s t call s') : Inv s' := by
  cases he with
  | settle f hpc _ hf =>
      refine inv_move (q := .next) h rfl ?_ (fun u _ => Iff.rfl) ?_ ?_
      · -- a frame without the mutex: the thread stays outside, and no publish is opened or closed
        exact hpc ▸ h.mutex t
      · intro id part hid
        refine h.used id part ?_
        cases f with
        | publish => exact hf.elim
        | _ => simpa [finishCall, emit] using hid
      · intro id
        show IsOpen (s.emit f).wire id ↔ _
        rw [isOpen_emit_settles hf]
        split
        · next hut => rw [h.isOpen, hut, hpc]
        · rfl
  | lock hpc _ hfree =>
      refine inv_move (q := .method) h rfl (by simp [setPc]) ?_ h.used ?_
      · intro u hut
        simp [setPc, hfree, Ne.symm hut]
      · intro id
        show IsOpen s.wire id ↔ _
        split
        · next hut => rw [h.isOpen, hut, hpc]; rfl
        · rfl
  | beginPublish hpc =>
      have hinside : s.pc t ≠ .next := by simp [hpc]
      -- the number is new, so nothing of this publish is on the wire
      have hnew : .publish ⟨t, s.published t⟩ (.body true) ∉ s.wire := fun hmem =>
        Nat.lt_irrefl _ (h.used _ _ hmem)
      refine inv_move_inside (q := .header (s.published t)) h hinside rfl
        ((h.mutex t).mp hinside) ?_ ?_
      · intro id part hid
        simp only [beginPublish, emit, List.mem_append, List.mem_singleton] at hid ⊢
        rcases hid with hid | hid
        · have hlt := h.used id part hid
          split
          · next hut => rw [← hut]; omega
          · exact hlt
        · cases hid
          simp
      · intro id
        show IsOpen (s.emit _).wire id ↔ _
        by_cases hid : id = ⟨t, s.published t⟩
        · subst hid
          -- its first frame opens it
          rw [isOpen_emit_self hnew]
          simp [CallPc.midway]
        · rw [isOpen_emit_of_ne hid]
          -- and no other one is open, as the thread has the mutex
          have hclosed := h.not_isOpen hinside (by rw [hpc]; rfl) id
          simp only [hclosed, CallPc.midway, Option.some.injEq, false_iff]
          rintro ⟨hut, hn⟩
          exact hid (PublishId.ext hut hn.symm)
  | more n part pc hmid hpart hmid' =>
      have hinside : s.pc t ≠ .next := fun hnext => by simp [hnext, CallPc.midway] at hmid
      have hnext : pc ≠ .next := fun hnext => by simp [hnext, CallPc.midway] at hmid'
      refine inv_move_inside h hinside rfl ?_ (h.used_emit hmid) ?_
      · rw [if_neg hnext]
        exact (h.mutex t).mp hinside
      · intro id
        show IsOpen (s.emit _).wire id ↔ _
        rw [h.isOpen_emit hmid, hmid', PublishId.ext_iff]
        simp [hpart, eq_comm]
  | last n pc hmid hpc' =>
      have hinside : s.pc t ≠ .next := fun hnext => by simp [hnext, CallPc.midway] at hmid
      refine inv_move_inside h hinside rfl ?_ (h.used_emit hmid) ?_
      · rw [if_neg (by rcases hpc' with rfl | rfl <;> simp)]
        exact (h.mutex t).mp hinside
      · intro id
        show IsOpen (s.emit _).wire id ↔ _
        -- the last frame closes it
        rw [h.isOpen_emit hmid]
        rcases hpc' with rfl | rfl <;> simp [CallPc.midway]
  | ack tag hpc =>
      have hinside : s.pc t ≠ .next := by simp [hpc]
      refine inv_move_inside h hinside rfl ((h.mutex t).mp hinside) ?_ ?_
      · intro id part hid
        exact h.used id part (by simpa [setPc, emit] using hid)
      · intro id
        show IsOpen (s.emit _).wire id ↔ _
        rw [isOpen_emit_settles (show (.ack tag : Frame ι).Settles from trivial)]
        simp [h.not_isOpen hinside (by rw [hpc]; rfl) id, CallPc.midway]
  | unlock hpc =>
      have hinside : s.pc t ≠ .next := by simp [hpc]
      refine inv_move_inside (q := .next) h hinside rfl rfl h.used ?_
      intro id
      show IsOpen s.wire id ↔ _
      simp [h.not_isOpen hinside (by rw [hpc]; rfl) id, CallPc.midway]

/-- Every action keeps the invariant. -/
theorem inv_step (s : ChState ι) (act : ChAction ι) (s' : ChState ι) (h : Inv s)
    (hs : s.step bodyFrames act = some s') : Inv s' := by
  cases act with
  | start t job =>
      simp only [step] at hs
      split at hs
      · cases hs
        exact ⟨h.mutex, h.used, h.isOpen⟩
      · cases hs
  | step t =>
      simp only [step] at hs
      split at hs
      · cases hs
      · exact inv_callEffect h (callEffect hs)

/-! ## Who may break in -/

/-- Thread `t` is about to emit the frame of a `sendAck` or a `sendReject`. -/
def SettlesNext (s : ChState ι) (t : ChThread ι) : Prop :=
  s.pc t = .next ∧ ∃ call rest, s.calls t = call :: rest ∧ call.unlocked

/-- The condition on a step: a frame that is emitted without `m_chMutex` is emitted while no thread is
in the middle of a publish. -/
def Undisturbed (s : ChState ι) : ChAction ι → Prop
  | .start _ _ => True
  | .step t => SettlesNext s t → ∀ u, (s.pc u).midway = none

/-- **One step keeps the frames together just when it is undisturbed**: publishes and the
acknowledgement inside `sendResponse` are kept apart by the mutex, the rest is not. -/
theorem together_step (s : ChState ι) (act : ChAction ι) (s' : ChState ι) (h : Inv s)
    (hs : s.step bodyFrames act = some s') :
    Together s'.wire ↔ Together s.wire ∧ Undisturbed s act := by
  cases act with
  | start t job =>
      simp only [step] at hs
      split at hs
      · cases hs
        simp [Undisturbed]
      · cases hs
  | step t =>
      simp only [step] at hs
      split at hs
      · cases hs
      next call rest hcalls =>
      -- a step under the mutex has nothing to wait for
      have hquiet : s.pc t ≠ .next ∨ call.unlocked = false → Undisturbed s (.step t) := by
        rintro hor ⟨hpc, call', rest', hcalls', hunlocked⟩
        rw [hcalls] at hcalls'
        cases hcalls'
        rcases hor with hpc' | hlocked
        · exact absurd hpc hpc'
        · rw [hlocked] at hunlocked
          cases hunlocked
      cases callEffect hs with
      | settle f hpc hunlocked hf =>
          show Together (s.wire ++ [f]) ↔ _
          rw [together_snoc]
          -- the unlocked frame fits in just when no publish is open
          refine and_congr_right fun _ => ⟨fun hopen _ u => ?_, fun hund id hid => ?_⟩
          · cases hmid : (s.pc u).midway with
            | none => rfl
            | some n =>
                obtain ⟨part, rfl⟩ := hopen ⟨u, n⟩ ((h.isOpen _).mpr hmid)
                exact hf.elim
          · have hnone := hund ⟨hpc, call, rest, hcalls, hunlocked⟩ id.thread
            rw [h.isOpen, hnone] at hid
            cases hid
      | lock hpc hlocked _ => exact (and_iff_left (hquiet (.inr hlocked))).symm
      | beginPublish hpc =>
          show Together (s.wire ++ _) ↔ _
          rw [together_snoc, and_iff_left (hquiet (.inl (by simp [hpc])))]
          refine and_iff_left fun id hid => ?_
          exact absurd hid (h.not_isOpen (t := t) (by simp [hpc]) (by rw [hpc]; rfl) id)
      | more n part pc hmid _ _ | last n pc hmid _ =>
          have hinside : s.pc t ≠ .next := fun hnext => by simp [hnext, CallPc.midway] at hmid
          show Together (s.wire ++ _) ↔ _
          rw [together_snoc, and_iff_left (hquiet (.inl hinside))]
          refine and_iff_left fun id hid => ?_
          -- the open publish is the one that goes on
          rw [(h.isOpen_iff hmid id).mp hid]
          exact ⟨_, rfl⟩
      | ack tag hpc =>
          show Together (s.wire ++ _) ↔ _
          rw [together_snoc, and_iff_left (hquiet (.inl (by simp [hpc])))]
          refine and_iff_left fun id hid => ?_
          exact absurd hid (h.not_isOpen (t := t) (by simp [hpc]) (by rw [hpc]; rfl) id)
      | unlock hpc => exact (and_iff_left (hquiet (.inl (by simp [hpc])))).symm

/-! ## Whole runs -/

/-- **Frames of one message stay together exactly in undisturbed runs**: for every number of workers,
every sequence of jobs and every schedule that the mutex allows, the frames on the wire are together
if and only if every `sendAck` and `sendReject` emitted its frame while no thread was in the middle of
a publish. -/
theorem frames_together_iff (bodyFrames : Bytes → Nat) (acts : List (ChAction ι)) (s : ChState ι)
    (h : run (step bodyFrames) init acts = some s) :
    Together s.wire ↔ Guarded (step bodyFrames) Undisturbed init acts := by
  have hiff := guarded_iff (G := Undisturbed) (P := fun s => Together s.wire) inv_step
    together_step inv_init h
  rw [hiff]
  exact and_iff_right together_nil

/-- A job whose task succeeds. -/
def doneJob (deliveryTag : Nat) : Job :=
  .processImage (quietWorker ⟨[], some .kOk⟩) ⟨"c", "r", deliveryTag, taskBody⟩

/-- Worker 0 sends its `Done` response and acknowledges it before worker 1 begins its own. -/
def oneAfterTheOther : List (ChAction Nat) :=
  [.start (.worker 0) (doneJob 1), .start (.worker 1) (doneJob 2)] ++
    List.replicate 6 (.step (.worker 0)) ++ List.replicate 6 (.step (.worker 1))

theorem one_after_the_other_together_iff :
    ∃ s, run (step fun _ => 0) init oneAfterTheOther = some s ∧
      (Together s.wire ↔ Guarded (step fun _ => 0) Undisturbed init oneAfterTheOther) := by
  have hrun : (run (step fun _ => 0) init oneAfterTheOther).isSome := by rfl
  obtain ⟨s, hs⟩ := Option.isSome_iff_exists.mp hrun
  exact ⟨s, hs, frames_together_iff _ _ s hs⟩

/-- Worker 0 acknowledges its task while worker 1 is in the middle of its response. -/
def ackBetweenFrames : List (ChAction Nat) :=
  [.start (.worker 0) (doneJob 1), .start (.worker 1) (doneJob 2)] ++
    List.replicate 5 (.step (.worker 0)) ++ List.replicate 2 (.step (.worker 1)) ++
    [.step (.worker 0), .step (.worker 1), .step (.worker 1)]

theorem ack_between_frames :
    ∃ s, run (step fun _ => 0) init ackBetweenFrames = some s ∧ ¬ Together s.wire := by
  have hrun : (run (step fun _ => 0) init ackBetweenFrames).map wire =
      some [.publish ⟨.worker 0, 0⟩ .method, .publish ⟨.worker 0, 0⟩ .header,
        .publish ⟨.worker 0, 0⟩ (.body true), .publish ⟨.worker 1, 0⟩ .method, .ack 1,
        .publish ⟨.worker 1, 0⟩ .header, .publish ⟨.worker 1, 0⟩ (.body true)] := by rfl
  obtain ⟨s, hs, hwire⟩ := Option.map_eq_some_iff.mp hrun
  refine ⟨s, hs, fun htogether => ?_⟩
  rw [hwire] at htogether
  obtain ⟨part, hpart⟩ := htogether
    [.publish ⟨.worker 0, 0⟩ .method, .publish ⟨.worker 0, 0⟩ .header,
      .publish ⟨.worker 0, 0⟩ (.body true), .publish ⟨.worker 1, 0⟩ .method] (.ack 1) _ rfl
    ⟨.worker 1, 0⟩ ⟨⟨.method, by simp⟩, by simp⟩
  cases hpart

end ChState

end LimbWorker.AppTransport
