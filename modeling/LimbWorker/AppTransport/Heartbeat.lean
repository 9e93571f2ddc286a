import LimbWorker.Lib.StepSystem
import Mathlib.Algebra.Order.Floor.Ring
import Mathlib.Algebra.Order.Floor.Semiring
import Mathlib.Algebra.Order.Field.Basic
import Mathlib.Data.Rat.Floor
import Mathlib.Tactic.Linarith
import Mathlib.Tactic.NormNum

/-!
# Heartbeats

The thread of `AmqpHandler::heartbeater` beside the threads that send. Every send sets `lastMessage` to its
time; the heartbeater keeps `lastSent`, which it moves back to `lastMessage` when it finds that a message was
sent lately. The three places where it touches what others see (reading the clock, loading `lastMessage`,
`connection->heartbeat()`) are separate steps, and others may send between them.

Time is an exact number of seconds, and `uint16_t(diff.count())` keeps 16 bits of it. So after a pause of most of a
day the heartbeater may take a long silence for a short one. As long as what is cast fits in 16 bits, which it does
when iterations follow on one another in time (`fits_of_prompt`), heartbeats are sent when they should be.
-/

namespace LimbWorker.AppTransport

open Lib

/-! ## `onNegotiate` -/

/-- `DEFAULT_HEARTBEAT`, in seconds. -/
def DEFAULT_HEARTBEAT : Nat := 10

/-- `AmqpHandler::onNegotiate`: the interval for the server, and the one the heartbeater is started with. -/
def onNegotiate (heartbeat interval : Nat) : Nat × Option Nat :=
  if heartbeat = 0 then (0, none)
  else
    let interval := if interval < heartbeat then interval else heartbeat
    let interval := if interval < DEFAULT_HEARTBEAT then DEFAULT_HEARTBEAT else interval
    (interval, some interval)

/-- A heartbeater is started with the interval that the server is told, and never with a shorter one than the
default. -/
theorem onNegotiate_started {heartbeat interval i : Nat} (h : (onNegotiate heartbeat interval).2 = some i) :
    (onNegotiate heartbeat interval).1 = i ∧ DEFAULT_HEARTBEAT ≤ i := by
  unfold onNegotiate at h ⊢
  by_cases hzero : heartbeat = 0
  · rw [if_pos hzero] at h
    cases h
  · rw [if_neg hzero] at h ⊢
    cases h
    refine ⟨rfl, ?_⟩
    generalize (if interval < heartbeat then interval else heartbeat) = agreed
    by_cases hlt : agreed < DEFAULT_HEARTBEAT
    · rw [if_pos hlt]
    · rw [if_neg hlt]
      exact Nat.not_lt.mp hlt

/-! ## The threads -/

/-- Where the heartbeater is: in `sleep_for`, about to load `lastMessage`, or about to send; with the time that
it read from the clock. -/
inductive HeartbeaterPc (K : Type) where
  | sleeping
  | due (currentTime : K)
  | beats (currentTime : K)
  deriving DecidableEq, Repr

/-- The two time stamps and the heartbeater. The others are history variables: the time of the latest event,
all times at which something was sent, and the time that the last finished iteration read. -/
structure HeartbeatState (K : Type) where
  lastMessage : K
  lastSent : K
  pc : HeartbeaterPc K
  now : K
  sends : List K
  lastIteration : K
  deriving DecidableEq

/-- A send by another thread, or the next step of the heartbeater. -/
inductive HeartbeatAction (K : Type) where
  | send (t : K)
  | wake (t : K)
  | load
  | heartbeat (t : K)
  deriving DecidableEq, Repr

namespace HeartbeatState

variable {K : Type} [Field K] [LinearOrder K] [FloorRing K]

/-- What a conversion to an integer leaves: the fraction is cut off, towards zero. -/
def truncate (x : K) : Int := if 0 ≤ x then ⌊x⌋ else -⌊-x⌋

/-- `uint16_t(diff.count())`. Where `uint16_t` cannot hold the whole seconds the language does not say what comes
out; these are their low 16 bits, as on common machines. -/
def wholeSeconds (diff : K) : Nat := (truncate diff % 65536).toNat

/-- The heartbeater starts at `start`; the last message was sent at `message`. -/
def init (start message : K) : HeartbeatState K := ⟨message, start, .sleeping, start, [message], start⟩

variable (interval : Nat)

/-- One step; the clock does not run backwards. -/
def step (s : HeartbeatState K) : HeartbeatAction K → Option (HeartbeatState K)
  | .send t =>
      if s.now ≤ t then some { s with lastMessage := t, now := t, sends := s.sends ++ [t] } else none
  | .wake t =>
      if s.pc = .sleeping ∧ s.now ≤ t then
        if wholeSeconds (t - s.lastSent) ≥ interval then some { s with pc := .due t, now := t }
        else some { s with now := t, lastIteration := t }
      else none
  | .load =>
      match s.pc with
      | .due currentTime =>
          -- if less than the interval has passed since the last message, nothing is sent
          if wholeSeconds (currentTime - s.lastMessage) < interval then
            some { s with lastSent := s.lastMessage, pc := .sleeping, lastIteration := currentTime }
          else some { s with lastSent := currentTime, pc := .beats currentTime }
      | _ => none
  | .heartbeat t =>
      match s.pc with
      | .beats currentTime =>
          if s.now ≤ t then
            some { s with
              lastMessage := t, now := t, sends := s.sends ++ [t]
              pc := .sleeping, lastIteration := currentTime }
          else none
      | _ => none

/-! ## On time -/

/-- **Heartbeats keep the connection alive without being redundant**: after an iteration the last message is less
than an interval old (counted from the start, if there was none since); so as long as the last iteration is no more
than `R` ago the silence stays below the interval and `R`; and where a heartbeat is sent, no message was sent in the
interval before the time that the iteration read. -/
structure OnTime (start : K) (s : HeartbeatState K) : Prop where
  recent : s.lastIteration - max s.lastMessage start < interval
  silence : ∀ R t, t ≤ s.lastIteration + R → t - max s.lastMessage start < interval + R
  needed : ∀ t s', s.step interval (.heartbeat t) = some s' →
    ∃ currentTime, s.pc = .beats currentTime ∧ ∀ τ ∈ s.sends, τ < currentTime → ¬ currentTime - τ < interval

/-- Without its fraction the difference is one that `uint16_t` can hold. -/
def Fits (diff : K) : Prop := -1 < diff ∧ diff < ((65536 : Nat) : K)

/-- The condition on a step: what it casts fits. -/
def CastFits (s : HeartbeatState K) : HeartbeatAction K → Prop
  | .send _ => True
  | .wake t => Fits (t - s.lastSent)
  | .load =>
      match s.pc with
      | .due currentTime => Fits (currentTime - s.lastMessage)
      | _ => True
  | .heartbeat _ => True

/-! ## How the time stamps are related -/

/-- What is known of `lastSent` and of the time that the heartbeater has read, by where it is. -/
def PcInv (start : K) (s : HeartbeatState K) : Prop :=
  match s.pc with
  | .sleeping => s.lastSent ≤ max s.lastMessage start
  | .due t => t ≤ s.now ∧ s.lastIteration ≤ t
  | .beats t => t ≤ s.now ∧ s.lastIteration ≤ t ∧ s.lastSent = t ∧
      ∀ τ ∈ s.sends, τ < t → τ + interval ≤ t

/-- The invariant: `lastSent` may lie behind the last message, but never so far that an iteration could pass
over a silence of the whole interval. -/
structure Timely (start : K) (s : HeartbeatState K) : Prop where
  start_le : start ≤ s.now
  message_le : s.lastMessage ≤ s.now
  sends_le : ∀ τ ∈ s.sends, τ ≤ s.lastMessage
  iteration_le : s.lastIteration ≤ s.now
  iteration_lt : s.lastIteration < max s.lastMessage start + interval
  elapsed : s.lastIteration < s.lastSent + interval ∨ s.pc ≠ .sleeping
  pc : PcInv interval start s

variable {interval : Nat} {start message : K} {s s' : HeartbeatState K} [IsStrictOrderedRing K]

/-- Where it fits, nothing is lost but the fraction, and a negative difference counts as none. -/
theorem wholeSeconds_of_fits {diff : K} (h : Fits diff) : wholeSeconds diff = ⌊diff⌋.toNat := by
  obtain ⟨hlow, hhigh⟩ := h
  unfold wholeSeconds truncate
  split
  · next hnonneg =>
    have hfloor : 0 ≤ ⌊diff⌋ := Int.floor_nonneg.mpr hnonneg
    have hlt : ⌊diff⌋ < ((65536 : Nat) : Int) := by
      rw [Int.floor_lt, Int.cast_natCast]
      exact hhigh
    omega
  · next hneg =>
    -- less than a second below zero: nothing is left of it
    have hzero : ⌊-diff⌋ = 0 := by
      rw [Int.floor_eq_zero_iff]
      exact ⟨by linarith, by linarith⟩
    have hfloor : ⌊diff⌋ < 0 := by
      rw [Int.floor_lt, Int.cast_zero]
      exact not_le.mp hneg
    omega

/-- Cutting off the fraction changes nothing, as the interval is a whole number. -/
theorem le_wholeSeconds (hpos : 1 ≤ interval) {diff : K} (h : Fits diff) :
    interval ≤ wholeSeconds diff ↔ (interval : K) ≤ diff := by
  have hfloor : (interval : Int) ≤ ⌊diff⌋ ↔ (interval : K) ≤ diff := by
    rw [Int.le_floor, Int.cast_natCast]
  rw [wholeSeconds_of_fits h, ← hfloor]
  omega

omit [FloorRing K] in
theorem timely_init (hpos : 1 ≤ interval) (h : message ≤ start) :
    Timely interval start (init start message) := by
  have hcast : (0 : K) < interval := Nat.cast_pos.mpr hpos
  have hmax : start ≤ max message start := le_max_right message start
  refine ⟨le_refl start, h, fun τ hτ => ?_, le_refl start, ?_, Or.inl ?_, hmax⟩
  · rw [List.mem_singleton.mp hτ]
    exact le_refl message
  · exact lt_of_le_of_lt hmax (lt_add_of_pos_right _ hcast)
  · exact lt_add_of_pos_right start hcast

omit [FloorRing K] [IsStrictOrderedRing K] in
/-- A message that is sent now is the latest. -/
theorem Timely.sends_concat_le (h : Timely interval start s) {t : K} (hmessage : s.lastMessage ≤ t) :
    ∀ τ ∈ s.sends ++ [t], τ ≤ t := by
  intro τ hτ
  rcases List.mem_append.mp hτ with hold | hnew
  · exact le_trans (h.sends_le τ hold) hmessage
  · exact le_of_eq (List.mem_singleton.mp hnew)

omit [FloorRing K] in
/-- A message by another thread: nothing falls behind. -/
theorem Timely.send (h : Timely interval start s) {t : K} (ht : s.now ≤ t) :
    Timely interval start { s with lastMessage := t, now := t, sends := s.sends ++ [t] } := by
  have hmessage : s.lastMessage ≤ t := le_trans h.message_le ht
  have hmax : max s.lastMessage start ≤ max t start := max_le_max_right start hmessage
  refine ⟨le_trans h.start_le ht, le_refl t, h.sends_concat_le hmessage, le_trans h.iteration_le ht, ?_,
    h.elapsed, ?_⟩
  · exact lt_of_lt_of_le h.iteration_lt (add_le_add_left hmax _)
  · have hpc := h.pc
    unfold PcInv at hpc ⊢
    cases hs : s.pc with
    | sleeping =>
        simp only [hs] at hpc ⊢
        exact le_trans hpc hmax
    | due currentTime =>
        simp only [hs] at hpc ⊢
        exact ⟨le_trans hpc.1 ht, hpc.2⟩
    | beats currentTime =>
        simp only [hs] at hpc ⊢
        obtain ⟨hnow, hiter, hsent, hearlier⟩ := hpc
        refine ⟨le_trans hnow ht, hiter, hsent, fun τ hτ hlt => ?_⟩
        rcases List.mem_append.mp hτ with hold | hnew
        · exact hearlier τ hold hlt
        · -- the new message is not before the time that was read
          rw [List.mem_singleton.mp hnew] at hlt
          exact absurd hlt (not_lt.mpr (le_trans hnow ht))

/-- Waking up: an iteration that is not due ends at once. -/
theorem Timely.wake (hpos : 1 ≤ interval) (h : Timely interval start s) {t : K}
    (hfits : s.CastFits (.wake t)) (hstep : s.step interval (.wake t) = some s') : Timely interval start s' := by
  simp only [step] at hstep
  split at hstep
  · next hcond =>
    obtain ⟨hsleeping, ht⟩ := hcond
    have hpc := h.pc
    simp only [PcInv, hsleeping] at hpc
    split at hstep
    · cases hstep
      refine ⟨le_trans h.start_le ht, le_trans h.message_le ht, h.sends_le, le_trans h.iteration_le ht,
        h.iteration_lt, ?_, ?_⟩
      · exact Or.inr fun hpc => by cases hpc
      · exact ⟨le_refl t, le_trans h.iteration_le ht⟩
    · next hnot =>
      cases hstep
      -- not due: less than an interval has passed since the last heartbeat
      have hlt : t - s.lastSent < interval := by
        rw [ge_iff_le, le_wholeSeconds hpos hfits] at hnot
        exact not_le.mp hnot
      refine ⟨le_trans h.start_le ht, le_trans h.message_le ht, h.sends_le, le_refl t, ?_, Or.inl ?_, ?_⟩
      · show t < max s.lastMessage start + interval
        linarith
      · show t < s.lastSent + interval
        linarith
      · simpa only [PcInv, hsleeping] using hpc
  · cases hstep

/-- Loading `lastMessage`: a recent message becomes `lastSent`, and only without one is a heartbeat next. -/
theorem Timely.load (hpos : 1 ≤ interval) (h : Timely interval start s) (hfits : s.CastFits .load)
    (hstep : s.step interval .load = some s') : Timely interval start s' := by
  simp only [step] at hstep
  split at hstep
  · next currentTime hdue =>
    have hpc := h.pc
    simp only [PcInv, hdue] at hpc
    simp only [CastFits, hdue] at hfits
    have hmax : s.lastMessage ≤ max s.lastMessage start := le_max_left _ _
    split at hstep
    · next hrecent =>
      cases hstep
      -- less than an interval since the last message: the whole seconds say so because the cast fits
      have hlt : currentTime - s.lastMessage < interval := by
        rw [← not_le, le_wholeSeconds hpos hfits, not_le] at hrecent
        exact hrecent
      refine ⟨h.start_le, h.message_le, h.sends_le, hpc.1, ?_, Or.inl ?_, hmax⟩
      · show currentTime < max s.lastMessage start + interval
        linarith
      · show currentTime < s.lastMessage + interval
        linarith
    · next hsilent =>
      cases hstep
      have hle : (interval : K) ≤ currentTime - s.lastMessage := by
        rwa [not_lt, le_wholeSeconds hpos hfits] at hsilent
      refine ⟨h.start_le, h.message_le, h.sends_le, h.iteration_le, h.iteration_lt, ?_, ?_⟩
      · -- a heartbeat follows at once, so the iteration is not over yet
        exact Or.inr fun hpc => by cases hpc
      · refine ⟨hpc.1, hpc.2, rfl, fun τ hτ _ => ?_⟩
        have hτ' := h.sends_le τ hτ
        linarith
  · cases hstep

/-- The heartbeat is itself a message. -/
theorem Timely.heartbeat (hpos : 1 ≤ interval) (h : Timely interval start s) {t : K}
    (hstep : s.step interval (.heartbeat t) = some s') : Timely interval start s' := by
  have hcast : (0 : K) < interval := Nat.cast_pos.mpr hpos
  simp only [step] at hstep
  split at hstep
  · next currentTime hbeats =>
    have hpc := h.pc
    simp only [PcInv, hbeats] at hpc
    obtain ⟨hnow, -, hsent, -⟩ := hpc
    split at hstep
    · next ht =>
      cases hstep
      have hmessage : s.lastMessage ≤ t := le_trans h.message_le ht
      have hcurrent : currentTime ≤ t := le_trans hnow ht
      have hmax : t ≤ max t start := le_max_left _ _
      -- the heartbeat is the latest message, and no earlier than the time that was read
      refine ⟨le_trans h.start_le ht, le_refl t, h.sends_concat_le hmessage, hcurrent, ?_, Or.inl ?_, ?_⟩
      · show currentTime < max t start + interval
        linarith
      · show currentTime < s.lastSent + interval
        linarith
      · show s.lastSent ≤ max t start
        linarith
    · cases hstep
  · cases hstep

/-- **One step keeps the time stamps related**, if what it casts fits. -/
theorem Timely.step (hpos : 1 ≤ interval) {a : HeartbeatAction K} (h : Timely interval start s)
    (hfits : s.CastFits a) (hstep : s.step interval a = some s') : Timely interval start s' := by
  cases a with
  | send t =>
      simp only [HeartbeatState.step] at hstep
      split at hstep
      · next ht =>
        cases hstep
        exact h.send ht
      · cases hstep
  | wake t => exact h.wake hpos hfits hstep
  | load => exact h.load hpos hfits hstep
  | heartbeat t => exact h.heartbeat hpos hstep

/-- What the invariant says of the heartbeats. -/
theorem Timely.onTime (h : Timely interval start s) : OnTime interval start s := by
  have hlt := h.iteration_lt
  refine ⟨by linarith, fun R t ht => by linarith, fun t s' hstep => ?_⟩
  simp only [HeartbeatState.step] at hstep
  split at hstep
  · next currentTime hbeats =>
    have hpc := h.pc
    simp only [PcInv, hbeats] at hpc
    refine ⟨currentTime, hbeats, fun τ hτ hearlier hless => ?_⟩
    have hle := hpc.2.2.2 τ hτ hearlier
    linarith
  · cases hstep

variable {acts : List (HeartbeatAction K)}

theorem timely_of_run (hpos : 1 ≤ interval) (hmessage : message ≤ start)
    (hrun : run (step interval) (init start message) acts = some s)
    (hguard : Guarded (step interval) CastFits (init start message) acts) : Timely interval start s :=
  guarded_invariant (fun _ _ _ hs hfits hstep => hs.step hpos hfits hstep) (timely_init hpos hmessage) hrun hguard

/-- What is cast next fits as long as iterations are no further apart than 16 bits and the interval allow, and no
message is sent a second or more after the clock was read for the iteration that loads its time. -/
theorem fits_of_prompt (hpos : 1 ≤ interval) (hmessage : message ≤ start)
    (hrun : run (step interval) (init start message) acts = some s)
    (hguard : Guarded (step interval) CastFits (init start message) acts) {R : K}
    (hR : interval + R ≤ ((65536 : Nat) : K)) :
    (∀ t, s.pc = .sleeping → s.now ≤ t → t ≤ s.lastIteration + R → s.CastFits (.wake t)) ∧
    (∀ currentTime, s.pc = .due currentTime → currentTime ≤ s.lastIteration + R → start ≤ s.lastMessage →
      s.lastMessage < currentTime + 1 → s.CastFits .load) := by
  have h := timely_of_run hpos hmessage hrun hguard
  have hpc := h.pc
  constructor
  · intro t hsleeping hnow ht
    simp only [PcInv, hsleeping] at hpc
    have hsent : s.lastSent ≤ s.now := le_trans hpc (max_le h.message_le h.start_le)
    have helapsed : s.lastIteration < s.lastSent + interval := h.elapsed.resolve_right (not_not.mpr hsleeping)
    exact ⟨by linarith, by linarith⟩
  · intro currentTime hdue ht hstart hlast
    simp only [CastFits, hdue]
    have hlt := h.iteration_lt
    rw [max_eq_left hstart] at hlt
    exact ⟨by linarith, by linarith⟩

/-- **Heartbeats are on time** in every state of a run whose casts fit, whatever is sent in between. -/
theorem heartbeats_timely (hpos : 1 ≤ interval) (hmessage : message ≤ start)
    (hrun : run (step interval) (init start message) acts = some s)
    (hguard : Guarded (step interval) CastFits (init start message) acts) : OnTime interval start s :=
  (timely_of_run hpos hmessage hrun hguard).onTime

/-- A message after three seconds: the iteration at twelve sends nothing, and the one at fourteen a heartbeat. -/
def skipped : List (HeartbeatAction ℚ) := [.send 3, .wake 12, .load, .wake 14, .load, .heartbeat 14]

theorem skipped_heartbeats_timely :
    ∃ s : HeartbeatState ℚ, run (step 10) (init 0 0) skipped = some s ∧ s.sends = [0, 3, 14] ∧ OnTime 10 0 s := by
  have hrun : run (step 10) (init 0 0) skipped = some ⟨14, 14, .sleeping, 14, [0, 3, 14], 14⟩ := by decide +kernel
  have hguard : Guarded (step 10) CastFits (init 0 0) skipped := by
    have hsend : step 10 (init 0 0) (.send (3 : ℚ)) = some ⟨3, 0, .sleeping, 3, [0, 3], 0⟩ := by decide +kernel
    have hwake : step 10 ⟨3, 0, .sleeping, 3, [0, 3], 0⟩ (.wake (12 : ℚ)) =
        some ⟨3, 0, .due 12, 12, [0, 3], 0⟩ := by decide +kernel
    have hload : step 10 ⟨3, 0, .due (12 : ℚ), 12, [0, 3], 0⟩ .load =
        some ⟨3, 3, .sleeping, 12, [0, 3], 12⟩ := by decide +kernel
    have hwake' : step 10 ⟨3, 3, .sleeping, 12, [0, 3], 12⟩ (.wake (14 : ℚ)) =
        some ⟨3, 3, .due 14, 14, [0, 3], 12⟩ := by decide +kernel
    refine (guarded_cons hsend).mpr ⟨trivial, (guarded_cons hwake).mpr ⟨?_, (guarded_cons hload).mpr ⟨?_,
      (guarded_cons hwake').mpr ⟨?_, ?_, fun _ _ => ⟨trivial, fun _ _ => trivial⟩⟩⟩⟩⟩
    all_goals norm_num [CastFits, Fits]
  exact ⟨_, hrun, rfl, heartbeats_timely (by decide) (le_refl 0) hrun hguard⟩

/-- An iteration after a pause of 65541 seconds: the low 16 bits are five seconds, and nothing is sent. -/
theorem pause_not_onTime :
    ¬ ∀ s : HeartbeatState ℚ, Reachable (step 10) (init 0 0) s → OnTime 10 0 s := by
  intro h
  have hstep : step 10 (init 0 0) (.wake (65541 : ℚ)) = some ⟨0, 0, .sleeping, 65541, [0], 65541⟩ := by decide +kernel
  have hrecent := (h _ (Reachable.single hstep)).recent
  norm_num at hrecent

end HeartbeatState

end LimbWorker.AppTransport
