import LimbWorker.AppTransport.Buffer
import LimbWorker.Lib.StepSystem
import Mathlib.Data.List.TakeDrop
import Mathlib.Tactic.Common

/-!
# The outgoing byte stream of `AmqpHandler`

`onData` collects what the AMQP library wants to send in `outBuffer`, `sendDataFromBuffer` hands the
buffer to the socket. This file runs the two one call after another; the interleaved version is
`AppTransport/ConcurrentSend.lean`.

The socket is the environment: each `send1` accepts some amount of the bytes it is offered, or fails.
`sendDataFromBuffer` looks at neither answer and drains the buffer.
-/

namespace LimbWorker.AppTransport

open Lib

/-- `AmqpHandler::BUFFER_SIZE`, 8 MiB. -/
def BUFFER_SIZE : Nat := 8 * 1024 * 1024

/-- The answer of one `abnet::socket_ops::send1` call. -/
inductive SendResult where
  | accepted (count : Nat)
  | error
  deriving DecidableEq, Repr

/-- The bytes that reach the socket when `data` is offered. -/
def SendResult.taken : SendResult → Bytes → Bytes
  | .accepted count, data => data.take count
  | .error, _ => []

/-- The socket accepts all of `size` offered bytes. -/
def SendResult.AcceptsAll : SendResult → Nat → Prop
  | .accepted count, size => size ≤ count
  | .error, size => size = 0

/-- The outgoing half of `AmqpHandlerImpl`, with two history variables: what the socket has accepted
and what `onData` has been given. -/
structure Outgoing where
  outBuffer : Buffer
  sent : Bytes
  given : Bytes

namespace Outgoing

/-- `AmqpHandlerImpl` as constructed. -/
def init : Outgoing := ⟨Buffer.new BUFFER_SIZE, [], []⟩

/-- `AmqpHandler::sendDataFromBuffer`. The buffer is drained whatever `send1` said. -/
def sendDataFromBuffer (s : Outgoing) (r : SendResult) : Outgoing :=
  if s.outBuffer.available ≠ 0 then
    { s with sent := s.sent ++ r.taken s.outBuffer.data, outBuffer := s.outBuffer.drain }
  else s

/-- `AmqpHandler::onData`; `r` is the answer of `send1` should the call get to the flush. -/
def onData (s : Outgoing) (data : Bytes) (r : SendResult) : Outgoing :=
  let (outBuffer, writen) := s.outBuffer.write data
  let s := { s with outBuffer := outBuffer, given := s.given ++ data }
  if writen = data.length then
    let s := s.sendDataFromBuffer r
    { s with outBuffer := (s.outBuffer.write (data.drop writen)).1 }
  else s

/-- Everything that is still accounted for: accepted by the socket, then held in `outBuffer`. -/
def contents (s : Outgoing) : Bytes := s.sent ++ s.outBuffer.data

end Outgoing

/-- One call: `onData` from the AMQP library, or the flush at the end of a `loop` iteration. -/
inductive OutOp where
  | onData (data : Bytes) (r : SendResult)
  | sendDataFromBuffer (r : SendResult)
  deriving DecidableEq, Repr

/-- The bytes an operation adds to the stream. -/
def OutOp.payload : OutOp → Bytes
  | .onData data _ => data
  | .sendDataFromBuffer _ => []

/-- Execute one call. -/
def Outgoing.perform (s : Outgoing) : OutOp → Outgoing
  | .onData data r => s.onData data r
  | .sendDataFromBuffer r => s.sendDataFromBuffer r

/-- The calls `ops`, one after another, on a fresh handler. -/
def afterOps (ops : List OutOp) : Outgoing := ops.foldl Outgoing.perform .init

/-- `perform` as a step system: every call is always enabled. -/
def outStep (s : Outgoing) (op : OutOp) : Option Outgoing := some (s.perform op)

/-- The condition under which a call loses nothing: an `onData` payload fits into the space left in
`outBuffer`, and a flush of a non-empty buffer is accepted whole. -/
def Lossless (s : Outgoing) : OutOp → Prop
  | .onData data r =>
      s.outBuffer.available + data.length ≤ s.outBuffer.size ∧
        r.AcceptsAll (s.outBuffer.available + data.length)
  | .sendDataFromBuffer r => r.AcceptsAll s.outBuffer.available

/-! ## What a call keeps -/

namespace SendResult

theorem taken_sublist (r : SendResult) (data : Bytes) : (r.taken data).Sublist data := by
  cases r with
  | accepted count => exact List.take_sublist _ _
  | error => exact List.nil_sublist _

/-- The socket took everything just when it took the whole length. -/
theorem taken_eq_iff (r : SendResult) (data : Bytes) :
    r.taken data = data ↔ r.AcceptsAll data.length := by
  cases r with
  | accepted count => exact List.take_eq_self_iff data
  | error => exact ⟨fun h => List.length_eq_zero_iff.mpr h.symm,
      fun h => (List.length_eq_zero_iff.mp h).symm⟩

end SendResult

namespace Outgoing

/-- A flush keeps what the socket takes, in order. -/
theorem contents_sendDataFromBuffer (s : Outgoing) (r : SendResult) :
    (s.sendDataFromBuffer r).contents = s.sent ++ r.taken s.outBuffer.data := by
  unfold sendDataFromBuffer contents
  split
  · simp
  · next h =>
      have hempty : s.outBuffer.data = [] := by simpa using h
      have htaken : r.taken [] = [] := List.sublist_nil.mp (r.taken_sublist [])
      rw [hempty, htaken]

@[simp] theorem given_sendDataFromBuffer (s : Outgoing) (r : SendResult) :
    (s.sendDataFromBuffer r).given = s.given := by
  unfold sendDataFromBuffer
  split <;> rfl

@[simp] theorem given_onData (s : Outgoing) (data : Bytes) (r : SendResult) :
    (s.onData data r).given = s.given ++ data := by
  unfold onData
  dsimp only
  split
  · simp
  · rfl

/-- `onData` of a payload that fits: it joins the buffer, then everything is flushed. The second
`write` of the source has nothing left to write. -/
theorem contents_onData_of_fits {s : Outgoing} {data : Bytes} (r : SendResult)
    (h : s.outBuffer.available + data.length ≤ s.outBuffer.size) :
    (s.onData data r).contents = s.sent ++ r.taken (s.outBuffer.data ++ data) := by
  obtain ⟨hdata, hlen⟩ := Buffer.write_of_fits h
  unfold onData
  dsimp only
  rw [if_pos hlen, hlen, List.drop_length]
  unfold contents
  dsimp only
  rw [Buffer.write_nil]
  have hflush := contents_sendDataFromBuffer
    { s with outBuffer := (s.outBuffer.write data).1, given := s.given ++ data } r
  rw [hdata] at hflush
  exact hflush

/-- `onData` of a payload that does not fit: the buffer is filled, the rest is gone, and nothing is
flushed. -/
theorem contents_onData_of_not_fits {s : Outgoing} {data : Bytes} (r : SendResult)
    (h : s.outBuffer.size < s.outBuffer.available + data.length) :
    (s.onData data r).contents =
      s.contents ++ data.take (s.outBuffer.size - s.outBuffer.available) := by
  obtain ⟨hdata, hlen⟩ := Buffer.write_of_not_fits h
  unfold onData
  dsimp only
  rw [if_neg (by omega)]
  unfold contents
  dsimp only
  rw [hdata, List.append_assoc]

/-- **One call keeps the stream up to losses**: what is accounted for afterwards is a subsequence of
what was accounted for before followed by the payload, and it is all of it just when the call is
lossless. -/
theorem contents_perform (s : Outgoing) (op : OutOp) :
    (s.perform op).contents.Sublist (s.contents ++ op.payload) ∧
      ((s.perform op).contents = s.contents ++ op.payload ↔ Lossless s op) := by
  cases op with
  | sendDataFromBuffer r =>
      simp only [perform, OutOp.payload, List.append_nil, contents_sendDataFromBuffer]
      refine ⟨(r.taken_sublist _).append_left _, ?_⟩
      rw [contents, List.append_cancel_left_eq]
      exact r.taken_eq_iff _
  | onData data r =>
      simp only [perform, OutOp.payload]
      -- what does not fit behind the old contents is cut off
      by_cases hfits : s.outBuffer.available + data.length ≤ s.outBuffer.size
      · rw [contents_onData_of_fits r hfits, contents, List.append_assoc]
        refine ⟨(r.taken_sublist _).append_left _, ?_⟩
        have hlen : (s.outBuffer.data ++ data).length = s.outBuffer.available + data.length :=
          List.length_append
        rw [List.append_cancel_left_eq, r.taken_eq_iff, hlen]
        exact ⟨fun h => ⟨hfits, h⟩, fun h => h.2⟩
      · have hover : s.outBuffer.size < s.outBuffer.available + data.length := by omega
        rw [contents_onData_of_not_fits r hover]
        refine ⟨(List.take_sublist _ _).append_left _, ?_⟩
        rw [List.append_cancel_left_eq, List.take_eq_self_iff]
        constructor
        · intro h
          have hle : s.outBuffer.available ≤ s.outBuffer.size := s.outBuffer.fits
          omega
        · exact fun h => absurd h.1 hfits

theorem given_perform (s : Outgoing) (op : OutOp) :
    (s.perform op).given = s.given ++ op.payload := by
  cases op with
  | onData data r => exact given_onData s data r
  | sendDataFromBuffer r =>
      show (s.sendDataFromBuffer r).given = s.given ++ []
      rw [given_sendDataFromBuffer, List.append_nil]

end Outgoing

/-! ## Whole runs -/

theorem run_outStep (s : Outgoing) (ops : List OutOp) :
    run outStep s ops = some (ops.foldl Outgoing.perform s) := by
  induction ops generalizing s with
  | nil => rfl
  | cons op ops ih => exact ih (s.perform op)

theorem given_foldl (s : Outgoing) (ops : List OutOp) :
    (ops.foldl Outgoing.perform s).given = s.given ++ ops.flatMap OutOp.payload := by
  induction ops generalizing s with
  | nil => simp
  | cons op ops ih =>
      rw [List.foldl_cons, ih, Outgoing.given_perform, List.flatMap_cons, List.append_assoc]

/-- What was lost never comes back: the contents stay a subsequence of what was given, so the last
state still tells whether any call lost a byte. -/
theorem contents_eq_given_iff (s : Outgoing) (op : OutOp) (hsub : s.contents.Sublist s.given) :
    (s.perform op).contents = (s.perform op).given ↔ s.contents = s.given ∧ Lossless s op := by
  obtain ⟨hstep, hexact⟩ := s.contents_perform op
  rw [s.given_perform op, ← hexact]
  constructor
  · intro h
    have hlen : s.given.length + op.payload.length ≤ s.contents.length + op.payload.length := by
      calc s.given.length + op.payload.length
          = (s.perform op).contents.length := by rw [h, List.length_append]
        _ ≤ (s.contents ++ op.payload).length := hstep.length_le
        _ = s.contents.length + op.payload.length := List.length_append
    have hkept : s.contents = s.given := hsub.eq_of_length_le (by omega)
    exact ⟨hkept, by rw [h, hkept]⟩
  · rintro ⟨hkept, h⟩
    rw [h, hkept]

/-- **The outgoing stream is preserved exactly by lossless runs.** For every sequence of calls and
every answer of the socket, the bytes accepted so far followed by the bytes still buffered are the
payloads in order if and only if every call was lossless when it was made. -/
theorem outgoing_preserved_iff (ops : List OutOp) :
    (afterOps ops).sent ++ (afterOps ops).outBuffer.data = ops.flatMap OutOp.payload ↔
      Guarded outStep Lossless Outgoing.init ops := by
  have hiff := guarded_iff (G := Lossless) (I := fun s : Outgoing => s.contents.Sublist s.given)
    (P := fun s => s.contents = s.given)
    (fun s op s' hsub hs => by
      cases hs
      rw [s.given_perform op]
      exact (s.contents_perform op).1.trans (hsub.append_right _))
    (fun s op s' hsub hs => by
      cases hs
      exact contents_eq_given_iff s op hsub)
    (List.Sublist.refl _) (run_outStep Outgoing.init ops)
  have hgiven : (afterOps ops).given = ops.flatMap OutOp.payload := given_foldl Outgoing.init ops
  rw [← hgiven]
  refine hiff.trans ⟨fun h => h.2, fun h => ⟨rfl, h⟩⟩

/-- A payload longer than the whole buffer is never accounted for in full. -/
theorem not_preserved_of_oversized {data : Bytes} (r : SendResult)
    (h : BUFFER_SIZE < data.length) :
    (afterOps [.onData data r]).sent ++ (afterOps [.onData data r]).outBuffer.data ≠
      [OutOp.onData data r].flatMap OutOp.payload := by
  intro heq
  rw [List.flatMap_singleton] at heq
  have hlossless := (Outgoing.init.contents_perform (.onData data r)).2.mp heq
  exact absurd (Nat.le_trans (Nat.le_add_left _ _) hlossless.1) (Nat.not_le.mpr h)

/-- A short `send1` loses the rest of the buffer, and a payload one byte longer than `outBuffer`
loses its last byte. -/
theorem outgoing_not_preserved :
    (let ops : List OutOp := [.onData [1, 2] (.accepted 1)]
     (afterOps ops).sent ++ (afterOps ops).outBuffer.data ≠ ops.flatMap OutOp.payload) ∧
    (let ops : List OutOp := [.onData (List.replicate (BUFFER_SIZE + 1) 0) (.accepted (BUFFER_SIZE + 1))]
     (afterOps ops).sent ++ (afterOps ops).outBuffer.data ≠ ops.flatMap OutOp.payload) := by
  refine ⟨by decide, not_preserved_of_oversized _ ?_⟩
  rw [List.length_replicate]
  exact Nat.lt_succ_self _

end LimbWorker.AppTransport
