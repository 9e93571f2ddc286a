import LimbWorker.AppTransport.AmqpTransport
import Mathlib.Algebra.Order.Ring.Nat

/-!
# Settling a `ProcessImage` delivery

The broker wants every delivery tag acknowledged or rejected once. This file counts: the consumer
and the job it posts settle a tag as often as their trace acknowledges or rejects it, and the count
is read off path by path.

The surroundings under which the count is one are spelled out in `SettlesOnce`. Outside of them the
handler forgets the tag (after the `Fail` response, after an exception) or settles it again (a
rejected progress message, then the final answer).
-/

namespace LimbWorker.AppTransport

open AppTasks Lib

/-- How often a call settles the tag. -/
def ChannelCall.settles (deliveryTag : Nat) : ChannelCall → Nat
  | .sendResponse _ _ => 0
  | .sendResponseMessage _ tag _ => if tag = deliveryTag then 1 else 0
  | .sendReject tag => if tag = deliveryTag then 1 else 0
  | .sendAck tag => if tag = deliveryTag then 1 else 0

/-- How often a list of calls settles the tag. -/
def settled (deliveryTag : Nat) (calls : List ChannelCall) : Nat :=
  (calls.map (ChannelCall.settles deliveryTag)).sum

/-- The run is defined, and settles the tag exactly once. -/
def SettledOnce (deliveryTag : Nat) (h : Handler Unit) : Prop :=
  h.result ≠ .error .undefinedBehaviour ∧ settled deliveryTag h.events = 1

/-- `serialize` returned, with a status that is not `kOk`. -/
def Serialized.failed : Serialized → Bool
  | .returned status _ => status ≠ .kOk
  | .threw => false

/-- The progress messages, from the `k`-th on, whose serialization returned a failure. -/
def progressFailures (env : Surroundings) : Nat → List String → Nat
  | _, [] => 0
  | k, progress :: rest =>
      (if (env.serializeResult k ⟨progress, .Progress⟩).failed then 1 else 0) +
        progressFailures env (k + 1) rest

/-- The surroundings in which a parsed task is settled once. After an exception of the application
or of the last `serialize`, only a failed progress message has settled the tag; `kOk` settles it
whether or not its answer can be serialized; any other status does so only when its answer cannot be
serialized, and must have a message to log. -/
def SettlesTask (env : Surroundings) (task : ImageTask) : Prop :=
  let appRun := env.app.processImage task
  let k := appRun.progress.length
  let failures := progressFailures env 0 appRun.progress
  match appRun.result with
  | none => failures = 1
  | some ret =>
      if ret = .kOk then
        failures = if env.serializeResult k ⟨g_processImageDoneMessage, .Done⟩ = .threw then 1 else 0
      else
        ret.HasMessage ∧
          failures =
            if (env.serializeResult k ⟨g_processImageFailMessage, .Fail⟩).failed then 0 else 1

/-- The surroundings in which a delivery is settled once: the pool refuses the job, there is no
parser, the parser returns a failure, or the parsed task is settled once. -/
def SettlesOnce (env : Surroundings) (message : Message) : Prop :=
  env.tryPost = false ∨
    match env.json with
    | none => True
    | some taskParser =>
        match taskParser.parseImageTask (some message.body) with
        | .error _ => False
        | .ok (.error _) => True
        | .ok (.ok task) => SettlesTask env task

/-! ## Counting -/

section Counting

variable (tag : Nat) (env : Surroundings)

@[simp] theorem settled_nil : settled tag [] = 0 := rfl

@[simp] theorem settled_cons (call : ChannelCall) (calls : List ChannelCall) :
    settled tag (call :: calls) = call.settles tag + settled tag calls := by
  simp [settled]

@[simp] theorem settled_append (calls calls' : List ChannelCall) :
    settled tag (calls ++ calls') = settled tag calls + settled tag calls' := by
  simp [settled]

/-- An answer without an acknowledgement settles the tag just when its serialization returns a
failure; it is never undefined. -/
theorem settled_respond (message : AmqpTask) (r : Serialized) :
    let answer := r.handle (sendReject message.deliveryTag) fun resp => sendResponse message resp
    answer.result ≠ .error .undefinedBehaviour ∧
      settled message.deliveryTag answer.events = if r.failed then 1 else 0 := by
  unfold Serialized.handle Serialized.failed
  cases r with
  | threw => simp
  | returned status data =>
      by_cases hstatus : status = .kOk
      · simp [hstatus, sendResponse, ChannelCall.settles]
      · simp [hstatus, sendReject, ChannelCall.settles]

/-- The `Done` answer settles the tag unless its serialization throws; it is never undefined. -/
theorem settled_done (message : AmqpTask) (r : Serialized) :
    let answer := r.handle (sendReject message.deliveryTag) fun resp => do
      sendResponse message resp
      sendAck message.deliveryTag
    answer.result ≠ .error .undefinedBehaviour ∧
      settled message.deliveryTag answer.events = if r = .threw then 0 else 1 := by
  unfold Serialized.handle
  cases r with
  | threw => simp
  | returned status data =>
      by_cases hstatus : status = .kOk
      · simp [hstatus, sendResponse, sendAck, ChannelCall.settles]
      · simp [hstatus, sendReject, ChannelCall.settles]

/-- The progress messages of a run settle the tag once for each failure. -/
theorem settled_progressCalls (message : AmqpTask) (k : Nat) (progress : List String) :
    settled message.deliveryTag (progressCalls env message k progress) =
      progressFailures env k progress := by
  induction progress generalizing k with
  | nil => rfl
  | cons p progress ih =>
      rw [progressCalls, settled_append, progressCb, (settled_respond message _).2, ih,
        progressFailures]

end Counting

/-! ## The handler -/

section Handler

variable {env : Surroundings} {task : ImageTask} {message : AmqpTask}

/-- The packaged task hides an exception, and neither settles nor unsettles anything. -/
theorem settledOnce_swallow (tag : Nat) (h : Handler Unit) :
    SettledOnce tag (h.swallow (· = .threw)) ↔ SettledOnce tag h := by
  unfold SettledOnce
  rw [Traced.events_swallow, Ne, Traced.result_swallow_eq_error]
  simp

/-- Rejecting is settling once. -/
theorem settledOnce_sendReject (tag : Nat) : SettledOnce tag (sendReject tag) := by
  simp [SettledOnce, sendReject, ChannelCall.settles]

/-- A handler that only throws settles nothing. -/
theorem not_settledOnce_throw (tag : Nat) : ¬ SettledOnce tag (Traced.fault .threw) := by
  simp [SettledOnce]

/-- Logging a status without a message is undefined. -/
theorem logError_eq (ret : ReturnStatus) :
    logError ret = if ret.HasMessage then pure () else Traced.fault .undefinedBehaviour := by
  have hmessage := ret.getErrorMessage_isSome_iff
  unfold logError
  split
  · next m h => rw [if_pos (hmessage.mp (by rw [h]; rfl))]
  · next h => rw [if_neg fun hm => by simpa [h] using hmessage.mpr hm]

/-- **A parsed task**: the failed progress messages and the final answer settle the tag together. -/
theorem settledOnce_task_iff {taskParser : JsonTaskParser} (hjson : env.json = some taskParser)
    (hparse : taskParser.parseImageTask (some message.body) = .ok (.ok task)) :
    SettledOnce message.deliveryTag (handleProcessImage env message) ↔ SettlesTask env task := by
  have hprogress := settled_progressCalls env message 0 (env.app.processImage task).progress
  unfold handleProcessImage SettlesTask SettledOnce
  simp only [fromType, hjson, hparse, orThrow, processImage, Traced.pure_bind]
  cases hres : (env.app.processImage task).result with
  | none => simp [hprogress]
  | some ret =>
      by_cases hret : ret = .kOk
      · obtain ⟨hdefined, hcount⟩ := settled_done message
          (env.serializeResult (env.app.processImage task).progress.length
            ⟨g_processImageDoneMessage, .Done⟩)
        simp only [hret, Traced.ok_bind, settled_append, hprogress, hcount, hdefined, ne_eq,
          not_true_eq_false, not_false_eq_true, true_and, if_true, if_false]
        split <;> omega
      · simp only [hret, Traced.ok_bind, settled_append, hprogress, logError_eq, ne_eq,
          not_false_eq_true, if_true, if_false]
        by_cases hmessage : ret.HasMessage
        · obtain ⟨hdefined, hcount⟩ := settled_respond message
            (env.serializeResult (env.app.processImage task).progress.length
              ⟨g_processImageFailMessage, .Fail⟩)
          simp only [hmessage, if_true, Traced.pure_bind, hcount, hdefined, not_false_eq_true,
            true_and]
          split <;> omega
        · simp [hmessage]

/-- **A `ProcessImage` delivery is settled exactly once** just in the surroundings `SettlesOnce`. -/
theorem processImage_settled_once_iff (env : Surroundings) (message : Message) (tag : Nat) :
    SettledOnce tag (onReceived env message tag) ↔ SettlesOnce env message := by
  unfold onReceived consumeProcessImage SettlesOnce
  cases env.tryPost with
  | false => exact iff_of_true (settledOnce_sendReject tag) (Or.inl rfl)
  | true =>
      simp only [Bool.true_eq_false, if_false, Traced.pure_bind, settledOnce_swallow, false_or]
      cases hjson : env.json with
      | none =>
          simp only [handleProcessImage, fromType, hjson, iff_true]
          exact settledOnce_sendReject tag
      | some taskParser =>
          dsimp only
          cases hparse : taskParser.parseImageTask (some message.body) with
          | error e =>
              simp only [handleProcessImage, fromType, hjson, hparse, orThrow, Traced.fault_bind,
                iff_false]
              exact not_settledOnce_throw tag
          | ok parsed =>
              cases parsed with
              | error status =>
                  simp only [handleProcessImage, fromType, hjson, hparse, orThrow,
                    Traced.pure_bind, iff_true]
                  exact settledOnce_sendReject tag
              -- all that is left is a task that could be read
              | ok task => exact settledOnce_task_iff hjson hparse

end Handler

/-! ## A delivery that is never settled -/

/-- An application that returns `kAborted` leaves its delivery unsettled: the `Fail` response is sent
without an acknowledgement. -/
theorem failed_task_not_settled :
    settled 7 (onReceived (quietWorker ⟨[], some .kAborted⟩) ⟨"c", "r", taskBody⟩ 7).events = 0 ∧
      ¬ SettledOnce 7 (onReceived (quietWorker ⟨[], some .kAborted⟩) ⟨"c", "r", taskBody⟩ 7) := by
  have hzero :
      settled 7 (onReceived (quietWorker ⟨[], some .kAborted⟩) ⟨"c", "r", taskBody⟩ 7).events = 0 := by
    rfl
  refine ⟨hzero, fun h => ?_⟩
  rw [SettledOnce, hzero] at h
  exact absurd h.2 (by decide)

end LimbWorker.AppTransport
