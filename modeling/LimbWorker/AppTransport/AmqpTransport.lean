import LimbWorker.AppTasks.TaskParser
import LimbWorker.Lib.Traced

/-!
# The handlers of `AmqpTransportAdapter`

What the three consumers do to the channel: a handler is a traced computation whose events are its
calls of `sendResponse`, `sendReject` and `sendAck`, in order. Everything else a handler meets is
answered by its surroundings — whether the pool takes the job, what simdjson makes of the body, what
each `serialize` returns, which callbacks the application makes and how it ends.
-/

namespace LimbWorker.AppTransport

open AppTasks Lib

/-- `AMQP::Message`, as far as the handlers read it. -/
structure Message where
  correlationID : String
  replyTo : String
  body : Bytes
  deriving DecidableEq, Repr

structure AmqpTask where
  correlationID : String
  replyTo : String
  deliveryTag : Nat
  body : Bytes
  deriving DecidableEq, Repr

/-- A call on the channel. The two overloads of `sendResponse` differ: the one for an `AmqpTask`
leaves the acknowledgement to its caller, the one for a `Message` acknowledges by itself. -/
inductive ChannelCall where
  | sendResponse (task : AmqpTask) (resp : Bytes)
  | sendResponseMessage (message : Message) (deliveryTag : Nat) (resp : Bytes)
  | sendReject (deliveryTag : Nat)
  | sendAck (deliveryTag : Nat)
  deriving DecidableEq, Repr

/-- How a handler can fail to return: an exception leaves it, or its behaviour is undefined. -/
inductive Fault where
  | threw
  | undefinedBehaviour
  deriving DecidableEq, Repr

abbrev Handler := Traced ChannelCall Fault

def sendReject (deliveryTag : Nat) : Handler Unit := .emit (.sendReject deliveryTag)

def sendAck (deliveryTag : Nat) : Handler Unit := .emit (.sendAck deliveryTag)

def sendResponse (task : AmqpTask) (resp : Bytes) : Handler Unit := .emit (.sendResponse task resp)

def sendResponseMessage (message : Message) (deliveryTag : Nat) (resp : Bytes) : Handler Unit :=
  .emit (.sendResponseMessage message deliveryTag resp)

/-! ## Surroundings -/

/-- The outcome of one `serialize` call. -/
inductive Serialized where
  | returned (status : ReturnStatus) (data : Bytes)
  | threw
  deriving DecidableEq, Repr

/-- What `m_app->processImage` does: the progress values it reports (as `std::format("{:.2f}")`
prints them), then the status it returns, or `none` when it throws. -/
structure AppRun where
  progress : List String
  result : Option ReturnStatus
  deriving DecidableEq, Repr

/-- `AppBase`, as the handlers use it. -/
structure AppBase where
  processImage : ImageTask → AppRun
  getAppInfo : AppInfoTask

/-- What one delivery meets. `json` is what `new (std::nothrow) JsonTaskParser()` gives, `tryPost`
the answer of the pool, `serializeResult k` the outcome of the `k`-th serialized `ImageTaskResult`
of the delivery. -/
structure Surroundings where
  json : Option JsonTaskParser
  tryPost : Bool
  serializeResult : Nat → ImageTaskResult → Serialized
  serializePing : PingTask → Serialized
  serializeAppInfo : AppInfoTask → Serialized
  app : AppBase

/-- `serialize(...) != kOk` leads to `failed`, `kOk` to `sent` with the bytes; an exception leaves
the handler. -/
def Serialized.handle (r : Serialized) (failed : Handler Unit) (sent : Bytes → Handler Unit) :
    Handler Unit :=
  match r with
  | .returned status data => if status ≠ .kOk then failed else sent data
  | .threw => .fault .threw

/-- An exception of simdjson leaves the handler. -/
def orThrow {α : Type} : Except SimdjsonError α → Handler α
  | .ok a => pure a
  | .error _ => .fault .threw

/-! ## The handlers -/

def g_pingRequestPayload : String := "Ping"

def g_pingResponse : String := "Pong"

def g_processImageDoneMessage : String := "Done"

def g_processImageFailMessage : String := "Fail"

/-- `AmqpTransportAdapter::handlePing`. -/
def handlePing (env : Surroundings) (message : Message) (deliveryTag : Nat) : Handler Unit := do
  match fromType env.json .kJson with
  | none => sendReject deliveryTag
  | some taskParser =>
      match ← orThrow (taskParser.parsePingTask (some message.body)) with
      | .error _ => sendReject deliveryTag
      | .ok task =>
          if task.message ≠ g_pingRequestPayload then sendReject deliveryTag
          else
            (env.serializePing ⟨g_pingResponse⟩).handle (sendReject deliveryTag) fun response =>
              sendResponseMessage message deliveryTag response

/-- `AmqpTransportAdapter::handleGetAppInfo`. -/
def handleGetAppInfo (env : Surroundings) (message : Message) (deliveryTag : Nat) :
    Handler Unit :=
  match fromType env.json .kJson with
  | none => sendReject deliveryTag
  | some _ =>
      (env.serializeAppInfo env.app.getAppInfo).handle (sendReject deliveryTag) fun response =>
        sendResponseMessage message deliveryTag response

/-- `progressCb` of `handleProcessImage`, called for the `k`-th time. -/
def progressCb (env : Surroundings) (message : AmqpTask) (k : Nat) (progress : String) :
    Handler Unit :=
  (env.serializeResult k ⟨progress, .Progress⟩).handle (sendReject message.deliveryTag)
    fun response => sendResponse message response

/-- The calls made from within `m_app->processImage`. What a callback throws is the application's to
catch or to let through. -/
def progressCalls (env : Surroundings) (message : AmqpTask) : Nat → List String → List ChannelCall
  | _, [] => []
  | k, progress :: rest =>
      (progressCb env message k progress).events ++ progressCalls env message (k + 1) rest

/-- `m_app->processImage(task, progressCb)`. -/
def processImage (env : Surroundings) (message : AmqpTask) (task : ImageTask) :
    Handler ReturnStatus :=
  let appRun := env.app.processImage task
  ⟨progressCalls env message 0 appRun.progress,
    match appRun.result with
    | some ret => .ok ret
    | none => .error .threw⟩

/-- The message of a failed run is looked up for the log, whether or not the table has one. -/
def logError (ret : ReturnStatus) : Handler Unit :=
  match ret.getErrorMessage with
  | some _ => pure ()
  | none => .fault .undefinedBehaviour

/-- `AmqpTransportAdapter::handleProcessImage`. -/
def handleProcessImage (env : Surroundings) (message : AmqpTask) : Handler Unit := do
  match fromType env.json .kJson with
  | none => sendReject message.deliveryTag
  | some taskParser =>
      match ← orThrow (taskParser.parseImageTask (some message.body)) with
      | .error _ => sendReject message.deliveryTag
      | .ok task =>
          let k := (env.app.processImage task).progress.length
          let ret ← processImage env message task
          if ret ≠ .kOk then
            logError ret
            (env.serializeResult k ⟨g_processImageFailMessage, .Fail⟩).handle
              (sendReject message.deliveryTag) fun response => sendResponse message response
          else
            (env.serializeResult k ⟨g_processImageDoneMessage, .Done⟩).handle
              (sendReject message.deliveryTag) fun response => do
                sendResponse message response
                sendAck message.deliveryTag

/-- The `ProcessImage` consumer: the task that the pool took, if it did. -/
def consumeProcessImage (env : Surroundings) (message : Message) (deliveryTag : Nat) :
    Handler (Option AmqpTask) :=
  let task : AmqpTask := ⟨message.correlationID, message.replyTo, deliveryTag, message.body⟩
  if env.tryPost = false then do
    sendReject deliveryTag
    return none
  else return some task

/-- The consumer, then the job it posted. The job is a `std::packaged_task`, which keeps exceptions to
itself. -/
def onReceived (env : Surroundings) (message : Message) (deliveryTag : Nat) : Handler Unit := do
  match ← consumeProcessImage env message deliveryTag with
  | some task => (handleProcessImage env task).swallow (· = .threw)
  | none => return ()

/-! ## What a handler can call -/

section Emits

variable {P : ChannelCall → Prop} {env : Surroundings}

theorem emits_handle {r : Serialized} {failed : Handler Unit} {sent : Bytes → Handler Unit}
    (hfailed : failed.Emits P) (hsent : ∀ data, (sent data).Emits P) : (r.handle failed sent).Emits P := by
  unfold Serialized.handle
  split
  · split
    · exact hfailed
    · exact hsent _
  · exact .fault _

theorem emits_orThrow {α : Type} (x : Except SimdjsonError α) : (orThrow x).Emits P := by
  cases x with
  | ok a => exact .pure a
  | error e => exact .fault _

theorem emits_progressCalls {message : AmqpTask} (hreject : P (.sendReject message.deliveryTag))
    (hresponse : ∀ resp, P (.sendResponse message resp)) (k : Nat) (progress : List String) :
    ∀ call ∈ progressCalls env message k progress, P call := by
  induction progress generalizing k with
  | nil => exact fun call h => by cases h
  | cons value rest ih =>
      intro call hcall
      rw [progressCalls, List.mem_append] at hcall
      exact hcall.elim (emits_handle (.emit hreject) (fun resp => .emit (hresponse resp)) call) (ih (k + 1) call)

/-- A job rejects, acknowledges and answers its own delivery, and nothing else. -/
theorem emits_handleProcessImage {message : AmqpTask} (hreject : P (.sendReject message.deliveryTag))
    (hack : P (.sendAck message.deliveryTag)) (hresponse : ∀ resp, P (.sendResponse message resp)) :
    (handleProcessImage env message).Emits P := by
  unfold handleProcessImage
  split
  · exact .emit hreject
  · refine .bind (emits_orThrow _) fun parsed => ?_
    split
    · exact .emit hreject
    · refine .bind (emits_progressCalls hreject hresponse 0 _) fun ret => ?_
      split
      · refine .bind ?_ fun _ => emits_handle (.emit hreject) fun resp => .emit (hresponse resp)
        unfold logError
        split
        · exact .pure ()
        · exact .fault _
      · exact emits_handle (.emit hreject) fun resp => .bind (.emit (hresponse resp)) fun _ => .emit hack

theorem emits_handlePing {message : Message} {tag : Nat} (hreject : P (.sendReject tag))
    (hresponse : ∀ resp, P (.sendResponseMessage message tag resp)) : (handlePing env message tag).Emits P := by
  unfold handlePing
  split
  · exact .emit hreject
  · refine .bind (emits_orThrow _) fun parsed => ?_
    split
    · exact .emit hreject
    · split
      · exact .emit hreject
      · exact emits_handle (.emit hreject) fun resp => .emit (hresponse resp)

theorem emits_handleGetAppInfo {message : Message} {tag : Nat} (hreject : P (.sendReject tag))
    (hresponse : ∀ resp, P (.sendResponseMessage message tag resp)) :
    (handleGetAppInfo env message tag).Emits P := by
  unfold handleGetAppInfo
  split
  · exact .emit hreject
  · exact emits_handle (.emit hreject) fun resp => .emit (hresponse resp)

theorem emits_consumeProcessImage {message : Message} {tag : Nat} (hreject : P (.sendReject tag)) :
    (consumeProcessImage env message tag).Emits P := by
  unfold consumeProcessImage
  dsimp only
  split
  · exact .bind (.emit hreject) fun _ => .pure none
  · exact .pure _

end Emits

/-! ## A quiet worker -/

/-- The text `{"modelId":0,"imageId":"i"}`. -/
def taskBody : Bytes :=
  [0x7B, 0x22, 0x6D, 0x6F, 0x64, 0x65, 0x6C, 0x49, 0x64, 0x22, 0x3A, 0x30, 0x2C, 0x22, 0x69, 0x6D, 0x61, 0x67,
    0x65, 0x49, 0x64, 0x22, 0x3A, 0x22, 0x69, 0x22, 0x7D]

/-- A worker whose parser reads `taskBody`, and whose serializer never fails. -/
def quietWorker (app : AppRun) : Surroundings where
  json := some ⟨fun text =>
    if text = taskBody then .ok (.object [("modelId", .int 0), ("imageId", .string "i")]) else .error .ILL_FORMED⟩
  tryPost := true
  serializeResult := fun _ _ => .returned .kOk []
  serializePing := fun _ => .returned .kOk []
  serializeAppInfo := fun _ => .returned .kOk []
  app := ⟨fun _ => app, ⟨[], 1⟩⟩

end LimbWorker.AppTransport
