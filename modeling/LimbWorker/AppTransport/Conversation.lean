import LimbWorker.AppTasks.TaskSerializer
import LimbWorker.AppTransport.Channel
import LimbWorker.AppTransport.Settlement
import LimbWorker.Lib.Logged

/-!
# What a client hears

A client sends a request with a correlation id and an address to reply to, and reads what is published there. The
threads of the service share the channel, so the answers to one client come between those to the others.

The log of a run holds the jobs that were started and the messages that were published. What a thread has published
and what it is still to publish is what its jobs publish (`Balanced`). With the real serializer, what a job publishes
is a conversation: the answers that `Job.answers` lists, each of which parses back as what it says (`conversation`).
-/

namespace LimbWorker.AppTransport

open AppTasks Lib

/-! ## Messages -/

/-- Where a client listens: `replyTo`, and the correlation id by which it tells its requests apart. -/
structure Address where
  replyTo : String
  correlationID : String
  deriving DecidableEq

/-- An envelope that is published to a client. -/
structure Published where
  address : Address
  body : Bytes
  deriving DecidableEq

/-- What a call publishes. -/
def ChannelCall.published : ChannelCall → Option Published
  | .sendResponse task resp => some ⟨⟨task.replyTo, task.correlationID⟩, resp⟩
  | .sendResponseMessage message _ resp => some ⟨⟨message.replyTo, message.correlationID⟩, resp⟩
  | .sendReject _ => none
  | .sendAck _ => none

/-- What a list of calls publishes. -/
def publishes (calls : List ChannelCall) : List Published := calls.filterMap ChannelCall.published

/-- The client that a job answers. The consumer of `ProcessImage` leaves the answer to the job that it posts. -/
def Job.address : Job → Option Address
  | .processImage _ task => some ⟨task.replyTo, task.correlationID⟩
  | .ping _ message _ => some ⟨message.replyTo, message.correlationID⟩
  | .getAppInfo _ message _ => some ⟨message.replyTo, message.correlationID⟩
  | .consume _ _ _ => none

/-- The surroundings of a job. -/
def Job.env : Job → Surroundings
  | .processImage env _ => env
  | .ping env _ _ => env
  | .getAppInfo env _ _ => env
  | .consume env _ _ => env

/-- The last answer to a `ProcessImage` request. There is none when the application throws, or returns a status that
has no message: the client only ever hears of progress then. -/
def finalAnswer : Option ReturnStatus → List Answer
  | none => []
  | some ret =>
      if ret = .kOk then [.imageTaskResult ⟨g_processImageDoneMessage, .Done⟩]
      else if ret.HasMessage then [.imageTaskResult ⟨g_processImageFailMessage, .Fail⟩]
      else []

/-- The answers to a request: every progress and the last answer, if there is one, or one answer, or none to a
request that cannot be read. -/
def Job.answers (p : JsonTaskParser) : Job → List Answer
  | .processImage env task =>
      match p.parseImageTask (some task.body) with
      | .ok (.ok imageTask) =>
          let appRun := env.app.processImage imageTask
          appRun.progress.map (fun progress => .imageTaskResult ⟨progress, .Progress⟩) ++ finalAnswer appRun.result
      | _ => []
  | .ping _ message _ =>
      if p.parsePingTask (some message.body) = .ok (.ok ⟨g_pingRequestPayload⟩) then [.pingTask ⟨g_pingResponse⟩]
      else []
  | .getAppInfo env _ _ => [.appInfoTask env.app.getAppInfo]
  | .consume _ _ _ => []

/-! ## The real serializer -/

/-- What `serialize` makes of an answer, whatever the builder holds. -/
def SerializesAs (w : TokenWriter) (r : Serialized) (answer : Answer) : Prop :=
  ∃ m_builder, r = .returned (JsonTaskParser.serialize w m_builder [] answer).2.1
    (JsonTaskParser.serialize w m_builder [] answer).2.2

/-- The surroundings have a parser and serialize with it, and the numbers of `getAppInfo` are of their types. -/
structure Surroundings.Real (w : TokenWriter) (p : JsonTaskParser) (env : Surroundings) : Prop where
  json : env.json = some p
  serializeResult : ∀ k task, SerializesAs w (env.serializeResult k task) (.imageTaskResult task)
  serializePing : ∀ task, SerializesAs w (env.serializePing task) (.pingTask task)
  serializeAppInfo : ∀ task, SerializesAs w (env.serializeAppInfo task) (.appInfoTask task)
  fits : (Answer.appInfoTask env.app.getAppInfo).Fits

section Conversation

variable {w : TokenWriter} {p : JsonTaskParser} {env : Surroundings}

theorem SerializesAs.eq {r : Serialized} {answer : Answer} (h : SerializesAs w r answer) (hfits : answer.Fits) :
    r = .returned .kOk (JsonTaskParser.answerText w answer) := by
  obtain ⟨m_builder, rfl⟩ := h
  rw [JsonTaskParser.serialize_eq w hfits]

/-- What is sent when an answer can be serialized. -/
theorem SerializesAs.handle {r : Serialized} {answer : Answer} (h : SerializesAs w r answer) (hfits : answer.Fits)
    (failed : Handler Unit) (sent : Bytes → Handler Unit) :
    r.handle failed sent = sent (JsonTaskParser.answerText w answer) := by
  rw [h.eq hfits]
  rfl

/-- The envelope with an answer. -/
def envelope (w : TokenWriter) (address : Address) (answer : Answer) : Published :=
  ⟨address, JsonTaskParser.answerText w answer⟩

/-- Every progress callback publishes its value. -/
theorem publishes_progressCalls (hreal : env.Real w p) (message : AmqpTask) (k : Nat) (progress : List String) :
    publishes (progressCalls env message k progress) =
      progress.map fun value => envelope w ⟨message.replyTo, message.correlationID⟩
        (.imageTaskResult ⟨value, .Progress⟩) := by
  induction progress generalizing k with
  | nil => rfl
  | cons value rest ih =>
      rw [progressCalls, progressCb, (hreal.serializeResult k _).handle trivial, publishes, List.filterMap_append]
      exact congrArg (_ :: ·) (ih (k + 1))

/-- A job of the pool publishes its answers. -/
theorem publishes_handleProcessImage (hreal : env.Real w p) (message : AmqpTask) :
    publishes (handleProcessImage env message).events =
      (Job.answers p (.processImage env message)).map (envelope w ⟨message.replyTo, message.correlationID⟩) := by
  unfold handleProcessImage Job.answers
  simp only [fromType, hreal.json]
  cases hparse : p.parseImageTask (some message.body) with
  | error e => rfl
  | ok parsed =>
      cases parsed with
      | error status => rfl
      | ok task =>
          -- the progress messages come first, whatever the result is
          have hprogress := publishes_progressCalls hreal message 0 (env.app.processImage task).progress
          simp only [orThrow, processImage, Traced.pure_bind]
          rw [List.map_append, List.map_map]
          cases hresult : (env.app.processImage task).result with
          | none =>
              rw [Traced.error_bind, finalAnswer, List.map_nil, List.append_nil]
              exact hprogress
          | some ret =>
              rw [Traced.ok_bind, publishes, List.filterMap_append]
              refine congrArg₂ (· ++ ·) hprogress ?_
              by_cases hret : ret = .kOk
              · subst hret
                rw [if_neg (by simp), (hreal.serializeResult _ _).handle trivial]
                rfl
              · rw [if_pos hret, (hreal.serializeResult _ _).handle trivial, logError_eq, finalAnswer, if_neg hret]
                -- a failure without a message ends the conversation in silence
                by_cases hmessage : ret.HasMessage
                · rw [if_pos hmessage, if_pos hmessage]
                  rfl
                · rw [if_neg hmessage, if_neg hmessage]
                  rfl

/-- **What a job publishes** are its answers, to its own client. -/
theorem publishes_calls {job : Job} {address : Address} (hjob : job.address = some address)
    (hreal : job.env.Real w p) : publishes job.calls = (job.answers p).map (envelope w address) := by
  cases job with
  | processImage env task =>
      cases hjob
      exact publishes_handleProcessImage hreal task
  | ping env message tag =>
      cases hjob
      replace hreal : env.Real w p := hreal
      unfold Job.calls handlePing Job.answers
      simp only [fromType, hreal.json]
      -- an unreadable ping is rejected without an answer
      cases hparse : p.parsePingTask (some message.body) with
      | error e => rfl
      | ok parsed =>
          cases parsed with
          | error status => simp [orThrow, sendReject, publishes, ChannelCall.published]
          | ok task =>
              simp only [orThrow, Traced.pure_bind]
              obtain ⟨text⟩ := task
              by_cases htext : text = g_pingRequestPayload
              · rw [if_neg (not_not_intro htext), (hreal.serializePing _).handle trivial, if_pos (by rw [htext])]
                rfl
              · rw [if_pos htext, if_neg (by simpa using htext)]
                rfl
  | getAppInfo env message tag =>
      cases hjob
      replace hreal : env.Real w p := hreal
      unfold Job.calls handleGetAppInfo
      simp only [fromType, hreal.json]
      rw [(hreal.serializeAppInfo _).handle hreal.fits]
      rfl
  | consume env message tag => cases hjob

end Conversation

/-! ## Whom a job speaks to -/

/-- **A job speaks to its own client**, whatever its surroundings do. -/
theorem speaksTo_calls (job : Job) : ∀ m ∈ publishes job.calls, job.address = some m.address := by
  intro m hm
  obtain ⟨call, hcall, hpublished⟩ := List.mem_filterMap.mp hm
  suffices h : ∀ call ∈ job.calls, ∀ m, call.published = some m → job.address = some m.address from
    h call hcall m hpublished
  cases job with
  | processImage env task =>
      refine emits_handleProcessImage (fun m hm => by cases hm) (fun m hm => by cases hm) fun resp m hm => ?_
      cases hm
      rfl
  | ping env message tag =>
      refine emits_handlePing (fun m hm => by cases hm) fun resp m hm => ?_
      cases hm
      rfl
  | getAppInfo env message tag =>
      refine emits_handleGetAppInfo (fun m hm => by cases hm) fun resp m hm => ?_
      cases hm
      rfl
  | consume env message tag => exact emits_consumeProcessImage fun m hm => by cases hm

/-! ## The log of a run -/

/-- An entry: a thread has started a job, or begun to publish a message. -/
inductive Heard (ι : Type) where
  | started (t : ChThread ι) (job : Job)
  | published (t : ChThread ι) (message : Published)

namespace ChState

section Log

variable {ι : Type} [DecidableEq ι]

omit [DecidableEq ι] in
/-- What is written down of a step: the job, and the message at its method frame. -/
def note (s : ChState ι) : ChAction ι → List (Heard ι)
  | .start t job => [.started t job]
  | .step t =>
      if s.pc t = .method then ((s.calls t).head?.bind ChannelCall.published).toList.map (.published t) else []

/-- The jobs of a thread. -/
def jobsOf (t : ChThread ι) (log : List (Heard ι)) : List Job :=
  log.filterMap fun
    | .started u job => if u = t then some job else none
    | .published _ _ => none

/-- The messages of a thread. -/
def publishedBy (t : ChThread ι) (log : List (Heard ι)) : List Published :=
  log.filterMap fun
    | .started _ _ => none
    | .published u message => if u = t then some message else none

omit [DecidableEq ι] in
/-- What a client hears. -/
def heard (address : Address) (log : List (Heard ι)) : List Published :=
  log.filterMap fun
    | .started _ _ => none
    | .published _ message => if message.address = address then some message else none

omit [DecidableEq ι] in
/-- The thread has begun to publish. -/
def begun : CallPc → Bool
  | .next => false
  | .method => false
  | _ => true

omit [DecidableEq ι] in
/-- What a thread is still to publish of its job. -/
def pending (s : ChState ι) (t : ChThread ι) : List Published :=
  publishes (if begun (s.pc t) then (s.calls t).tail else s.calls t)

/-- What a thread has published and is still to publish is what its jobs publish, and what it is still to publish
belongs to its last job. -/
structure Balanced (s : ChState ι) (log : List (Heard ι)) : Prop where
  idle : ∀ t, s.calls t = [] → s.pc t = .next
  balance : ∀ t, publishedBy t log ++ s.pending t = (jobsOf t log).flatMap fun job => publishes job.calls
  last : ∀ t, ∀ m ∈ s.pending t, ∃ job, (jobsOf t log).getLast? = some job ∧ m ∈ publishes job.calls

variable {bodyFrames : Bytes → Nat} {s s' : ChState ι} {t u : ChThread ι} {log log' : List (Heard ι)}

theorem balanced_init : Balanced (init : ChState ι) [] where
  idle := fun _ _ => rfl
  balance := fun _ => rfl
  last := fun _ _ h => by cases h

@[simp] theorem jobsOf_append (t : ChThread ι) (log log' : List (Heard ι)) :
    jobsOf t (log ++ log') = jobsOf t log ++ jobsOf t log' := List.filterMap_append

@[simp] theorem publishedBy_append (t : ChThread ι) (log log' : List (Heard ι)) :
    publishedBy t (log ++ log') = publishedBy t log ++ publishedBy t log' := List.filterMap_append

@[simp] theorem jobsOf_started (u t : ChThread ι) (job : Job) :
    jobsOf u [.started t job] = if t = u then [job] else [] := by
  unfold jobsOf
  split <;> simp_all

@[simp] theorem publishedBy_started (u t : ChThread ι) (job : Job) : publishedBy u [.started t job] = [] := rfl

omit [DecidableEq ι] in
theorem pending_of_idle (hidle : s.calls t = []) : s.pending t = [] := by
  rw [pending, hidle, List.tail_nil, ite_self]
  rfl

/-- A thread that takes a job is to publish what that job publishes. -/
theorem Balanced.start {job : Job} (h : Balanced s log) (hidle : s.calls t = []) :
    Balanced { s with calls := fun u => if u = t then job.calls else s.calls u } (log ++ [.started t job]) where
  idle := by
    intro u hu
    dsimp only at hu ⊢
    split at hu
    · next heq => exact heq ▸ h.idle t hidle
    · exact h.idle u hu
  balance := by
    intro u
    have hold := h.balance u
    by_cases hu : u = t
    · subst hu
      -- everything published before is balanced, and the new job is all still to come
      have hpc := h.idle u hidle
      rw [pending_of_idle hidle, List.append_nil] at hold
      simp [hold, pending, hpc, begun]
    · simpa [pending, hu, Ne.symm hu] using hold
  last := by
    intro u m hm
    by_cases hu : u = t
    · subst hu
      have hpc := h.idle u hidle
      refine ⟨job, by simp, ?_⟩
      simpa [pending, hpc, begun] using hm
    · obtain ⟨job', hjob', hmem⟩ := h.last u m (by simpa [pending, hu] using hm)
      exact ⟨job', by simpa [Ne.symm hu] using hjob', hmem⟩

/-- A thread that goes on with its job publishes what it was to publish. -/
theorem Balanced.goOn {entries : List (Heard ι)} (h : Balanced s log)
    (hidle : ∀ u, s'.calls u = [] → s'.pc u = .next)
    (hothers : ∀ u, u ≠ t → s'.pending u = s.pending u ∧ publishedBy u entries = [])
    (hjobs : ∀ u, jobsOf u entries = []) (hmine : s.pending t = publishedBy t entries ++ s'.pending t) :
    Balanced s' (log ++ entries) where
  idle := hidle
  balance := by
    intro u
    have hold := h.balance u
    rw [publishedBy_append, jobsOf_append, hjobs, List.append_nil, ← hold, List.append_assoc]
    by_cases hu : u = t
    · rw [hu, ← hmine]
    · obtain ⟨hpending, hpublished⟩ := hothers u hu
      rw [hpending, hpublished, List.nil_append]
  last := by
    intro u m hm
    rw [jobsOf_append, hjobs, List.append_nil]
    refine h.last u m ?_
    by_cases hu : u = t
    · rw [hu, hmine]
      exact List.mem_append_right _ (hu ▸ hm)
    · rwa [← (hothers u hu).1]

omit [DecidableEq ι] in
theorem publishes_cons (call : ChannelCall) (rest : List ChannelCall) :
    publishes (call :: rest) = call.published.toList ++ publishes rest := by
  unfold publishes
  rw [List.filterMap_cons]
  cases call.published <;> rfl

/-- A thread goes on inside its call. -/
theorem Balanced.inside (h : Balanced s log) {call : ChannelCall} {rest : List ChannelCall}
    (hcalls : s.calls t = call :: rest) (hcalls' : s'.calls = s.calls) (hpc : ∀ u, u ≠ t → s'.pc u = s.pc u)
    (hbegun : begun (s'.pc t) = begun (s.pc t)) (hmethod : s.pc t ≠ .method) :
    Balanced s' (log ++ s.note (.step t)) := by
  have hnote : s.note (.step t) = [] := if_neg hmethod
  rw [hnote]
  refine h.goOn (t := t) (fun u hu => ?_) (fun u hu => ⟨?_, rfl⟩) (fun u => rfl) ?_
  · rw [hcalls'] at hu
    have hut : u ≠ t := by
      rintro rfl
      rw [hcalls] at hu
      cases hu
    rw [hpc u hut, h.idle u hu]
  · rw [pending, pending, hcalls', hpc u hu]
  · rw [pending, pending, hcalls', hbegun]
    rfl

/-- A thread is done with its call, which publishes no more. -/
theorem Balanced.finish (h : Balanced s log) {call : ChannelCall} {rest : List ChannelCall} {s₁ : ChState ι}
    (hcalls : s.calls t = call :: rest) (hcalls' : s₁.calls = s.calls) (hpc : s₁.pc = s.pc)
    (hpending : s.pending t = publishes rest) (hmethod : s.pc t ≠ .method) :
    Balanced (s₁.finishCall t) (log ++ s.note (.step t)) := by
  have hnote : s.note (.step t) = [] := if_neg hmethod
  rw [hnote]
  refine h.goOn (t := t) (fun u hu => ?_) (fun u hu => ⟨?_, rfl⟩) (fun u => rfl) ?_
  · by_cases htu : u = t
    · simp [finishCall, htu]
    · simp only [finishCall, htu, if_false, hcalls', hpc] at hu ⊢
      exact h.idle u hu
  · simp [pending, finishCall, hcalls', hpc, hu]
  · rw [hpending]
    simp [pending, finishCall, hcalls', hcalls, begun, publishedBy]

/-- A thread begins to publish. -/
theorem Balanced.beginPublish (h : Balanced s log) {call : ChannelCall} {rest : List ChannelCall}
    (hcalls : s.calls t = call :: rest) (hpc : s.pc t = .method) :
    Balanced (s.beginPublish t) (log ++ s.note (.step t)) := by
  have hnoted : s.note (.step t) = call.published.toList.map (.published t) := by
    rw [note, if_pos hpc, hcalls]
    rfl
  rw [hnoted]
  refine h.goOn (t := t) (fun u hu => ?_) (fun u hu => ⟨?_, ?_⟩) (fun u => ?_) ?_
  · have hut : u ≠ t := by
      rintro rfl
      rw [show (s.beginPublish u).calls u = s.calls u from rfl, hcalls] at hu
      cases hu
    simp only [ChState.beginPublish, emit, hut, if_false] at hu ⊢
    exact h.idle u hu
  · simp [pending, ChState.beginPublish, emit, hu]
  · cases call.published <;> simp [publishedBy, Ne.symm hu]
  · cases call.published <;> rfl
  · have hmine : (s.beginPublish t).pending t = publishes rest := by
      simp [pending, ChState.beginPublish, emit, hcalls, begun]
    rw [hmine, pending, hpc, hcalls]
    refine (publishes_cons call rest).trans (congrArg (· ++ _) ?_)
    cases call.published <;> simp [publishedBy]

/-- In the midst of its frames a call has begun to publish. -/
theorem begun_of_midway {n : Nat} {pc : CallPc} (hmid : pc.midway = some n) : begun pc = true ∧ pc ≠ .method := by
  cases pc <;> simp [CallPc.midway, begun] at hmid ⊢

/-- A step of a thread. -/
theorem Balanced.step (h : Balanced s log) {call : ChannelCall} {rest : List ChannelCall}
    (hcalls : s.calls t = call :: rest) (hs : s.callStep bodyFrames t call = some s') :
    Balanced s' (log ++ s.note (.step t)) := by
  cases callEffect hs with
  | settle f hpc hunlocked hf =>
      refine h.finish hcalls rfl rfl ?_ (by simp [hpc])
      rw [pending, hpc, hcalls]
      cases call with
      | sendReject tag => rfl
      | sendAck tag => rfl
      | _ => cases hunlocked
  | lock hpc hlocked hfree =>
      exact h.inside hcalls rfl (fun u hu => if_neg hu) (by simp [setPc, hpc, begun]) (by simp [hpc])
  | beginPublish hpc => exact h.beginPublish hcalls hpc
  | more n part pc hpc hpart hpc' =>
      exact h.inside hcalls rfl (fun u hu => if_neg hu)
        (by simp [setPc, (begun_of_midway hpc).1, (begun_of_midway hpc').1]) (begun_of_midway hpc).2
  | last n pc hpc hpc' =>
      refine h.inside hcalls rfl (fun u hu => if_neg hu) ?_ (begun_of_midway hpc).2
      rw [(begun_of_midway hpc).1]
      rcases hpc' with rfl | rfl <;> simp [setPc, begun]
  | ack tag hpc =>
      exact h.inside hcalls rfl (fun u hu => if_neg hu) (by simp [setPc, hpc, begun]) (by simp [hpc])
  | unlock hpc =>
      refine h.finish hcalls rfl rfl ?_ (by simp [hpc])
      rw [pending, hpc, hcalls]
      rfl

/-- **Nothing is lost and nothing is made up**: in every run of the channel. -/
theorem balanced_run {acts : List (ChAction ι)}
    (h : run (logged (step bodyFrames) note) (init, []) acts = some (s, log)) : Balanced s log := by
  refine run_invariant (I := fun s : ChState ι × List (Heard ι) => Balanced s.1 s.2) ?_ balanced_init h
  rintro ⟨s, log⟩ act ⟨s', log'⟩ hbalanced hstep
  obtain ⟨hs, rfl⟩ := logged_eq_some hstep
  cases act with
  | start t job =>
      obtain ⟨⟨hidle, -⟩, hs⟩ := Option.ite_none_right_eq_some.mp hs
      cases hs
      exact hbalanced.start hidle
  | step t =>
      simp only [ChState.step] at hs
      split at hs
      · cases hs
      · next call rest hcalls => exact hbalanced.step hcalls hs

/-! ## One client among many -/

/-- The messages of a thread that has only jobs of other clients. -/
theorem Balanced.not_heard {address : Address} (h : Balanced s log)
    (hothers : ∀ job ∈ jobsOf u log, job.address ≠ some address) :
    ∀ m ∈ publishedBy u log, m.address ≠ address := by
  rintro m hm rfl
  have hmem : m ∈ (jobsOf u log).flatMap fun job => publishes job.calls := by
    rw [← h.balance u]
    exact List.mem_append_left _ hm
  obtain ⟨job, hjob, hpublished⟩ := List.mem_flatMap.mp hmem
  exact hothers job hjob (speaksTo_calls job m hpublished)

/-- What a client hears comes from the only thread that speaks to it. -/
theorem heard_eq {address : Address} (h : ∀ u, u ≠ t → ∀ m ∈ publishedBy u log, m.address ≠ address) :
    heard address log = (publishedBy t log).filter (·.address = address) := by
  induction log with
  | nil => rfl
  | cons entry log ih =>
      have hrest := ih fun u hu m hm => h u hu m (by
        rw [← List.singleton_append, publishedBy_append]
        exact List.mem_append_right _ hm)
      cases entry with
      | started u job => exact hrest
      | published u message =>
          have hheard : heard address (.published u message :: log) =
              (if message.address = address then [message] else []) ++ heard address log := by
            by_cases hmessage : message.address = address <;> simp [heard, hmessage]
          have hpublished : publishedBy t (.published u message :: log) =
              (if u = t then [message] else []) ++ publishedBy t log := by
            by_cases hu : u = t <;> simp [publishedBy, hu]
          rw [hheard, hpublished, List.filter_append, ← hrest]
          by_cases hu : u = t
          · rw [if_pos hu]
            by_cases hmessage : message.address = address <;> simp [hmessage]
          · -- what another thread publishes is not for this client
            have hother := h u hu message (by simp [publishedBy])
            simp [hu, hother]

omit [DecidableEq ι] in
/-- What other clients' jobs publish is nothing to this one. -/
theorem filter_flatMap_publishes {address : Address} {jobs : List Job}
    (h : ∀ job ∈ jobs, job.address ≠ some address) :
    (jobs.flatMap fun job => publishes job.calls).filter (·.address = address) = [] := by
  refine List.filter_eq_nil_iff.mpr fun m hm => ?_
  obtain ⟨job, hjob, hpublished⟩ := List.mem_flatMap.mp hm
  have hjob := h job hjob
  rw [speaksTo_calls job m hpublished] at hjob
  simpa using hjob

omit [DecidableEq ι] in
theorem mem_jobsOf [DecidableEq ι] {job : Job} : job ∈ jobsOf t log ↔ .started t job ∈ log := by
  unfold jobsOf
  rw [List.mem_filterMap]
  constructor
  · rintro ⟨entry, hentry, heq⟩
    cases entry with
    | started u job' =>
        obtain ⟨rfl, hjob⟩ := Option.ite_none_right_eq_some.mp heq
        cases hjob
        exact hentry
    | published u m => cases heq
  · intro h
    exact ⟨_, h, if_pos rfl⟩

/-- Every answer of a job with real surroundings fits. -/
theorem fits_answers {w : TokenWriter} {p : JsonTaskParser} {job : Job} (hreal : job.env.Real w p) :
    ∀ answer ∈ job.answers p, answer.Fits := by
  intro answer hanswer
  cases answer with
  | imageTaskResult task => exact trivial
  | pingTask task => exact trivial
  | appInfoTask task =>
      unfold Job.answers at hanswer
      split at hanswer
      · split at hanswer
        · rcases List.mem_append.mp hanswer with hprogress | hfinal
          · obtain ⟨_, -, heq⟩ := List.mem_map.mp hprogress
            cases heq
          · unfold finalAnswer at hfinal
            split at hfinal
            · cases hfinal
            · split_ifs at hfinal <;> simp at hfinal
        · cases hanswer
      · split_ifs at hanswer <;> simp at hanswer
      · cases List.mem_singleton.mp hanswer
        exact hreal.fits
      · cases hanswer

/-- **Every client hears its own conversation**: in every run of the channel, with any number of threads, a client whose
address is that of one job only hears the answers to its request, in order and each one once, and what it hears
parses as what was answered. When the thread has ended the job, the client has heard everything. Which answers these
are `Job.answers` says: a job that throws, or whose status has no message, has no last one, and a request that cannot
be read has none. -/
theorem conversation {w : TokenWriter} {p : JsonTaskParser} {acts : List (ChAction ι)} {before after : List (Heard ι)}
    {job : Job} {address : Address}
    (h : run (logged (step bodyFrames) note) (init, []) acts = some (s, before ++ .started t job :: after))
    (hjob : job.address = some address)
    (hown : ∀ u other, .started u other ∈ before ++ after → other.address ≠ some address)
    (hreal : job.env.Real w p) (hp : p.ReadsJson) :
    ∃ told untold, job.answers p = told ++ untold ∧
      List.Forall₂ (fun m answer => m.address = address ∧ p.ReadsBack m.body answer)
        (heard address (before ++ .started t job :: after)) told ∧
      (s.calls t = [] ∨ (∃ other, .started t other ∈ after) → untold = []) := by
  have hbalanced := balanced_run h
  have hjobs : ∀ u, jobsOf u (before ++ .started t job :: after) =
      jobsOf u before ++ (if t = u then [job] else []) ++ jobsOf u after := by
    intro u
    rw [← List.singleton_append, jobsOf_append, jobsOf_append, jobsOf_started, List.append_assoc]
  -- all other jobs are for other clients
  have hothers : ∀ u, ∀ other ∈ jobsOf u before ++ jobsOf u after, other.address ≠ some address := by
    intro u other hother
    refine hown u other (List.mem_append.mpr ?_)
    exact (List.mem_append.mp hother).imp mem_jobsOf.mp mem_jobsOf.mp
  -- so only thread `t` speaks to this client
  have hheard : heard address (before ++ .started t job :: after) = _ :=
    heard_eq fun u (hu : u ≠ t) => hbalanced.not_heard fun other hother => by
      rw [hjobs, if_neg (Ne.symm hu), List.append_nil] at hother
      exact hothers u other hother
  have hself : (publishes job.calls).filter (·.address = address) = publishes job.calls :=
    List.filter_eq_self.mpr fun m hm => by simpa [hjob, eq_comm] using speaksTo_calls job m hm
  -- what the thread publishes for this client is what this job publishes
  have hmine := congrArg (List.filter (·.address = address)) (hbalanced.balance t)
  rw [hjobs, if_pos rfl, List.flatMap_append, List.flatMap_append, List.filter_append, List.filter_append,
    List.filter_append, filter_flatMap_publishes fun other h => hothers t other (List.mem_append_left _ h),
    filter_flatMap_publishes fun other h => hothers t other (List.mem_append_right _ h), List.nil_append,
    List.append_nil, List.flatMap_singleton, ← hheard, hself, publishes_calls hjob hreal] at hmine
  -- what has been published and what is still to come are together the answers of the job
  obtain ⟨told, untold, hanswers, htold, huntold⟩ := List.map_eq_append_iff.mp hmine.symm
  refine ⟨told, untold, hanswers, ?_, fun hended => ?_⟩
  · rw [← htold, List.forall₂_map_left_iff, List.forall₂_same]
    intro answer hanswer
    have hfits := fits_answers hreal answer (hanswers ▸ List.mem_append_left _ hanswer)
    have hvalue := JsonTaskParser.isValue_answerText w 1020 hfits
    exact ⟨rfl, JsonTaskParser.readsBack_answerText w (hp _ _ hvalue)⟩
  · -- what the thread is still to publish is for somebody else
    refine List.map_eq_nil_iff.mp (huntold.trans (List.filter_eq_nil_iff.mpr fun m hm => ?_))
    rcases hended with hidle | ⟨other, hother⟩
    · rw [pending_of_idle hidle] at hm
      cases hm
    · obtain ⟨last, hlast, hpublished⟩ := hbalanced.last t m hm
      have hmem : last ∈ jobsOf t after := by
        have hsome : jobsOf t after ≠ [] := List.ne_nil_of_mem (mem_jobsOf.mpr hother)
        rw [hjobs, List.getLast?_append_of_ne_nil _ hsome] at hlast
        exact List.mem_of_getLast? hlast
      have hlast := hothers t last (List.mem_append_right _ hmem)
      rw [speaksTo_calls last m hpublished] at hlast
      simpa using hlast

/-- `serialize` with a new builder. -/
def serialized (w : TokenWriter) (answer : Answer) : Serialized :=
  let result := (JsonTaskParser.serialize w {} [] answer).2
  .returned result.1 result.2

/-- A service that has two processors. -/
def twoProcessors (w : TokenWriter) (p : JsonTaskParser) : Surroundings where
  json := some p
  tryPost := true
  serializeResult := fun _ task => serialized w (.imageTaskResult task)
  serializePing := fun task => serialized w (.pingTask task)
  serializeAppInfo := fun task => serialized w (.appInfoTask task)
  app := ⟨fun _ => ⟨[], some .kOk⟩, ⟨[⟨"realesrgan", 0⟩, ⟨"rmbg", 1⟩], 8⟩⟩

theorem twoProcessors_real (w : TokenWriter) (p : JsonTaskParser) : (twoProcessors w p).Real w p where
  json := rfl
  serializeResult := fun _ _ => ⟨{}, rfl⟩
  serializePing := fun _ => ⟨{}, rfl⟩
  serializeAppInfo := fun _ => ⟨{}, rfl⟩
  fits := by simp [twoProcessors, Answer.Fits, UInt32.size, UInt64.size]

/-- With the tokens and the parser of the grammar. -/
theorem conversation_getAppInfo :
    let w : TokenWriter := ⟨Lib.JsonText.quoted, Lib.JsonText.decimal, Lib.JsonText.isLiteral_quoted,
      Lib.JsonText.isDecimal_decimal⟩
    let p : JsonTaskParser := ⟨fun data =>
      ((Lib.JsonText.parse Json.values maxDepth data).elim (.error .ILL_FORMED) .ok)⟩
    let job : Job := .getAppInfo (twoProcessors w p) ⟨"7", "client", []⟩ 1
    ∃ (s : ChState Unit) (after : List (Heard Unit)) (told untold : List Answer), after.length = 1 ∧
      job.answers p = told ++ untold ∧
      List.Forall₂ (fun m answer => m.address = ⟨"client", "7"⟩ ∧ p.ReadsBack m.body answer)
        (heard ⟨"client", "7"⟩ ([] ++ .started .network job :: after)) told ∧
      (s.calls .network = [] ∨ (∃ other, .started .network other ∈ after) → untold = []) := by
  intro w p job
  have hp : p.ReadsJson := by
    intro text doc h
    show Option.elim _ _ _ = _
    rw [Lib.JsonText.parse_eq_some Json.values h]
    rfl
  have hrun : run (logged (ChState.step fun _ => 0) note) ((init : ChState Unit), [])
      (.start .network job :: List.replicate 6 (.step .network)) =
        some (_, [] ++ .started .network job :: [.published .network _]) := rfl
  obtain ⟨told, untold, hconversation⟩ := conversation hrun rfl (by simp) (twoProcessors_real w p) hp
  exact ⟨_, _, told, untold, rfl, hconversation⟩

end Log

end ChState

end LimbWorker.AppTransport
