import LimbWorker.Utils.Basic
import Mathlib.Tactic.Common

/-!
# Tasks and their JSON parser

The task records of `task-types.hpp` and the parsing half of `JsonTaskParser`. simdjson is not part
of the repository: its parser is a function from bytes to a document or an error, and of the
document the code uses lookup by key and two typed getters.
-/

namespace LimbWorker.AppTasks

/-! ## Tasks -/

structure ImageTask where
  modelId : Nat
  imageId : String
  deriving DecidableEq, Repr

/-- `ImageTaskResult::Status`. -/
inductive ImageTaskResult.Status where
  | Done
  | Fail
  | Progress
  deriving DecidableEq, Repr

structure ImageTaskResult where
  message : String
  status : ImageTaskResult.Status
  deriving DecidableEq, Repr

structure PingTask where
  message : String
  deriving DecidableEq, Repr

structure AppInfoTask.AvailableProcessor where
  name : String
  index : Nat
  deriving DecidableEq, Repr

structure AppInfoTask where
  availableProcessors : List AppInfoTask.AvailableProcessor
  totalCpuThreads : Nat
  deriving DecidableEq, Repr

/-! ## Documents -/

/-- The errors of simdjson that the code can run into. -/
inductive SimdjsonError where
  | ILL_FORMED
  | NO_SUCH_FIELD
  | INCORRECT_TYPE
  | NUMBER_OUT_OF_RANGE
  deriving DecidableEq, Repr

/-- `simdjson::dom::element`; `int` are the numbers that simdjson keeps as integers. -/
inductive Json where
  | null
  | bool (b : Bool)
  | int (n : Int)
  | double
  | string (s : String)
  | array (elements : List Json)
  | object (fields : List (String × Json))

namespace Json

/-- `doc[key]`: the first field of that name. -/
def atKey (doc : Json) (key : String) : Except SimdjsonError Json :=
  match doc with
  | object fields =>
      match fields.lookup key with
      | some value => .ok value
      | none => .error .NO_SUCH_FIELD
  | _ => .error .INCORRECT_TYPE

/-- `get_uint64()`. -/
def get_uint64 : Json → Except SimdjsonError Nat
  | int n => if 0 ≤ n then .ok n.toNat else .error .NUMBER_OUT_OF_RANGE
  | _ => .error .INCORRECT_TYPE

/-- `get_string()`. -/
def get_string : Json → Except SimdjsonError String
  | string s => .ok s
  | _ => .error .INCORRECT_TYPE

/-- An object whose first field of that name has this value. -/
def HasField (doc : Json) (key : String) (value : Json) : Prop :=
  ∃ fields, doc = object fields ∧ fields.lookup key = some value

variable {doc value : Json} {key : String}

/-- Lookup succeeds on objects that have the field. -/
theorem atKey_eq_ok : doc.atKey key = .ok value ↔ doc.HasField key value := by
  constructor
  · intro h
    cases doc with
    | object fields =>
        cases hlookup : fields.lookup key with
        | none => simp [atKey, hlookup] at h
        | some found =>
            have hfound : found = value := by simpa [atKey, hlookup] using h
            exact ⟨fields, rfl, by rw [hlookup, hfound]⟩
    | _ => cases h
  · rintro ⟨fields, rfl, hlookup⟩
    simp [atKey, hlookup]

theorem get_string_eq_ok {text : String} : doc.get_string = .ok text ↔ doc = .string text := by
  constructor
  · intro h
    cases doc with
    | string text' =>
        cases h
        rfl
    | _ => cases h
  · rintro rfl
    rfl

theorem get_uint64_eq_ok {n : Nat} : doc.get_uint64 = .ok n ↔ doc = .int n := by
  constructor
  · intro h
    cases doc with
    | int m =>
        by_cases hm : 0 ≤ m
        · have hn : m.toNat = n := by simpa [get_uint64, hm] using h
          rw [← hn, Int.toNat_of_nonneg hm]
        · simp [get_uint64, hm] at h
    | _ => cases h
  · rintro rfl
    simp [get_uint64]

/-- Two accesses one after the other succeed when both do. -/
theorem bind_eq_ok {α β : Type} {x : Except SimdjsonError α} {f : α → Except SimdjsonError β} {b : β} :
    x >>= f = .ok b ↔ ∃ a, x = .ok a ∧ f a = .ok b := by
  cases x with
  | error e => exact iff_of_false (fun h => by cases h) fun ⟨a, h, _⟩ => by cases h
  | ok a =>
      constructor
      · exact fun h => ⟨a, rfl, h⟩
      · rintro ⟨a', ha', h⟩
        cases ha'
        exact h

theorem ok_bind {α β : Type} (a : α) (f : α → Except SimdjsonError β) : Except.ok a >>= f = f a := rfl

/-- **A string field**: `doc[key].get_string()`. -/
theorem string_at_eq_ok {text : String} :
    doc.atKey key >>= get_string = .ok text ↔ doc.HasField key (.string text) := by
  rw [bind_eq_ok]
  constructor
  · rintro ⟨value, hat, hstring⟩
    rw [get_string_eq_ok.mp hstring] at hat
    exact atKey_eq_ok.mp hat
  · intro h
    exact ⟨_, atKey_eq_ok.mpr h, rfl⟩

/-- **A field that is an unsigned integer**: `doc[key].get_uint64()`. -/
theorem uint64_at_eq_ok {n : Nat} :
    doc.atKey key >>= get_uint64 = .ok n ↔ doc.HasField key (.int n) := by
  rw [bind_eq_ok]
  constructor
  · rintro ⟨value, hat, hint⟩
    rw [get_uint64_eq_ok.mp hint] at hat
    exact atKey_eq_ok.mp hat
  · intro h
    exact ⟨_, atKey_eq_ok.mpr h, get_uint64_eq_ok.mpr rfl⟩

end Json

/-! ## The parser -/

/-- `JsonTaskParser` with its `simdjson::dom::parser`. -/
structure JsonTaskParser where
  m_parse : Bytes → Except SimdjsonError Json

namespace JsonTaskParser

/-- What both overloads of `parse` start with: `none` is the null pointer. Converting the result of
the parser to an element throws when it is an error. -/
def document (p : JsonTaskParser) (data : Option Bytes) :
    Except SimdjsonError (Except ReturnStatus Json) :=
  match data with
  | none => .ok (.error .kInvalidInput)
  | some data =>
      if data.length = 0 then .ok (.error .kInvalidInput)
      else (p.m_parse data).map .ok

/-- `parse` of an `ImageTask`. The outer error is an exception, the inner one a status that is not
`kOk`. -/
def parseImageTask (p : JsonTaskParser) (data : Option Bytes) :
    Except SimdjsonError (Except ReturnStatus ImageTask) := do
  match ← p.document data with
  | .error status => return .error status
  | .ok doc =>
      match doc.atKey "modelId" >>= Json.get_uint64 with
      | .error _ => return .error .kInvalidInput
      | .ok modelId =>
          if modelId > 0xFFFFFFFF then return .error .kInvalidInput
          else match doc.atKey "imageId" >>= Json.get_string with
            | .error _ => return .error .kInvalidInput
            | .ok imageId => return .ok ⟨modelId, imageId⟩

/-- `parse` of a `PingTask`. -/
def parsePingTask (p : JsonTaskParser) (data : Option Bytes) :
    Except SimdjsonError (Except ReturnStatus PingTask) := do
  match ← p.document data with
  | .error status => return .error status
  | .ok doc =>
      match doc.atKey "message" >>= Json.get_string with
      | .error _ => return .error .kInvalidInput
      | .ok message => return .ok ⟨message⟩

/-! ## What the messages mean -/

/-- The document that a message is: none for the null pointer, for no bytes at all, and for what the parser
reports an error of. -/
def jsonOf (p : JsonTaskParser) (data : Option Bytes) : Option Json :=
  data.bind fun bytes => if bytes = [] then none else (p.m_parse bytes).toOption

/-- The message is null, empty, or a JSON document. -/
def IsJson (p : JsonTaskParser) (data : Option Bytes) : Prop :=
  ∀ bytes, data = some bytes → bytes ≠ [] → ∃ doc, p.m_parse bytes = .ok doc

/-- A parsing function is total and exact: it returns a status, `kOk` just for the messages with a document that
`means` gives the task of, with that task, and `kInvalidInput` for all others. -/
structure TotalAndExact {α : Type} (p : JsonTaskParser) (data : Option Bytes) (means : Json → α → Prop)
    (result : Except SimdjsonError (Except ReturnStatus α)) : Prop where
  returns : ∃ r, result = .ok r
  accepts : ∀ task, result = .ok (.ok task) ↔ ∃ doc, p.jsonOf data = some doc ∧ means doc task
  refuses : (∀ task doc, p.jsonOf data = some doc → ¬ means doc task) → result = .ok (.error .kInvalidInput)

/-- An object with an unsigned `modelId` of 32 bits and a string `imageId`. -/
def MeansImageTask (doc : Json) (task : ImageTask) : Prop :=
  doc.HasField "modelId" (.int task.modelId) ∧ task.modelId ≤ 0xFFFFFFFF ∧
    doc.HasField "imageId" (.string task.imageId)

/-- An object with a string `message`. -/
def MeansPingTask (doc : Json) (task : PingTask) : Prop := doc.HasField "message" (.string task.message)

/-- The fields of an `ImageTask`, once there is a document. -/
def readImageTask (doc : Json) : Except ReturnStatus ImageTask :=
  match doc.atKey "modelId" >>= Json.get_uint64 with
  | .error _ => .error .kInvalidInput
  | .ok modelId =>
      if modelId > 0xFFFFFFFF then .error .kInvalidInput
      else match doc.atKey "imageId" >>= Json.get_string with
        | .error _ => .error .kInvalidInput
        | .ok imageId => .ok ⟨modelId, imageId⟩

/-- The field of a `PingTask`. -/
def readPingTask (doc : Json) : Except ReturnStatus PingTask :=
  match doc.atKey "message" >>= Json.get_string with
  | .error _ => .error .kInvalidInput
  | .ok message => .ok ⟨message⟩

variable {p : JsonTaskParser} {data : Option Bytes}

/-- A message that is JSON gets as far as the fields, or is refused for being empty. -/
theorem document_of_isJson (h : p.IsJson data) :
    (∃ doc, p.jsonOf data = some doc ∧ p.document data = .ok (.ok doc)) ∨
      p.jsonOf data = none ∧ p.document data = .ok (.error .kInvalidInput) := by
  cases data with
  | none => exact Or.inr ⟨rfl, rfl⟩
  | some bytes =>
      cases bytes with
      | nil => exact Or.inr ⟨rfl, rfl⟩
      | cons b bytes =>
          obtain ⟨doc, hdoc⟩ := h (b :: bytes) rfl (List.cons_ne_nil b bytes)
          refine Or.inl ⟨doc, ?_, ?_⟩
          · simp [jsonOf, hdoc, Except.toOption]
          · simp [document, hdoc, Except.map]

/-- Any other message is an exception. -/
theorem document_of_not_isJson (h : ¬ p.IsJson data) : ∃ e, p.document data = .error e := by
  unfold IsJson at h
  push Not at h
  obtain ⟨bytes, rfl, hne, hbad⟩ := h
  cases hparse : p.m_parse bytes with
  | ok doc => exact absurd hparse (hbad doc)
  | error e =>
      have hlength : bytes.length ≠ 0 := fun h => hne (List.eq_nil_of_length_eq_zero h)
      exact ⟨e, by simp [document, hlength, hparse, Except.map]⟩

/-- A function that gets the document and then reads its fields is total and exact just for what is JSON, if
reading the fields is exact. -/
theorem totalAndExact_iff {α : Type} {means : Json → α → Prop} {read : Json → Except ReturnStatus α}
    (hok : ∀ doc task, read doc = .ok task ↔ means doc task)
    (herror : ∀ doc status, read doc = .error status → status = .kInvalidInput) :
    TotalAndExact p data means ((p.document data).map fun r => r.bind read) ↔ p.IsJson data := by
  constructor
  · intro h
    by_contra hbad
    obtain ⟨e, he⟩ := document_of_not_isJson hbad
    obtain ⟨r, hr⟩ := h.returns
    rw [he] at hr
    cases hr
  · intro h
    -- an object to be read, or a text that is refused before
    rcases document_of_isJson h with ⟨doc, hjson, hdocument⟩ | ⟨hjson, hdocument⟩
    · rw [hdocument]
      refine ⟨⟨read doc, rfl⟩, fun task => ?_, fun hnone => ?_⟩
      · show Except.ok (read doc) = .ok (.ok task) ↔ _
        rw [Except.ok.injEq, hok, hjson]
        constructor
        · exact fun hmeans => ⟨doc, rfl, hmeans⟩
        · rintro ⟨doc', hdoc', hmeans⟩
          cases hdoc'
          exact hmeans
      · show Except.ok (read doc) = .ok (.error .kInvalidInput)
        cases hread : read doc with
        | ok task => exact absurd ((hok doc task).mp hread) (hnone task doc hjson)
        | error status => rw [herror doc status hread]
    · rw [hdocument]
      refine ⟨⟨_, rfl⟩, fun task => iff_of_false (fun h => by cases h) ?_, fun _ => rfl⟩
      rintro ⟨doc, hdoc, -⟩
      rw [hjson] at hdoc
      cases hdoc

theorem parseImageTask_eq : p.parseImageTask data = (p.document data).map fun r => r.bind readImageTask := by
  unfold parseImageTask
  cases p.document data with
  | error e => rfl
  | ok r =>
      cases r with
      | error status => rfl
      | ok doc =>
          rw [Json.ok_bind]
          show _ = Except.ok (readImageTask doc)
          unfold readImageTask
          dsimp only
          generalize doc.atKey "modelId" >>= Json.get_uint64 = modelId
          cases modelId with
          | error e => rfl
          | ok modelId =>
              by_cases hlarge : modelId > 0xFFFFFFFF
              · simp only [if_pos hlarge]
                rfl
              · simp only [if_neg hlarge]
                generalize doc.atKey "imageId" >>= Json.get_string = imageId
                cases imageId with
                | error e => rfl
                | ok imageId => rfl

theorem parsePingTask_eq : p.parsePingTask data = (p.document data).map fun r => r.bind readPingTask := by
  unfold parsePingTask
  cases p.document data with
  | error e => rfl
  | ok r =>
      cases r with
      | error status => rfl
      | ok doc =>
          rw [Json.ok_bind]
          show _ = Except.ok (readPingTask doc)
          unfold readPingTask
          dsimp only
          generalize doc.atKey "message" >>= Json.get_string = message
          cases message with
          | error e => rfl
          | ok message => rfl

/-- The fields of an `ImageTask` are read exactly. -/
theorem readImageTask_eq_ok (doc : Json) (task : ImageTask) :
    readImageTask doc = .ok task ↔ MeansImageTask doc task := by
  unfold readImageTask MeansImageTask
  rw [← Json.uint64_at_eq_ok, ← Json.string_at_eq_ok]
  cases doc.atKey "modelId" >>= Json.get_uint64 with
  | error e => exact iff_of_false (fun h => by cases h) fun h => by cases h.1
  | ok modelId =>
      -- the model number is read with 64 bits and must fit into 32
      by_cases hlarge : modelId > 0xFFFFFFFF
      · simp only [if_pos hlarge]
        refine iff_of_false (fun h => by cases h) ?_
        rintro ⟨hsame, hle, -⟩
        cases hsame
        exact absurd hle (Nat.not_le.mpr hlarge)
      · simp only [if_neg hlarge]
        cases doc.atKey "imageId" >>= Json.get_string with
        | error e => exact iff_of_false (fun h => by cases h) fun h => by cases h.2.2
        | ok imageId =>
            constructor
            · intro h
              cases h
              exact ⟨rfl, Nat.not_lt.mp hlarge, rfl⟩
            · obtain ⟨modelId', imageId'⟩ := task
              rintro ⟨hmodel, -, himage⟩
              cases hmodel
              cases himage
              rfl

theorem readImageTask_eq_error (doc : Json) (status : ReturnStatus) (h : readImageTask doc = .error status) :
    status = .kInvalidInput := by
  unfold readImageTask at h
  split at h
  · cases h
    rfl
  · split at h
    · cases h
      rfl
    · split at h
      · cases h
        rfl
      · cases h

/-- The field of a `PingTask` is read exactly. -/
theorem readPingTask_eq_ok (doc : Json) (task : PingTask) :
    readPingTask doc = .ok task ↔ MeansPingTask doc task := by
  unfold readPingTask MeansPingTask
  rw [← Json.string_at_eq_ok]
  cases doc.atKey "message" >>= Json.get_string with
  | error e => exact iff_of_false (fun h => by cases h) fun h => by cases h
  | ok message =>
      constructor
      · intro h
        cases h
        rfl
      · obtain ⟨message'⟩ := task
        intro h
        cases h
        rfl

theorem readPingTask_eq_error (doc : Json) (status : ReturnStatus) (h : readPingTask doc = .error status) :
    status = .kInvalidInput := by
  unfold readPingTask at h
  split at h
  · cases h
    rfl
  · cases h

/-- **Task messages are parsed totally and exactly** just when they are null, empty or JSON: for every parser
and every message, both for an `ImageTask` and for a `PingTask`. What is not JSON is an exception. -/
theorem parse_total_iff (p : JsonTaskParser) (data : Option Bytes) :
    (TotalAndExact p data MeansImageTask (p.parseImageTask data) ↔ p.IsJson data) ∧
      (TotalAndExact p data MeansPingTask (p.parsePingTask data) ↔ p.IsJson data) := by
  rw [parseImageTask_eq, parsePingTask_eq]
  exact ⟨totalAndExact_iff readImageTask_eq_ok readImageTask_eq_error,
    totalAndExact_iff readPingTask_eq_ok readPingTask_eq_error⟩

/-- A lone brace, which is not JSON. -/
theorem parse_brace_throws :
    let p : JsonTaskParser := ⟨fun _ => .error .ILL_FORMED⟩
    p.parsePingTask (some [0x7B]) = .error .ILL_FORMED ∧
      ¬ TotalAndExact p (some [0x7B]) MeansImageTask (p.parseImageTask (some [0x7B])) ∧
      ¬ TotalAndExact p (some [0x7B]) MeansPingTask (p.parsePingTask (some [0x7B])) := by
  refine ⟨rfl, fun h => ?_, fun h => ?_⟩
  · obtain ⟨r, hr⟩ := h.returns
    cases hr
  · obtain ⟨r, hr⟩ := h.returns
    cases hr

end JsonTaskParser

/-! ## The factory -/

inductive TaskParserType where
  | kJson
  | kProtobuf
  deriving DecidableEq, Repr

/-- `TaskParserFactory::fromType`; `json` is what `new (std::nothrow) JsonTaskParser()` gives. -/
def fromType (json : Option JsonTaskParser) : TaskParserType → Option JsonTaskParser
  | .kJson => json
  | .kProtobuf => none

end LimbWorker.AppTasks
