import LimbWorker.AppTasks.TaskParser
import LimbWorker.Lib.JsonText

/-!
# Serialised answers

The other half of `JsonTaskParser`: the three overloads of `serialize`. They share one builder, which each of
them clears, and put the brackets, the commas and the colons themselves.

The builder is simdjson's. It appends the tokens that its functions name; how it writes strings and numbers is a
parameter, with the promise that they are tokens of the grammar in `Lib.JsonText`.
-/

namespace LimbWorker.AppTasks

open Lib.JsonText (Text IsLiteral IsDecimal IsMember IsValue IsValueOver Values enclosed quote comma colon
  lbracket rbracket lbrace rbrace)

/-! ## The builder -/

/-- How simdjson writes strings, escaped and with quotes, and numbers. A message is a `String`, so it is valid Unicode;
a `std::string` may hold any bytes, and what is written of others is left open. -/
structure TokenWriter where
  quoted : String → Bytes
  decimal : Nat → Bytes
  isLiteral_quoted : ∀ s, IsLiteral (quoted s) s
  isDecimal_decimal : ∀ n, IsDecimal (decimal n) n

/-- `simdjson::builder::string_builder`: what has been appended since `clear`. -/
structure StringBuilder where
  text : Bytes := []

namespace StringBuilder

variable (w : TokenWriter) (b : StringBuilder)

def append (text : Bytes) : StringBuilder := ⟨b.text ++ text⟩

@[simp] def clear (_ : StringBuilder) : StringBuilder := {}

@[simp] def size : Nat := b.text.length

@[simp] def c_str : Bytes := b.text

@[simp] def start_object : StringBuilder := b.append [lbrace]

@[simp] def end_object : StringBuilder := b.append [rbrace]

@[simp] def start_array : StringBuilder := b.append [lbracket]

@[simp] def end_array : StringBuilder := b.append [rbracket]

@[simp] def append_comma : StringBuilder := b.append [comma]

@[simp] def append_colon : StringBuilder := b.append [colon]

@[simp] def escape_and_append_with_quotes (s : String) : StringBuilder := b.append (w.quoted s)

/-- `append_key_value` of a string. -/
@[simp] def append_key_value_string (key value : String) : StringBuilder :=
  ((b.escape_and_append_with_quotes w key).append_colon).escape_and_append_with_quotes w value

/-- `append_key_value` of a number. -/
@[simp] def append_key_value_number (key : String) (value : Nat) : StringBuilder :=
  ((b.escape_and_append_with_quotes w key).append_colon).append (w.decimal value)

@[simp] theorem append_append (first second : Bytes) :
    (b.append first).append second = b.append (first ++ second) :=
  congrArg mk (List.append_assoc b.text first second)

end StringBuilder

/-! ## The overloads -/

/-- `int32_t(task.status)`. -/
def ImageTaskResult.Status.toInt : ImageTaskResult.Status → Nat
  | .Done => 0
  | .Fail => 1
  | .Progress => 2

namespace JsonTaskParser

variable (w : TokenWriter)

/-- The end of each overload: the vector is resized to the text, which is copied over it. -/
def copyOut (m_builder : StringBuilder) (data : Bytes) : StringBuilder × ReturnStatus × Bytes :=
  let size := m_builder.size
  let data := data.take size ++ List.replicate (size - data.length) 0
  let data := m_builder.c_str ++ data.drop size
  (m_builder, .kOk, data)

/-- `serialize` of an `ImageTaskResult`. -/
def serializeImageTaskResult (m_builder : StringBuilder) (data : Bytes) (task : ImageTaskResult) :
    StringBuilder × ReturnStatus × Bytes :=
  let m_builder := m_builder.clear
  let m_builder := m_builder.start_object
  let m_builder := m_builder.append_key_value_string w "message" task.message
  let m_builder := m_builder.append_comma
  let m_builder := m_builder.append_key_value_number w "status" task.status.toInt
  let m_builder := m_builder.end_object
  copyOut m_builder data

/-- `serialize` of a `PingTask`. -/
def serializePingTask (m_builder : StringBuilder) (data : Bytes) (task : PingTask) :
    StringBuilder × ReturnStatus × Bytes :=
  let m_builder := m_builder.clear
  let m_builder := m_builder.start_object
  let m_builder := m_builder.append_key_value_string w "message" task.message
  let m_builder := m_builder.end_object
  copyOut m_builder data

/-- The body of the loop over the processors, with `i` and `size()` of type `size_t`. -/
def appendProcessor (size : UInt64) (m_builder : StringBuilder)
    (entry : AppInfoTask.AvailableProcessor × Nat) : StringBuilder :=
  let m_builder := m_builder.start_object
  let m_builder := m_builder.append_key_value_number w "index" entry.1.index
  let m_builder := m_builder.append_comma
  let m_builder := m_builder.append_key_value_string w "name" entry.1.name
  let m_builder := m_builder.end_object
  if UInt64.ofNat entry.2 < size - 1 then m_builder.append_comma else m_builder

/-- `serialize` of an `AppInfoTask`. -/
def serializeAppInfoTask (m_builder : StringBuilder) (data : Bytes) (task : AppInfoTask) :
    StringBuilder × ReturnStatus × Bytes :=
  let m_builder := m_builder.clear
  let m_builder := m_builder.start_object
  let m_builder := m_builder.append_key_value_number w "totalCpuThreads" task.totalCpuThreads
  let m_builder := m_builder.append_comma
  let m_builder := m_builder.escape_and_append_with_quotes w "availableProcessors"
  let m_builder := m_builder.append_colon
  let m_builder := m_builder.start_array
  let m_builder := task.availableProcessors.zipIdx.foldl
    (appendProcessor w (UInt64.ofNat task.availableProcessors.length)) m_builder
  let m_builder := m_builder.end_array
  let m_builder := m_builder.end_object
  copyOut m_builder data

end JsonTaskParser

/-- What the overloads take. -/
inductive Answer where
  | imageTaskResult (task : ImageTaskResult)
  | pingTask (task : PingTask)
  | appInfoTask (task : AppInfoTask)

namespace JsonTaskParser

variable (w : TokenWriter)

/-- The overload for an answer. -/
def serialize (m_builder : StringBuilder) (data : Bytes) : Answer → StringBuilder × ReturnStatus × Bytes
  | .imageTaskResult task => serializeImageTaskResult w m_builder data task
  | .pingTask task => serializePingTask w m_builder data task
  | .appInfoTask task => serializeAppInfoTask w m_builder data task

/-- Calls one after the other, each with the vector it is to fill. -/
def serializeAll (m_builder : StringBuilder) : List (Bytes × Answer) → List (ReturnStatus × Bytes)
  | [] => []
  | (data, answer) :: calls =>
      let (m_builder, result) := serialize w m_builder data answer
      result :: serializeAll m_builder calls

end JsonTaskParser

/-! ## What the answers say -/

/-- The numbers are of their types, and the processors are a vector. -/
def Answer.Fits : Answer → Prop
  | .appInfoTask task => task.totalCpuThreads < UInt32.size ∧
      task.availableProcessors.length < UInt64.size ∧
      ∀ processor ∈ task.availableProcessors, processor.index < UInt32.size
  | _ => True

/-- The documents that the grammar is about: those of simdjson, with numbers that are unsigned integers. -/
def Json.values : Values Json where
  string := .string
  number n := .int n
  array := .array
  object := .object
  limit := UInt64.size

/-- simdjson's limit to the depth of a document. -/
def maxDepth : Nat := 1024

/-- The parser reads JSON. The strings that it gives are `String`s, valid Unicode as in every text that simdjson
accepts. -/
def JsonTaskParser.ReadsJson (p : JsonTaskParser) : Prop :=
  ∀ text doc, IsValue Json.values maxDepth text doc → p.m_parse text = .ok doc

/-- The status with a value. -/
def ImageTaskResult.Status.ofInt : Nat → Option ImageTaskResult.Status
  | 0 => some .Done
  | 1 => some .Fail
  | 2 => some .Progress
  | _ => none

/-- An `ImageTaskResult` is read back by its two fields. -/
def readImageTaskResult (doc : Json) : Option ImageTaskResult :=
  match doc.atKey "message" >>= Json.get_string, doc.atKey "status" >>= Json.get_uint64 with
  | .ok message, .ok status => (ImageTaskResult.Status.ofInt status).map fun status => ⟨message, status⟩
  | _, _ => none

def readProcessor (doc : Json) : Option AppInfoTask.AvailableProcessor :=
  match doc.atKey "name" >>= Json.get_string, doc.atKey "index" >>= Json.get_uint64 with
  | .ok name, .ok index => some ⟨name, index⟩
  | _, _ => none

/-- An `AppInfoTask` is read back by its number and, one after the other, its processors. -/
def readAppInfoTask (doc : Json) : Option AppInfoTask :=
  match doc.atKey "availableProcessors", doc.atKey "totalCpuThreads" >>= Json.get_uint64 with
  | .ok (.array elements), .ok totalCpuThreads =>
      (elements.mapM readProcessor).map fun availableProcessors => ⟨availableProcessors, totalCpuThreads⟩
  | _, _ => none

namespace JsonTaskParser

/-- Parsing the bytes gives the answer back; a `PingTask` by the code's own `parse`. -/
def ReadsBack (p : JsonTaskParser) (data : Bytes) : Answer → Prop
  | .imageTaskResult task => ∃ doc, p.jsonOf (some data) = some doc ∧ readImageTaskResult doc = some task
  | .pingTask task => p.parsePingTask (some data) = .ok (.ok task)
  | .appInfoTask task => ∃ doc, p.jsonOf (some data) = some doc ∧ readAppInfoTask doc = some task

/-- A call did what it should: it returned `kOk` and filled the vector with JSON that can be read back, the same
that a new builder gives. -/
structure Faithful (w : TokenWriter) (p : JsonTaskParser) (answer : Answer) (result : ReturnStatus × Bytes) :
    Prop where
  status : result.1 = .kOk
  own : result = (serialize w {} [] answer).2
  wellFormed : ∃ doc, IsValue Json.values maxDepth result.2 doc
  readBack : p.ReadsBack result.2 answer

end JsonTaskParser

/-! ## The text of an answer -/

namespace JsonTaskParser

variable (w : TokenWriter)

/-- A member of an object. -/
def memberText (key : String) (value : Bytes) : Bytes := w.quoted key ++ colon :: value

def processorText (processor : AppInfoTask.AvailableProcessor) : Bytes :=
  enclosed lbrace [memberText w "index" (w.decimal processor.index),
    memberText w "name" (w.quoted processor.name)] rbrace

/-- The text of an answer, whatever was serialised before it. -/
def answerText : Answer → Bytes
  | .imageTaskResult task => enclosed lbrace [memberText w "message" (w.quoted task.message),
      memberText w "status" (w.decimal task.status.toInt)] rbrace
  | .pingTask task => enclosed lbrace [memberText w "message" (w.quoted task.message)] rbrace
  | .appInfoTask task => enclosed lbrace [memberText w "totalCpuThreads" (w.decimal task.totalCpuThreads),
      memberText w "availableProcessors"
        (enclosed lbracket (task.availableProcessors.map (processorText w)) rbracket)] rbrace

/-- The vector ends up with the text, whatever it held. -/
theorem copyOut_eq (m_builder : StringBuilder) (data : Bytes) :
    copyOut m_builder data = (m_builder, .kOk, m_builder.text) := by
  unfold copyOut StringBuilder.c_str StringBuilder.size
  have hdrop : (data.take m_builder.text.length ++
      List.replicate (m_builder.text.length - data.length) 0).drop m_builder.text.length = [] := by
    apply List.drop_eq_nil_of_le
    rw [List.length_append, List.length_take, List.length_replicate]
    omega
  dsimp only
  rw [hdrop, List.append_nil]

/-- The unsigned comparison puts no comma after the last processor, and none is missing. -/
theorem lt_size_sub_one {i size : Nat} (hi : i < size) (hsize : size < UInt64.size) :
    UInt64.ofNat i < UInt64.ofNat size - 1 ↔ i + 1 < size := by
  have hone : (1 : UInt64) ≤ UInt64.ofNat size := by
    rw [UInt64.le_iff_toNat_le, UInt64.toNat_ofNat_of_lt' hsize]
    exact Nat.one_le_of_lt hi
  rw [UInt64.lt_iff_toNat_lt, UInt64.toNat_sub_of_le _ _ hone, UInt64.toNat_ofNat_of_lt' hsize,
    UInt64.toNat_ofNat_of_lt' (Nat.lt_trans hi hsize)]
  show i < size - 1 ↔ _
  omega

theorem appendProcessor_eq (size : UInt64) (m_builder : StringBuilder)
    (processor : AppInfoTask.AvailableProcessor) (i : Nat) :
    appendProcessor w size m_builder (processor, i) =
      m_builder.append (processorText w processor ++ if UInt64.ofNat i < size - 1 then [comma] else []) := by
  unfold appendProcessor processorText
  by_cases h : UInt64.ofNat i < size - 1 <;>
    simp [h, enclosed, memberText, StringBuilder.start_object, StringBuilder.end_object,
      StringBuilder.append_comma, StringBuilder.append_colon, StringBuilder.append_key_value_number,
      StringBuilder.append_key_value_string, StringBuilder.escape_and_append_with_quotes]

/-- The loop from the processor `i` on: what is left of the array, with commas between the processors. -/
theorem foldl_appendProcessor {size : Nat} (hsize : size < UInt64.size)
    (processors : List AppInfoTask.AvailableProcessor) {i : Nat} (hi : i + processors.length = size)
    (m_builder : StringBuilder) :
    (processors.zipIdx i).foldl (appendProcessor w (UInt64.ofNat size)) m_builder =
      m_builder.append ([comma].intercalate (processors.map (processorText w))) := by
  induction processors generalizing i m_builder with
  | nil => simp [StringBuilder.append]
  | cons processor processors ih =>
      rw [List.length_cons] at hi
      have hlt := lt_size_sub_one (show i < size by omega) hsize
      rw [List.zipIdx_cons, List.foldl_cons, ih (by omega), appendProcessor_eq,
        StringBuilder.append_append, List.map_cons]
      cases processors with
      | nil =>
          have hlast : ¬ UInt64.ofNat i < UInt64.ofNat size - 1 := by
            rw [hlt]
            rw [List.length_nil] at hi
            omega
          simp [if_neg hlast]
      | cons processor' processors =>
          have hmore : UInt64.ofNat i < UInt64.ofNat size - 1 := by
            rw [hlt]
            rw [List.length_cons] at hi
            omega
          rw [if_pos hmore, List.map_cons, List.intercalate_cons_cons]

/-- **Each call fills the vector with the text of its own answer**, whatever the builder and the vector held. -/
theorem serialize_eq {answer : Answer} (hfits : answer.Fits) (m_builder : StringBuilder) (data : Bytes) :
    serialize w m_builder data answer = (⟨answerText w answer⟩, .kOk, answerText w answer) := by
  cases answer with
  | imageTaskResult task =>
      simp [serialize, serializeImageTaskResult, copyOut_eq, answerText, enclosed, memberText,
        StringBuilder.append]
  | pingTask task =>
      simp [serialize, serializePingTask, copyOut_eq, answerText, enclosed, memberText, StringBuilder.append]
  | appInfoTask task =>
      have hloop := foldl_appendProcessor w hfits.2.1 task.availableProcessors (Nat.zero_add _)
      simp [serialize, serializeAppInfoTask, copyOut_eq, answerText, enclosed, memberText, hloop,
        StringBuilder.append]

end JsonTaskParser

/-! ## The document of an answer -/

def processorDoc (processor : AppInfoTask.AvailableProcessor) : Json :=
  .object [("index", .int processor.index), ("name", .string processor.name)]

/-- The document that the text of an answer is. -/
def Answer.doc : Answer → Json
  | .imageTaskResult task => .object [("message", .string task.message), ("status", .int task.status.toInt)]
  | .pingTask task => .object [("message", .string task.message)]
  | .appInfoTask task => .object [("totalCpuThreads", .int task.totalCpuThreads),
      ("availableProcessors", .array (task.availableProcessors.map processorDoc))]

namespace JsonTaskParser

variable (w : TokenWriter) (depth : Nat)

theorem isMember_memberText {P : Text → Json → Prop} (key : String) {text : Bytes} {value : Json}
    (h : P text value) : IsMember P (memberText w key text) (key, value) :=
  ⟨w.quoted key, text, rfl, w.isLiteral_quoted key, h⟩

theorem isValue_quoted (s : String) : IsValue Json.values (depth + 1) (w.quoted s) (.string s) :=
  IsValueOver.string (A := Json.values) (w.isLiteral_quoted s)

theorem isValue_decimal {n : Nat} (h : n < UInt64.size) :
    IsValue Json.values (depth + 1) (w.decimal n) (.int n) :=
  IsValueOver.number (A := Json.values) (w.isDecimal_decimal n) h

theorem isValue_object {texts : List Bytes} {members : List (String × Json)}
    (h : List.Forall₂ (IsMember (IsValue Json.values depth)) texts members) :
    IsValue Json.values (depth + 1) (enclosed lbrace texts rbrace) (.object members) :=
  IsValueOver.object (A := Json.values) h

theorem lt_size {n : Nat} (h : n < UInt32.size) : n < UInt64.size := Nat.lt_trans h (by decide)

theorem isValue_processorText {processor : AppInfoTask.AvailableProcessor}
    (h : processor.index < UInt32.size) :
    IsValue Json.values (depth + 2) (processorText w processor) (processorDoc processor) :=
  isValue_object (depth + 1)
    (.cons (isMember_memberText w "index" (isValue_decimal w depth (lt_size h)))
      (.cons (isMember_memberText w "name" (isValue_quoted w depth processor.name)) .nil))

/-- The array of the processors, by induction on it. -/
theorem isValue_processors {processors : List AppInfoTask.AvailableProcessor}
    (h : ∀ processor ∈ processors, processor.index < UInt32.size) :
    IsValue Json.values (depth + 3) (enclosed lbracket (processors.map (processorText w)) rbracket)
      (.array (processors.map processorDoc)) := by
  apply IsValueOver.array (A := Json.values)
  induction processors with
  | nil => exact .nil
  | cons processor processors ih =>
      exact .cons (isValue_processorText w depth (h processor (List.mem_cons_self ..)))
        (ih fun processor' hmem => h processor' (List.mem_cons_of_mem _ hmem))

/-- **The text of an answer is JSON.** -/
theorem isValue_answerText {answer : Answer} (hfits : answer.Fits) :
    IsValue Json.values (depth + 4) (answerText w answer) answer.doc := by
  cases answer with
  | imageTaskResult task =>
      have hstatus : task.status.toInt < UInt64.size := by
        cases task.status <;> decide
      exact isValue_object (depth + 3)
        (.cons (isMember_memberText w "message" (isValue_quoted w _ task.message))
          (.cons (isMember_memberText w "status" (isValue_decimal w _ hstatus)) .nil))
  | pingTask task =>
      exact isValue_object (depth + 3)
        (.cons (isMember_memberText w "message" (isValue_quoted w _ task.message)) .nil)
  | appInfoTask task =>
      obtain ⟨htotal, -, hindex⟩ := hfits
      exact isValue_object (depth + 3)
        (.cons (isMember_memberText w "totalCpuThreads" (isValue_decimal w _ (lt_size htotal)))
          (.cons (isMember_memberText w "availableProcessors" (isValue_processors w depth hindex)) .nil))

end JsonTaskParser

/-! ## Reading it back -/

theorem readImageTaskResult_doc (task : ImageTaskResult) :
    readImageTaskResult (Answer.imageTaskResult task).doc = some task := by
  obtain ⟨message, status⟩ := task
  have hmessage : (Answer.imageTaskResult ⟨message, status⟩).doc.atKey "message" >>= Json.get_string =
      .ok message := Json.string_at_eq_ok.mpr ⟨_, rfl, rfl⟩
  have hstatus : (Answer.imageTaskResult ⟨message, status⟩).doc.atKey "status" >>= Json.get_uint64 =
      .ok status.toInt := Json.uint64_at_eq_ok.mpr ⟨_, rfl, rfl⟩
  unfold readImageTaskResult
  rw [hmessage, hstatus]
  cases status <;> rfl

theorem readProcessor_doc (processor : AppInfoTask.AvailableProcessor) :
    readProcessor (processorDoc processor) = some processor := by
  have hname : (processorDoc processor).atKey "name" >>= Json.get_string = .ok processor.name :=
    Json.string_at_eq_ok.mpr ⟨_, rfl, rfl⟩
  have hindex : (processorDoc processor).atKey "index" >>= Json.get_uint64 = .ok processor.index :=
    Json.uint64_at_eq_ok.mpr ⟨_, rfl, rfl⟩
  unfold readProcessor
  rw [hname, hindex]

theorem mapM_readProcessor (processors : List AppInfoTask.AvailableProcessor) :
    (processors.map processorDoc).mapM readProcessor = some processors := by
  induction processors with
  | nil => rfl
  | cons processor processors ih => simp [readProcessor_doc, ih]

theorem readAppInfoTask_doc (task : AppInfoTask) : readAppInfoTask (Answer.appInfoTask task).doc = some task := by
  have harray : (Answer.appInfoTask task).doc.atKey "availableProcessors" =
      .ok (.array (task.availableProcessors.map processorDoc)) := Json.atKey_eq_ok.mpr ⟨_, rfl, rfl⟩
  have htotal : (Answer.appInfoTask task).doc.atKey "totalCpuThreads" >>= Json.get_uint64 =
      .ok task.totalCpuThreads := Json.uint64_at_eq_ok.mpr ⟨_, rfl, rfl⟩
  unfold readAppInfoTask
  rw [harray, htotal]
  dsimp only
  rw [mapM_readProcessor]
  rfl

namespace JsonTaskParser

variable {p : JsonTaskParser}

/-- A text that the parser takes is the document of that message. -/
theorem jsonOf_enclosed {left right : UInt8} {texts : List Bytes} {doc : Json}
    (h : p.m_parse (enclosed left texts right) = .ok doc) :
    p.jsonOf (some (enclosed left texts right)) = some doc ∧
      p.document (some (enclosed left texts right)) = .ok (.ok doc) := by
  unfold enclosed at h ⊢
  constructor
  · simp [jsonOf, h, Except.toOption]
  · simp [document, h, Except.map]

/-- Reading the document of an answer gives the answer back. -/
theorem readsBack_answerText (w : TokenWriter) {answer : Answer}
    (h : p.m_parse (answerText w answer) = .ok answer.doc) : p.ReadsBack (answerText w answer) answer := by
  cases answer with
  | imageTaskResult task => exact ⟨_, (jsonOf_enclosed h).1, readImageTaskResult_doc task⟩
  | pingTask task =>
      have hread : readPingTask (Answer.pingTask task).doc = .ok task :=
        (readPingTask_eq_ok _ _).mpr ⟨_, rfl, rfl⟩
      show p.parsePingTask _ = _
      rw [parsePingTask_eq, answerText, (jsonOf_enclosed h).2]
      exact congrArg Except.ok hread
  | appInfoTask task => exact ⟨_, (jsonOf_enclosed h).1, readAppInfoTask_doc task⟩

/-- One call, whatever came before it. -/
theorem faithful_serialize (w : TokenWriter) (hp : p.ReadsJson) {answer : Answer} (hfits : answer.Fits)
    (m_builder : StringBuilder) (data : Bytes) :
    Faithful w p answer (serialize w m_builder data answer).2 := by
  have hvalue : IsValue Json.values maxDepth (answerText w answer) answer.doc :=
    isValue_answerText w 1020 hfits
  rw [serialize_eq w hfits]
  exact ⟨rfl, by rw [serialize_eq w hfits], ⟨_, hvalue⟩, readsBack_answerText w (hp _ _ hvalue)⟩

/-- **Serialised answers are well-formed and faithful**: for every sequence of calls on one builder, with any
answers and any vectors to fill, by induction on the calls. -/
theorem serializeAll_faithful (w : TokenWriter) (p : JsonTaskParser) (hp : p.ReadsJson)
    (m_builder : StringBuilder) (calls : List (Bytes × Answer)) (hfits : ∀ call ∈ calls, call.2.Fits) :
    List.Forall₂ (fun call result => Faithful w p call.2 result) calls (serializeAll w m_builder calls) := by
  induction calls generalizing m_builder with
  | nil => exact .nil
  | cons call calls ih =>
      have hcall := hfits call (List.mem_cons_self ..)
      exact .cons (faithful_serialize w hp hcall m_builder call.1)
        (ih _ fun call' hmem => hfits call' (List.mem_cons_of_mem _ hmem))

/-- A ping after an answer with two processors and one with none, with the tokens and the parser of the
grammar. -/
theorem serializeAll_faithful_three :
    let w : TokenWriter := ⟨Lib.JsonText.quoted, Lib.JsonText.decimal, Lib.JsonText.isLiteral_quoted,
      Lib.JsonText.isDecimal_decimal⟩
    let p : JsonTaskParser := ⟨fun data =>
      ((Lib.JsonText.parse Json.values maxDepth data).elim (.error .ILL_FORMED) .ok)⟩
    let calls : List (Bytes × Answer) := [([], .appInfoTask ⟨[⟨"realesrgan", 0⟩, ⟨"rmbg", 1⟩], 8⟩),
      ([0x20], .appInfoTask ⟨[], 1⟩), ([], .pingTask ⟨"PONG"⟩)]
    List.Forall₂ (fun call result => Faithful w p call.2 result) calls (serializeAll w ⟨[0x7B]⟩ calls) := by
  refine serializeAll_faithful _ _ ?_ _ _ ?_
  · intro text doc h
    show Option.elim _ _ _ = _
    rw [Lib.JsonText.parse_eq_some Json.values h]
    rfl
  · simp [Answer.Fits, UInt32.size, UInt64.size]

end JsonTaskParser

end LimbWorker.AppTasks
