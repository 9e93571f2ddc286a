/-!
# Bytes and return statuses

What every part of the program shares: byte strings, `liret`, and the table of messages that
`listat::getErrorMessage` reads. The table is shorter than the enumeration.
-/

namespace LimbWorker

/-- A run of bytes, as the source passes it by pointer and size or in a vector. -/
abbrev Bytes := List UInt8

/-- `limb::ReturnStatus`. -/
inductive ReturnStatus where
  | kOk
  | kUnknown
  | kNotFound
  | kAlreadyExists
  | kAborted
  | kUnimplemented
  | kUninitialized
  | kInvalidInput
  | kIncomplete
  | kBufferTooSmall
  | kOutOfMemory
  deriving DecidableEq, Repr

/-- `ReturnStatusResolver`. -/
def ReturnStatusResolver : List String :=
  ["Ok", "Unknown error", "Not Found", "Already Exists", "Aborted", "Unimplemented",
    "Uninitialized", "Invalid input"]

namespace ReturnStatus

/-- The value of the enumerator, `static_cast<int>`. -/
def toInt : ReturnStatus → Nat
  | kOk => 0
  | kUnknown => 1
  | kNotFound => 2
  | kAlreadyExists => 3
  | kAborted => 4
  | kUnimplemented => 5
  | kUninitialized => 6
  | kInvalidInput => 7
  | kIncomplete => 8
  | kBufferTooSmall => 9
  | kOutOfMemory => 10

/-- `StatusManager::getErrorMessage`; `none` is a read past the end of the table. -/
def getErrorMessage (retStatus : ReturnStatus) : Option String :=
  ReturnStatusResolver[retStatus.toInt]?

/-- The status has an entry in the message table. -/
def HasMessage (retStatus : ReturnStatus) : Prop :=
  retStatus ≠ kIncomplete ∧ retStatus ≠ kBufferTooSmall ∧ retStatus ≠ kOutOfMemory

instance : DecidablePred HasMessage := fun _ => inferInstanceAs (Decidable (_ ∧ _))

/-- The last three statuses were added without a message. -/
theorem getErrorMessage_isSome_iff (retStatus : ReturnStatus) :
    retStatus.getErrorMessage.isSome ↔ retStatus.HasMessage := by
  cases retStatus <;> decide

end ReturnStatus

end LimbWorker
