import LimbWorker.Lib.Transactions
import LimbWorker.MediaRepository.Download

/-!
# The repository, one database call at a time

`getImageById` and `updateImageById` as functions of the store leave out that the store is shared. Here both are
transactions on the file under their id: the file is looked up, removed, and written again when the upload stream is
destroyed, and every read of a download stream goes back to the store.

By itself each of them does what the function does (`exec_download`, `exec_update`).
-/

namespace LimbWorker.MediaRepository

open Lib

variable {Oid Metadata : Type}

/-! ## The download -/

/-- Read `i` of a download stream. The pieces of a file that is not there any more cannot be read. -/
def DownloadResults.readv (env : DownloadResults) (file : Option (GridFile Metadata)) (i : Nat) : ReadResult :=
  match file with
  | none => .error
  | some file => (env.reads file.content)[i]?.getD (.bytes [])

/-- The loop from read `i` on, with as many reads to come as there were pieces when the stream was opened. -/
def readTransaction (env : DownloadResults) (i : Nat) (outBuf : Option Bytes) (bufSize : Int) :
    Nat → Transaction (Option (GridFile Metadata)) (Option Download)
  | 0 => .done (some ⟨.kOk, fileData outBuf, toSizeT bufSize⟩)
  | remaining + 1 => .get fun file =>
      let result := env.readv file i
      if result.r = 0 then .done (some ⟨.kOk, fileData outBuf, toSizeT bufSize⟩)
      else if env.malloc i = false then .done (some ⟨.kOutOfMemory, freedData outBuf, toSizeT bufSize⟩)
      else
        match memcpy (allocate outBuf bufSize result.r) bufSize result.buf result.r with
        | none => .done none
        | some buffer => readTransaction env (i + 1) (some buffer) (toInt (bufSize + result.r)) remaining

/-- `MongoClient::getImageById`. -/
def downloadTransaction (env : DownloadResults) (size : Nat) :
    Transaction (Option (GridFile Metadata)) (Option Download) :=
  if size ≠ 24 then .done (some ⟨.kInvalidInput, .unset, 0⟩)
  else if env.cPool = false then .done (some ⟨.kUninitialized, .unset, 0⟩)
  else if env.poolPop = false then .done (some ⟨.kUninitialized, .unset, 0⟩)
  else if env.getDatabase = false then .done (some ⟨.kAborted, .unset, 0⟩)
  else if env.bucketNew = false then .done (some ⟨.kAborted, .unset, 0⟩)
  else if env.openDownloadStream = .fileNotFound then .done (some ⟨.kNotFound, .unset, 0⟩)
  else if env.openDownloadStream = .failed then .done (some ⟨.kUnknown, .unset, 0⟩)
  else .get fun
    | none => .done (some ⟨.kNotFound, .unset, 0⟩)
    | some file => readTransaction env 0 none 0 (env.reads file.content).length

/-- **The reads** of a file that stays as it is are those of the read loop. -/
theorem exec_readTransaction (env : DownloadResults) (file : GridFile Metadata) (i : Nat) (outBuf : Option Bytes)
    (bufSize : Int) (results : List ReadResult) (h : (env.reads file.content).drop i = results) :
    (readTransaction env i outBuf bufSize results.length).exec (some file) =
      (readLoop env.malloc i outBuf bufSize results, some file) := by
  induction results generalizing i outBuf bufSize with
  | nil => rfl
  | cons result rest ih =>
      -- each read finds the file as it was, since the transaction runs alone
      have hread : env.readv (some file) i = result := by
        have hget := congrArg (·[0]?) h
        simp only [List.getElem?_drop, Nat.add_zero, List.getElem?_cons_zero] at hget
        rw [DownloadResults.readv, hget]
        rfl
      have hdrop : (env.reads file.content).drop (i + 1) = rest := by
        rw [← List.drop_drop, h]
        rfl
      rw [List.length_cons, readTransaction, Transaction.exec_get]
      simp only [hread, readLoop]
      split
      · rfl
      · split
        · rfl
        · split
          · next hcopy =>
            rw [hcopy]
            rfl
          · next buffer hcopy =>
            rw [hcopy, Option.bind_some]
            exact ih (i + 1) (some buffer) _ hdrop

section

variable (bson_oid_init_from_string : String → Oid) (store : Store Oid Metadata) (id : String)

/-- **A download by itself** is `getImageById`, and leaves the file as it is. -/
theorem exec_download (env : DownloadResults) (size : Nat) :
    (downloadTransaction env size).exec (store (bson_oid_init_from_string id)) =
      (getImageById bson_oid_init_from_string env store id size, store (bson_oid_init_from_string id)) := by
  unfold downloadTransaction getImageById
  dsimp only
  split_ifs
  all_goals try rfl
  cases hfile : store (bson_oid_init_from_string id) with
  | none => rfl
  | some file => exact exec_readTransaction env file 0 none 0 _ rfl

/-! ## The update -/

/-- `MongoClient::updateImageById`. -/
def updateTransaction (env : DriverResults) (size : Nat) (filedata : Bytes) :
    Transaction (Option (GridFile Metadata)) (Option ReturnStatus) :=
  if size ≠ 24 then .done (some .kInvalidInput)
  else if env.cPool = false then .done (some .kUninitialized)
  else if env.poolPop = false then .done (some .kUninitialized)
  else if env.getDatabase = false then .done (some .kAborted)
  else if env.bucketNew = false then .done (some .kAborted)
  else if env.getGridfs = false then .done (some .kAborted)
  else if env.findOne = .fileNotFound then .done (some .kNotFound)
  else .get fun file =>
    match if env.findOne = .found then file else none with
    | none => .done (some .kUnknown)
    | some file =>
        if env.fileRemove = false then .done (some .kUnknown)
        else .put none <|
          if env.openUploadStream = false then .done (some .kUnknown)
          else match upload env.write filedata with
            | none => .done none
            | some content => .put (some { file with content := content }) (.done (some .kOk))

/-- The status and the store after an update of the file under `oid`. -/
def onFile [DecidableEq Oid] (store : Store Oid Metadata) (oid : Oid)
    (t : Transaction (Option (GridFile Metadata)) (Option ReturnStatus)) :
    Option (ReturnStatus × Store Oid Metadata) :=
  (t.exec (store oid)).1.map fun status => (status, Function.update store oid (t.exec (store oid)).2)

theorem onFile_done [DecidableEq Oid] (oid : Oid) (status : ReturnStatus) :
    onFile store oid (.done (some status)) = some (status, store) := by
  simp [onFile, Transaction.exec]

/-- A check that ends the update early. -/
theorem onFile_check [DecidableEq Oid] {oid : Oid} {c : Prop} [Decidable c] {status : ReturnStatus}
    {after : Option (ReturnStatus × Store Oid Metadata)}
    {t : Transaction (Option (GridFile Metadata)) (Option ReturnStatus)} (h : after = onFile store oid t) :
    (if c then some (status, store) else after) = onFile store oid (if c then .done (some status) else t) := by
  split
  · rw [onFile_done]
  · exact h

/-- **An update by itself** is `updateImageById`. -/
theorem exec_update [DecidableEq Oid] (env : DriverResults) (size : Nat) (filedata : Bytes) :
    updateImageById bson_oid_init_from_string env store id size filedata =
      onFile store (bson_oid_init_from_string id) (updateTransaction env size filedata) := by
  unfold updateTransaction updateImageById foundFile
  dsimp only
  generalize upload env.write filedata = uploaded
  -- the checks before the file is looked for leave the store alone
  iterate 7 refine onFile_check store ?_
  rw [onFile, Transaction.exec_get]
  cases hfound : if env.findOne = .found then store (bson_oid_init_from_string id) else none with
  | none => exact (onFile_done store _ _).symm
  | some file =>
      refine onFile_check store ?_
      cases env.openUploadStream with
      | false => rfl
      | true =>
          cases uploaded with
          | none => rfl
          | some content =>
              dsimp only [Option.map_some, Bool.true_eq_false, if_false]
              rw [Function.update_idem]
              rfl

end

end LimbWorker.MediaRepository
