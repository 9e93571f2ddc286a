import LimbWorker.Utils.Basic
import Mathlib.Algebra.Order.Ring.Int
import Mathlib.Data.List.TakeDrop
import Mathlib.Tactic.Common

/-!
# `MongoClient::updateImageById`

An image is replaced by removing its GridFS file and uploading a new one under the same id. Every call
into the driver is answered by the environment; a call that reports a failure has no effect, and an
upload stream stores the bytes that its writes accept, in order, when it is destroyed.

The result of a write is added up and never looked at, and once the old file is removed every way to
fail leaves something else behind. `SafeUpdate` says when the update is all or nothing.
-/

namespace LimbWorker.MediaRepository

/-! ## The store and the driver -/

/-- A GridFS file. `Metadata` is a document that is passed on as it is. -/
structure GridFile (Metadata : Type) where
  filename : String
  metadata : Metadata
  content : Bytes

/-- The files of a database, by object id. -/
abbrev Store (Oid Metadata : Type) := Oid → Option (GridFile Metadata)

/-- The answer of `mongoc_gridfs_find_one_with_opts`. -/
inductive FindResult where
  | found
  | fileNotFound
  | failed
  deriving DecidableEq, Repr

/-- The answers of the driver during one call; `write k` is the result of the `k`-th
`mongoc_stream_write`, a count or a negative number. -/
structure DriverResults where
  cPool : Bool
  poolPop : Bool
  getDatabase : Bool
  bucketNew : Bool
  getGridfs : Bool
  findOne : FindResult
  fileRemove : Bool
  openUploadStream : Bool
  write : Nat → Int

/-- `MONGO_TRANSFER_CHUNK`. -/
def MONGO_TRANSFER_CHUNK : Nat := 4096

/-- Conversion to `int`. -/
def toInt (x : Int) : Int := (x + 2 ^ 31) % 2 ^ 32 - 2 ^ 31

/-- An `int` can hold the number. -/
def FitsInt (x : Int) : Prop := -2 ^ 31 ≤ x ∧ x < 2 ^ 31

instance : DecidablePred FitsInt := fun _ => inferInstanceAs (Decidable (_ ∧ _))

/-! ## The upload -/

/-- What a write leaves of `data` in the stream. -/
def written (data : Bytes) (r : Int) : Bytes := data.take r.toNat

/-- The loop over whole chunks, from chunk `i` on. -/
def uploadChunks (write : Nat → Int) (filedata : Bytes) (i : Nat) : Nat → Bytes
  | 0 => []
  | remaining + 1 =>
      written ((filedata.drop (MONGO_TRANSFER_CHUNK * i)).take MONGO_TRANSFER_CHUNK) (write i) ++
        uploadChunks write filedata (i + 1) remaining

/-- The bytes that end up in the stream; `none` when the product of the chunk size and the number of
chunks overflows, which is undefined. -/
def upload (write : Nat → Int) (filedata : Bytes) : Option Bytes :=
  let filesize : Int := filedata.length
  let totalChunks := toInt (filesize / MONGO_TRANSFER_CHUNK)
  let product := MONGO_TRANSFER_CHUNK * totalChunks
  if FitsInt product then
    let restChunk := toInt (filesize - product)
    let chunks := uploadChunks write filedata 0 totalChunks.toNat
    if 0 < restChunk then
      some (chunks ++ written ((filedata.drop (filesize - restChunk).toNat).take restChunk.toNat)
        (write totalChunks.toNat))
    else some chunks
  else none

section Update

variable {Oid Metadata : Type} [DecidableEq Oid] (bson_oid_init_from_string : String → Oid)
  (env : DriverResults) (store : Store Oid Metadata) (id : String) (size : Nat) (filedata : Bytes)

omit [DecidableEq Oid] in
/-- The file that the driver finds under the id. -/
def foundFile : Option (GridFile Metadata) :=
  if env.findOne = .found then store (bson_oid_init_from_string id) else none

/-- `MongoClient::updateImageById`: the status and the store afterwards, or `none` where its behaviour
is undefined. -/
def updateImageById : Option (ReturnStatus × Store Oid Metadata) :=
  let oid := bson_oid_init_from_string id
  if size ≠ 24 then some (.kInvalidInput, store)
  else if env.cPool = false then some (.kUninitialized, store)
  else if env.poolPop = false then some (.kUninitialized, store)
  else if env.getDatabase = false then some (.kAborted, store)
  else if env.bucketNew = false then some (.kAborted, store)
  else if env.getGridfs = false then some (.kAborted, store)
  else if env.findOne = .fileNotFound then some (.kNotFound, store)
  else match foundFile bson_oid_init_from_string env store id with
    | none => some (.kUnknown, store)
    | some file =>
        if env.fileRemove = false then some (.kUnknown, store)
        else
          let store := Function.update store oid none
          if env.openUploadStream = false then some (.kUnknown, store)
          else (upload env.write filedata).map fun content =>
            (.kOk, Function.update store oid (some { file with content := content }))

/-! ## All or nothing -/

omit [DecidableEq Oid] in
/-- What an update promises: `kOk` and the new content, or another status and the old content. -/
def AllOrNothing (result : Option (ReturnStatus × Store Oid Metadata)) : Prop :=
  let oid := bson_oid_init_from_string id
  ∃ status store', result = some (status, store') ∧
    (status = .kOk → (store' oid).map GridFile.content = some filedata) ∧
    (status ≠ .kOk → (store' oid).map GridFile.content = (store oid).map GridFile.content)

/-- Every write of an upload of `n` bytes takes its whole chunk. -/
def WritesWhole (write : Nat → Int) (n : Nat) : Prop :=
  (∀ k, k < n / MONGO_TRANSFER_CHUNK → (MONGO_TRANSFER_CHUNK : Int) ≤ write k) ∧
    (0 < n % MONGO_TRANSFER_CHUNK →
      ((n % MONGO_TRANSFER_CHUNK : Nat) : Int) ≤ write (n / MONGO_TRANSFER_CHUNK))

omit [DecidableEq Oid] in
/-- The call gets as far as removing the old file. -/
def Removes : Prop :=
  size = 24 ∧ env.cPool = true ∧ env.poolPop = true ∧ env.getDatabase = true ∧
    env.bucketNew = true ∧ env.getGridfs = true ∧
    (foundFile bson_oid_init_from_string env store id).isSome ∧ env.fileRemove = true

omit [DecidableEq Oid] in
/-- When the update is all or nothing: it fails before the old file is removed, or the upload stream
opens, the new content is shorter than `2^31` bytes, and every write takes its whole chunk. -/
def SafeUpdate : Prop :=
  ¬ Removes bson_oid_init_from_string env store id size ∨
    env.openUploadStream = true ∧ filedata.length < 2 ^ 31 ∧ WritesWhole env.write filedata.length

end Update

/-! ## What the writes leave -/

/-- Two lists end to end can only grow together when both grow. -/
theorem append_eq_append_iff_of_length_le {α : Type*} {a a' b b' : List α}
    (ha : a.length ≤ a'.length) (hb : b.length ≤ b'.length) :
    a ++ b = a' ++ b' ↔ a = a' ∧ b = b' := by
  constructor
  · intro h
    have hlen := congrArg List.length h
    rw [List.length_append, List.length_append] at hlen
    exact List.append_inj h (by omega)
  · rintro ⟨rfl, rfl⟩
    rfl

theorem length_written_le (data : Bytes) (r : Int) : (written data r).length ≤ data.length := by
  rw [written, List.length_take]
  exact Nat.min_le_right _ _

theorem length_written_take_le (data : Bytes) (m : Nat) (r : Int) :
    (written (data.take m) r).length ≤ m :=
  Nat.le_trans (length_written_le _ _) (List.length_take_le _ _)

/-- A write takes everything just when its result is at least the whole length. -/
theorem written_eq_iff (data : Bytes) (r : Int) :
    written data r = data ↔ data = [] ∨ (data.length : Int) ≤ r := by
  rw [written, List.take_eq_self_iff, ← List.length_eq_zero_iff]
  omega

theorem length_uploadChunks_le (write : Nat → Int) (filedata : Bytes) (i remaining : Nat) :
    (uploadChunks write filedata i remaining).length ≤ MONGO_TRANSFER_CHUNK * remaining := by
  induction remaining generalizing i with
  | zero => exact Nat.le_refl 0
  | succ remaining ih =>
      rw [uploadChunks, List.length_append]
      have hfirst := length_written_le
        ((filedata.drop (MONGO_TRANSFER_CHUNK * i)).take MONGO_TRANSFER_CHUNK) (write i)
      rw [List.length_take] at hfirst
      have hrest := ih (i + 1)
      rw [Nat.mul_succ]
      omega

/-- The loop fills its stretch of the data just when every write takes its whole chunk. -/
theorem uploadChunks_eq_iff (write : Nat → Int) (filedata : Bytes) (i remaining : Nat)
    (h : MONGO_TRANSFER_CHUNK * (i + remaining) ≤ filedata.length) :
    uploadChunks write filedata i remaining =
        (filedata.drop (MONGO_TRANSFER_CHUNK * i)).take (MONGO_TRANSFER_CHUNK * remaining) ↔
      ∀ k, i ≤ k → k < i + remaining → (MONGO_TRANSFER_CHUNK : Int) ≤ write k := by
  induction remaining generalizing i with
  | zero =>
      refine iff_of_true (by simp [uploadChunks]) fun k hik hki => ?_
      omega
  | succ remaining ih =>
      -- the first chunk, and the rest, for which the loop goes on
      have hsplit : (filedata.drop (MONGO_TRANSFER_CHUNK * i)).take
            (MONGO_TRANSFER_CHUNK * (remaining + 1)) =
          (filedata.drop (MONGO_TRANSFER_CHUNK * i)).take MONGO_TRANSFER_CHUNK ++
            (filedata.drop (MONGO_TRANSFER_CHUNK * (i + 1))).take
              (MONGO_TRANSFER_CHUNK * remaining) := by
        rw [Nat.mul_succ, Nat.add_comm, List.take_add, List.drop_drop, Nat.mul_succ]
      have hchunk : ((filedata.drop (MONGO_TRANSFER_CHUNK * i)).take MONGO_TRANSFER_CHUNK).length =
          MONGO_TRANSFER_CHUNK := by
        rw [List.length_take, List.length_drop]
        simp only [MONGO_TRANSFER_CHUNK] at h ⊢
        omega
      have hrest : ((filedata.drop (MONGO_TRANSFER_CHUNK * (i + 1))).take
          (MONGO_TRANSFER_CHUNK * remaining)).length = MONGO_TRANSFER_CHUNK * remaining := by
        rw [List.length_take, List.length_drop]
        simp only [MONGO_TRANSFER_CHUNK] at h ⊢
        omega
      -- no write gives more than it was asked for, so the two are equal only part by part
      rw [uploadChunks, hsplit, append_eq_append_iff_of_length_le (length_written_le _ _)
        (by rw [hrest]; exact length_uploadChunks_le _ _ _ _), written_eq_iff, hchunk, ih (i + 1) (by
          rw [Nat.add_assoc, Nat.add_comm 1]; exact h)]
      have hne : (filedata.drop (MONGO_TRANSFER_CHUNK * i)).take MONGO_TRANSFER_CHUNK ≠ [] := by
        intro hnil
        rw [hnil] at hchunk
        cases hchunk
      simp only [hne, false_or]
      constructor
      · rintro ⟨hfirst, hall⟩ k hik hki
        rcases Nat.eq_or_lt_of_le hik with rfl | hlt
        · exact hfirst
        · exact hall k hlt (by omega)
      · intro hall
        exact ⟨hall i (Nat.le_refl i) (by omega), fun k hik hki => hall k (by omega) (by omega)⟩

/-- **A short upload** stores the data just when every write takes its whole chunk. -/
theorem upload_eq_iff_of_short (write : Nat → Int) {filedata : Bytes}
    (h : filedata.length < 2 ^ 31) :
    upload write filedata = some filedata ↔ WritesWhole write filedata.length := by
  -- below 2 ^ 31 the `int` arithmetic is exact
  have hchunks : toInt ((filedata.length : Int) / MONGO_TRANSFER_CHUNK) =
      (filedata.length / MONGO_TRANSFER_CHUNK : Nat) := by
    simp only [toInt, MONGO_TRANSFER_CHUNK]
    omega
  have hfits : FitsInt ((MONGO_TRANSFER_CHUNK : Int) *
      (filedata.length / MONGO_TRANSFER_CHUNK : Nat)) := by
    simp only [FitsInt, MONGO_TRANSFER_CHUNK]
    omega
  have hrest : toInt ((filedata.length : Int) - (MONGO_TRANSFER_CHUNK : Int) *
      (filedata.length / MONGO_TRANSFER_CHUNK : Nat)) =
        (filedata.length % MONGO_TRANSFER_CHUNK : Nat) := by
    simp only [toInt, MONGO_TRANSFER_CHUNK]
    omega
  have hle : MONGO_TRANSFER_CHUNK * (filedata.length / MONGO_TRANSFER_CHUNK) ≤ filedata.length :=
    Nat.mul_div_le _ _
  have hlen : (filedata.drop (MONGO_TRANSFER_CHUNK *
      (filedata.length / MONGO_TRANSFER_CHUNK))).length = filedata.length % MONGO_TRANSFER_CHUNK := by
    rw [List.length_drop]
    simp only [MONGO_TRANSFER_CHUNK]
    omega
  have hloop := uploadChunks_eq_iff write filedata 0 (filedata.length / MONGO_TRANSFER_CHUNK) (by
    rw [Nat.zero_add]
    exact hle)
  rw [Nat.mul_zero, List.drop_zero, Nat.zero_add] at hloop
  simp only [Nat.zero_le, true_imp_iff] at hloop
  unfold upload WritesWhole
  simp only [hchunks, hfits, hrest, if_true, Int.toNat_natCast]
  -- the last write happens only if a rest is left
  by_cases hpos : 0 < filedata.length % MONGO_TRANSFER_CHUNK
  · have hstart : ((filedata.length : Int) - (filedata.length % MONGO_TRANSFER_CHUNK : Nat)).toNat =
        MONGO_TRANSFER_CHUNK * (filedata.length / MONGO_TRANSFER_CHUNK) := by
      simp only [MONGO_TRANSFER_CHUNK]
      omega
    have htail : (filedata.drop (MONGO_TRANSFER_CHUNK *
        (filedata.length / MONGO_TRANSFER_CHUNK))).take (filedata.length % MONGO_TRANSFER_CHUNK) =
          filedata.drop (MONGO_TRANSFER_CHUNK * (filedata.length / MONGO_TRANSFER_CHUNK)) := by
      rw [← hlen, List.take_length]
    have hne : filedata.drop (MONGO_TRANSFER_CHUNK *
        (filedata.length / MONGO_TRANSFER_CHUNK)) ≠ [] := by
      intro hnil
      rw [hnil] at hlen
      exact absurd hlen (Nat.ne_of_lt hpos)
    rw [if_pos (by exact_mod_cast hpos), hstart, htail, Option.some.injEq]
    conv_lhs => rhs; rw [← List.take_append_drop (MONGO_TRANSFER_CHUNK *
      (filedata.length / MONGO_TRANSFER_CHUNK)) filedata]
    rw [append_eq_append_iff_of_length_le (by
        rw [List.length_take_of_le hle]
        exact length_uploadChunks_le _ _ _ _) (length_written_le _ _),
      hloop, written_eq_iff, hlen]
    simp only [hne, hpos, false_or, true_imp_iff]
  · have hzero : filedata.length % MONGO_TRANSFER_CHUNK = 0 := by omega
    have hall : MONGO_TRANSFER_CHUNK * (filedata.length / MONGO_TRANSFER_CHUNK) =
        filedata.length := Nat.mul_div_cancel' (Nat.dvd_of_mod_eq_zero hzero)
    rw [hall, List.take_length] at hloop
    rw [if_neg (by exact_mod_cast hpos), Option.some.injEq, hloop]
    simp only [hpos, false_imp_iff, and_true]

theorem toInt_lt (x : Int) : toInt x < 2 ^ 31 := by
  unfold toInt
  omega

/-- The number of chunks of a long upload fits only after it has wrapped around. -/
theorem long_of_fitsInt {n : Nat} (h : 2 ^ 31 ≤ n)
    (hfits : FitsInt (MONGO_TRANSFER_CHUNK * toInt ((n : Int) / MONGO_TRANSFER_CHUNK))) :
    2 ^ 32 ≤ n := by
  simp only [FitsInt, toInt, MONGO_TRANSFER_CHUNK] at hfits
  omega

/-- **A long upload** never stores the data: the product overflows, or most chunks are never written. -/
theorem upload_ne_of_long (write : Nat → Int) {filedata : Bytes} (h : 2 ^ 31 ≤ filedata.length) :
    upload write filedata ≠ some filedata := by
  intro heq
  unfold upload at heq
  dsimp only at heq
  split at heq
  · next hfits =>
    have hlong := long_of_fitsInt h hfits
    have hchunks := length_uploadChunks_le write filedata 0
      (toInt ((filedata.length : Int) / MONGO_TRANSFER_CHUNK)).toNat
    have hlt : MONGO_TRANSFER_CHUNK *
        (toInt ((filedata.length : Int) / MONGO_TRANSFER_CHUNK)).toNat < 2 ^ 31 := by
      have hupper := hfits.2
      simp only [MONGO_TRANSFER_CHUNK] at hupper ⊢
      omega
    -- fewer than `2^32` bytes are written
    split at heq
    · have hlen := congrArg List.length (Option.some.inj heq)
      rw [List.length_append] at hlen
      have hrest := toInt_lt (filedata.length -
        MONGO_TRANSFER_CHUNK * toInt ((filedata.length : Int) / MONGO_TRANSFER_CHUNK))
      have hle := Nat.le_trans (Nat.le_of_eq hlen.symm)
        (Nat.add_le_add hchunks (length_written_take_le _ _ _))
      omega
    · have hlen := congrArg List.length (Option.some.inj heq)
      omega
  · cases heq

/-- **An upload stores the data** just when it is short and every write takes its whole chunk. -/
theorem upload_eq_iff (write : Nat → Int) (filedata : Bytes) :
    upload write filedata = some filedata ↔
      filedata.length < 2 ^ 31 ∧ WritesWhole write filedata.length := by
  by_cases h : filedata.length < 2 ^ 31
  · rw [upload_eq_iff_of_short write h, and_iff_right h]
  · exact iff_of_false (upload_ne_of_long write (Nat.not_lt.mp h)) fun hand => h hand.1

/-! ## The update -/

section Update

variable {Oid Metadata : Type} [DecidableEq Oid] (bson_oid_init_from_string : String → Oid)
  (env : DriverResults) (store : Store Oid Metadata) (id : String) (size : Nat) (filedata : Bytes)

/-- A call that does not get as far as removing the old file fails and leaves the store as it was. -/
theorem updateImageById_of_not_removes
    (h : ¬ Removes bson_oid_init_from_string env store id size) :
    ∃ status, status ≠ .kOk ∧
      updateImageById bson_oid_init_from_string env store id size filedata =
        some (status, store) := by
  unfold updateImageById
  dsimp only
  -- every answer that ends the call comes before the file is removed
  by_cases hsize : size ≠ 24
  · exact ⟨.kInvalidInput, by decide, if_pos hsize⟩
  rw [if_neg hsize]
  by_cases hpool : env.cPool = false
  · exact ⟨.kUninitialized, by decide, if_pos hpool⟩
  rw [if_neg hpool]
  by_cases hpop : env.poolPop = false
  · exact ⟨.kUninitialized, by decide, if_pos hpop⟩
  rw [if_neg hpop]
  by_cases hdatabase : env.getDatabase = false
  · exact ⟨.kAborted, by decide, if_pos hdatabase⟩
  rw [if_neg hdatabase]
  by_cases hbucket : env.bucketNew = false
  · exact ⟨.kAborted, by decide, if_pos hbucket⟩
  rw [if_neg hbucket]
  by_cases hgridfs : env.getGridfs = false
  · exact ⟨.kAborted, by decide, if_pos hgridfs⟩
  rw [if_neg hgridfs]
  by_cases hfindOne : env.findOne = .fileNotFound
  · exact ⟨.kNotFound, by decide, if_pos hfindOne⟩
  rw [if_neg hfindOne]
  cases hfile : foundFile bson_oid_init_from_string env store id with
  | none => exact ⟨.kUnknown, by decide, rfl⟩
  | some file =>
      by_cases hremove : env.fileRemove = false
      · exact ⟨.kUnknown, by decide, if_pos hremove⟩
      · -- nothing has failed so far
        rw [Bool.not_eq_false] at hpool hpop hdatabase hbucket hgridfs hremove
        have hfound : (foundFile bson_oid_init_from_string env store id).isSome := by
          rw [hfile]
          rfl
        exact absurd
          ⟨not_not.mp hsize, hpool, hpop, hdatabase, hbucket, hgridfs, hfound, hremove⟩ h

/-- A call that removes the old file leaves nothing, or what the upload stream took. -/
theorem updateImageById_of_removes (h : Removes bson_oid_init_from_string env store id size) :
    ∃ file, store (bson_oid_init_from_string id) = some file ∧
      updateImageById bson_oid_init_from_string env store id size filedata =
        if env.openUploadStream = false then
          some (.kUnknown, Function.update store (bson_oid_init_from_string id) none)
        else (upload env.write filedata).map fun content =>
          (.kOk, Function.update (Function.update store (bson_oid_init_from_string id) none)
            (bson_oid_init_from_string id) (some { file with content := content })) := by
  obtain ⟨hsize, hpool, hpop, hdatabase, hbucket, hgridfs, hfound, hremove⟩ := h
  obtain ⟨file, hfile⟩ := Option.isSome_iff_exists.mp hfound
  have hone : env.findOne = .found := by
    by_contra hne
    simp [foundFile, hne] at hfile
  refine ⟨file, by simpa [foundFile, hone] using hfile, ?_⟩
  simp [updateImageById, hsize, hpool, hpop, hdatabase, hbucket, hgridfs, hone, hfile, hremove]

/-- Other files are never touched. -/
theorem updateImageById_frame {status : ReturnStatus} {store' : Store Oid Metadata} {oid : Oid}
    (hoid : oid ≠ bson_oid_init_from_string id)
    (h : updateImageById bson_oid_init_from_string env store id size filedata =
      some (status, store')) : store' oid = store oid := by
  by_cases hremoves : Removes bson_oid_init_from_string env store id size
  · obtain ⟨file, -, hupdate⟩ := updateImageById_of_removes bson_oid_init_from_string env store id
      size filedata hremoves
    rw [hupdate] at h
    split at h
    · cases h
      simp [hoid]
    · obtain ⟨content, -, hcontent⟩ := Option.map_eq_some_iff.mp h
      cases hcontent
      simp [hoid]
  · obtain ⟨status', -, hupdate⟩ := updateImageById_of_not_removes bson_oid_init_from_string env store
      id size filedata hremoves
    rw [hupdate] at h
    cases h
    rfl

/-- **An update is all or nothing exactly when it is safe**: for every id, every stored content, every
new content and every combination of driver results. -/
theorem updateImageById_allOrNothing_iff :
    AllOrNothing bson_oid_init_from_string store id filedata
        (updateImageById bson_oid_init_from_string env store id size filedata) ↔
      SafeUpdate bson_oid_init_from_string env store id size filedata := by
  unfold SafeUpdate
  by_cases hremoves : Removes bson_oid_init_from_string env store id size
  · obtain ⟨file, hfile, hupdate⟩ := updateImageById_of_removes bson_oid_init_from_string env store id
      size filedata hremoves
    rw [hupdate, ← upload_eq_iff]
    cases hopen : env.openUploadStream with
    | false =>
        -- the old content is gone and the status says so
        refine iff_of_false ?_ (by simp [hremoves])
        rintro ⟨status, store', hresult, -, hold⟩
        simp only [if_true, Option.some.injEq, Prod.mk.injEq] at hresult
        obtain ⟨rfl, rfl⟩ := hresult
        have hgone := hold (by decide)
        simp [hfile] at hgone
    | true =>
        simp only [Bool.true_eq_false, if_false, hremoves, not_true_eq_false, false_or, true_and]
        constructor
        · rintro ⟨status, store', hresult, hnew, -⟩
          obtain ⟨content, hcontent, hpair⟩ := Option.map_eq_some_iff.mp hresult
          cases hpair
          have hstored := hnew rfl
          simp only [Function.update_self, Option.map_some, Option.some.injEq] at hstored
          rw [hcontent, hstored]
        · intro hupload
          exact ⟨.kOk, _, by rw [hupload]; rfl, fun _ => by simp, fun hne => absurd rfl hne⟩
  · obtain ⟨status, hstatus, hupdate⟩ := updateImageById_of_not_removes bson_oid_init_from_string env
      store id size filedata hremoves
    rw [hupdate]
    exact iff_of_true ⟨status, store, rfl, fun hok => absurd hok hstatus, fun _ => rfl⟩
      (.inl hremoves)

end Update

/-- A driver that does everything it is asked for, except that it takes only `count` bytes of the first
write. -/
def shortWrite (count : Int) : DriverResults where
  cPool := true
  poolPop := true
  getDatabase := true
  bucketNew := true
  getGridfs := true
  findOne := .found
  fileRemove := true
  openUploadStream := true
  write := fun _ => count

/-- A failed write is reported as success, and the old content is lost. -/
theorem failed_write_not_allOrNothing :
    let store : Store String Unit := fun _ => some ⟨"image.png", (), [1, 2, 3]⟩
    ¬ AllOrNothing (fun s => s) store "507f1f77bcf86cd799439011" [7]
      (updateImageById (fun s => s) (shortWrite (-1)) store "507f1f77bcf86cd799439011" 24 [7]) := by
  intro store
  rintro ⟨status, store', hresult, hnew, -⟩
  have hupdate : updateImageById (fun s => s) (shortWrite (-1)) store "507f1f77bcf86cd799439011" 24
      [7] = some (.kOk, Function.update (Function.update store "507f1f77bcf86cd799439011" none)
        "507f1f77bcf86cd799439011" (some ⟨"image.png", (), []⟩)) := by
    rfl
  rw [hupdate] at hresult
  cases hresult
  have hstored := hnew rfl
  simp at hstored

end LimbWorker.MediaRepository
