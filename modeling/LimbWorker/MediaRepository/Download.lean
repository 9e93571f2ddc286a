import LimbWorker.MediaRepository.MongoClient

/-!
# `MongoClient::getImageById`

An image is read piece by piece into a buffer that grows with every piece. The read stream of the driver cuts
the content as it likes, and may fail; so may each allocation.

The upload and the download are written independently: one cuts the data into chunks and a rest, the other
puts pieces end to end. `roundTrip` says that the second gives back what the first has stored.
-/

namespace LimbWorker.MediaRepository

/-! ## The driver -/

/-- The answer of `mongoc_gridfs_bucket_open_download_stream`. -/
inductive OpenResult where
  | opened
  | fileNotFound
  | failed
  deriving DecidableEq, Repr

/-- A result of `mongoc_stream_readv`: `-1`, or the number of bytes that it put into `buf`. -/
inductive ReadResult where
  | error
  | bytes (piece : Bytes)
  deriving DecidableEq, Repr

/-- `r`. -/
def ReadResult.r : ReadResult → Int
  | .error => -1
  | .bytes piece => piece.length

/-- The answers of the driver and of the allocator during one call. `reads` is how a stream delivers a
content, up to the end of the file; `malloc k` says whether the `k`-th `malloc` or `realloc` gives memory. -/
structure DownloadResults where
  cPool : Bool
  poolPop : Bool
  getDatabase : Bool
  bucketNew : Bool
  openDownloadStream : OpenResult
  reads : Bytes → List ReadResult
  malloc : Nat → Bool

/-- What `*filedata` points to. -/
inductive FileData where
  | unset
  | null
  | buffer (data : Bytes)
  | freed
  deriving DecidableEq, Repr

/-- The bytes that are there to be read; nothing is there to be read at a null pointer. -/
def FileData.bytes : FileData → Option Bytes
  | .null => some []
  | .buffer data => some data
  | .unset => none
  | .freed => none

/-- The status, `*filedata` and `*filesize`. -/
structure Download where
  status : ReturnStatus
  filedata : FileData
  filesize : Nat
  deriving DecidableEq, Repr

/-- Conversion to `size_t`. -/
def toSizeT (x : Int) : Nat := (x % 2 ^ 64).toNat

/-! ## The read loop -/

/-- `realloc`: what was there stays as far as there is room, and what is new holds anything. -/
def realloc (buffer : Bytes) (size : Nat) : Bytes :=
  buffer.take size ++ List.replicate (size - buffer.length) 0

/-- `memcpy` of `r` bytes to `buffer + offset`; `none` where that is not inside the buffer. A negative count
is a very large one. -/
def memcpy (buffer : Bytes) (offset : Int) (source : Bytes) (r : Int) : Option Bytes :=
  if 0 ≤ offset ∧ 0 ≤ r ∧ offset + r ≤ buffer.length then
    some (buffer.take offset.toNat ++ source.take r.toNat ++ buffer.drop (offset + r).toNat)
  else none

/-- The bytes in `buf` after a read. -/
def ReadResult.buf : ReadResult → Bytes
  | .error => []
  | .bytes piece => piece

/-- `tmp` where there is memory: `malloc(r)`, or `realloc(outBuf, bufSize + r)`. -/
def allocate (outBuf : Option Bytes) (bufSize r : Int) : Bytes :=
  match outBuf with
  | none => List.replicate r.toNat 0
  | some buffer => realloc buffer (bufSize + r).toNat

/-- `outBuf` as it is returned. -/
def fileData : Option Bytes → FileData
  | none => .null
  | some buffer => .buffer buffer

/-- `outBuf` after it was freed. -/
def freedData : Option Bytes → FileData
  | none => .null
  | some _ => .freed

/-- The loop, from read `i` on, where `results` are what is still to be read; `none` is undefined behaviour. -/
def readLoop (malloc : Nat → Bool) (i : Nat) (outBuf : Option Bytes) (bufSize : Int) :
    List ReadResult → Option Download
  | [] => some ⟨.kOk, fileData outBuf, toSizeT bufSize⟩
  | result :: rest =>
      if result.r = 0 then some ⟨.kOk, fileData outBuf, toSizeT bufSize⟩
      else if malloc i = false then some ⟨.kOutOfMemory, freedData outBuf, toSizeT bufSize⟩
      else
        (memcpy (allocate outBuf bufSize result.r) bufSize result.buf result.r).bind fun buffer =>
          readLoop malloc (i + 1) (some buffer) (toInt (bufSize + result.r)) rest

section Download

variable {Oid Metadata : Type} (bson_oid_init_from_string : String → Oid) (env : DownloadResults)
  (store : Store Oid Metadata) (id : String) (size : Nat)

/-- `MongoClient::getImageById`; `none` where its behaviour is undefined. -/
def getImageById : Option Download :=
  let oid := bson_oid_init_from_string id
  if size ≠ 24 then some ⟨.kInvalidInput, .unset, 0⟩
  else if env.cPool = false then some ⟨.kUninitialized, .unset, 0⟩
  else if env.poolPop = false then some ⟨.kUninitialized, .unset, 0⟩
  else if env.getDatabase = false then some ⟨.kAborted, .unset, 0⟩
  else if env.bucketNew = false then some ⟨.kAborted, .unset, 0⟩
  else if env.openDownloadStream = .fileNotFound then some ⟨.kNotFound, .unset, 0⟩
  else if env.openDownloadStream = .failed then some ⟨.kUnknown, .unset, 0⟩
  else
    match store oid with
    | none => some ⟨.kNotFound, .unset, 0⟩
    | some file => readLoop env.malloc 0 none 0 (env.reads file.content)

/-! ## Reading what was written -/

/-- Nothing fails on the way to the stream, and there is memory. -/
structure DownloadResults.Works : Prop where
  cPool : env.cPool = true
  poolPop : env.poolPop = true
  getDatabase : env.getDatabase = true
  bucketNew : env.bucketNew = true
  openDownloadStream : env.openDownloadStream = .opened
  malloc : ∀ k, env.malloc k = true

/-- A stream delivers a content in pieces that `buf` can hold, and then the end of the file. -/
def DeliversWhole (reads : Bytes → List ReadResult) : Prop :=
  ∀ content, ∃ pieces : List Bytes, reads content = pieces.map .bytes ++ [.bytes []] ∧
    pieces.flatten = content ∧
      ∀ piece ∈ pieces, 1 ≤ piece.length ∧ piece.length ≤ MONGO_TRANSFER_CHUNK

end Download

/-- Growing the buffer and copying behind what was there puts the piece at its end. -/
theorem memcpy_realloc (buffer piece : Bytes) :
    memcpy (realloc buffer (buffer.length + piece.length)) buffer.length piece piece.length =
      some (buffer ++ piece) := by
  have hlength : (realloc buffer (buffer.length + piece.length)).length =
      buffer.length + piece.length := by
    simp [realloc]
  have hfits : (0 : Int) ≤ buffer.length ∧ (0 : Int) ≤ piece.length ∧
      (buffer.length : Int) + piece.length ≤
        (realloc buffer (buffer.length + piece.length)).length := by
    rw [hlength]
    omega
  have hfront : (realloc buffer (buffer.length + piece.length)).take buffer.length = buffer := by
    simp [realloc]
  rw [memcpy, if_pos hfits, ← Int.natCast_add, Int.toNat_natCast, Int.toNat_natCast, Int.toNat_natCast,
    hfront, List.take_length, List.drop_of_length_le hlength.le, List.append_nil]

/-- **One piece** ends up behind what was read before. -/
theorem memcpy_allocate (outBuf : Option Bytes) (piece : Bytes) :
    memcpy (allocate outBuf (outBuf.getD []).length piece.length) (outBuf.getD []).length piece
      piece.length = some (outBuf.getD [] ++ piece) := by
  cases outBuf with
  | none =>
      have h := memcpy_realloc [] piece
      simpa [realloc, allocate] using h
  | some buffer =>
      have h := memcpy_realloc buffer piece
      rwa [← Int.toNat_natCast (buffer.length + piece.length), Int.natCast_add] at h

theorem toInt_of_lt {n : Nat} (h : n < 2 ^ 31) : toInt n = n := by
  unfold toInt
  omega

theorem toSizeT_of_lt {n : Nat} (h : n < 2 ^ 31) : toSizeT n = n := by
  unfold toSizeT
  omega

/-- **The read loop** puts the pieces end to end behind what it has, as long as an `int` can count them. -/
theorem readLoop_pieces {malloc : Nat → Bool} (hmalloc : ∀ k, malloc k = true) (pieces : List Bytes)
    (hpieces : ∀ piece ∈ pieces, 1 ≤ piece.length) (i : Nat) (outBuf : Option Bytes)
    (hlength : (outBuf.getD [] ++ pieces.flatten).length < 2 ^ 31) :
    ∃ filedata, readLoop malloc i outBuf (outBuf.getD []).length
        (pieces.map .bytes ++ [.bytes []]) =
          some ⟨.kOk, filedata, (outBuf.getD [] ++ pieces.flatten).length⟩ ∧
      filedata.bytes = some (outBuf.getD [] ++ pieces.flatten) := by
  induction pieces generalizing i outBuf with
  | nil =>
      rw [List.flatten_nil, List.append_nil] at hlength ⊢
      refine ⟨fileData outBuf, ?_, ?_⟩
      · simp [readLoop, ReadResult.r, toSizeT_of_lt hlength]
      · cases outBuf <;> rfl
  | cons piece pieces ih =>
      have hpos := hpieces piece List.mem_cons_self
      -- the piece moves from the rest to the buffer
      have hassoc : outBuf.getD [] ++ (piece :: pieces).flatten =
          (some (outBuf.getD [] ++ piece)).getD [] ++ pieces.flatten := by
        rw [List.flatten_cons, ← List.append_assoc]
        rfl
      rw [hassoc] at hlength ⊢
      obtain ⟨filedata, hloop, hbytes⟩ := ih (fun p hp => hpieces p (List.mem_cons_of_mem piece hp))
        (i + 1) (some (outBuf.getD [] ++ piece)) hlength
      refine ⟨filedata, ?_, hbytes⟩
      have hne : (ReadResult.bytes piece).r ≠ 0 := by
        simp only [ReadResult.r]
        omega
      -- the size fits, so its conversion loses nothing
      have hsize : toInt ((outBuf.getD []).length + (ReadResult.bytes piece).r) =
          (outBuf.getD [] ++ piece).length := by
        rw [List.length_append] at hlength
        have hlt : (outBuf.getD [] ++ piece).length < 2 ^ 31 :=
          Nat.lt_of_le_of_lt (Nat.le_add_right _ _) hlength
        rw [← toInt_of_lt hlt, List.length_append]
        rfl
      rw [List.map_cons, List.cons_append, readLoop, if_neg hne, hmalloc i, if_neg (by decide), hsize]
      have hcopy := memcpy_allocate outBuf piece
      simp only [ReadResult.r, ReadResult.buf]
      rw [hcopy]
      exact hloop

section RoundTrip

variable {Oid Metadata : Type} [DecidableEq Oid] {bson_oid_init_from_string : String → Oid}
  {store store' : Store Oid Metadata} {id : String} {size : Nat} {filedata : Bytes}

/-- A successful update has stored what its writes left. -/
theorem upload_of_updateImageById {env : DriverResults}
    (h : updateImageById bson_oid_init_from_string env store id size filedata = some (.kOk, store')) :
    size = 24 ∧ ∃ (file : GridFile Metadata) (content : Bytes), upload env.write filedata = some content ∧
      store' (bson_oid_init_from_string id) = some { file with content := content } := by
  by_cases hremoves : Removes bson_oid_init_from_string env store id size
  · obtain ⟨file, -, hupdate⟩ := updateImageById_of_removes bson_oid_init_from_string env store id size
      filedata hremoves
    rw [hupdate] at h
    split at h
    · cases h
    · obtain ⟨content, hcontent, hpair⟩ := Option.map_eq_some_iff.mp h
      cases hpair
      exact ⟨hremoves.1, file, content, hcontent, Function.update_self _ _ _⟩
  · obtain ⟨status, hstatus, hupdate⟩ := updateImageById_of_not_removes bson_oid_init_from_string env
      store id size filedata hremoves
    rw [hupdate] at h
    cases h
    exact absurd rfl hstatus

/-- **The database round trip**: what a successful update was given, the download gives back, for every array
shorter than `2^31` bytes and every way the reads are cut. The upload has stored exactly that array. -/
theorem getImageById_updateImageById {update : DriverResults} {download : DownloadResults}
    (hupdate : updateImageById bson_oid_init_from_string update store id size filedata =
      some (.kOk, store'))
    (hlength : filedata.length < 2 ^ 31) (hwrites : WritesWhole update.write filedata.length)
    (hdownload : download.Works) (hreads : DeliversWhole download.reads) :
    (store' (bson_oid_init_from_string id)).map GridFile.content = some filedata ∧
      ∃ data, getImageById bson_oid_init_from_string download store' id size =
          some ⟨.kOk, data, filedata.length⟩ ∧
        data.bytes = some filedata := by
  obtain ⟨hsize, file, content, hupload, hstored⟩ := upload_of_updateImageById hupdate
  rw [(upload_eq_iff_of_short update.write hlength).mpr hwrites] at hupload
  cases hupload
  refine ⟨by rw [hstored]; rfl, ?_⟩
  obtain ⟨pieces, hcut, hflatten, hpieces⟩ := hreads filedata
  obtain ⟨data, hloop, hbytes⟩ := readLoop_pieces hdownload.malloc pieces
    (fun piece hpiece => (hpieces piece hpiece).1) 0 none (by simpa [hflatten] using hlength)
  refine ⟨data, ?_, by simpa [hflatten] using hbytes⟩
  unfold getImageById
  simp only [hsize, hdownload.cPool, hdownload.poolPop, hdownload.getDatabase, hdownload.bucketNew,
    hdownload.openDownloadStream, hstored, hcut, ne_eq, not_true_eq_false, Bool.true_eq_false, reduceCtorEq,
    if_false]
  simpa [hflatten] using hloop

end RoundTrip

/-- Pieces of `k + 1`, `k + 2`, … bytes, as far as `buf` holds them; there are at most `fuel` bytes. -/
def piecesFrom (k : Nat) : Nat → Bytes → List Bytes
  | 0, _ => []
  | fuel + 1, content =>
      let r := min (k + 1) MONGO_TRANSFER_CHUNK
      if content = [] then [] else content.take r :: piecesFrom (k + 1) fuel (content.drop r)

theorem piecesFrom_spec {fuel : Nat} (k : Nat) {content : Bytes} (h : content.length ≤ fuel) :
    (piecesFrom k fuel content).flatten = content ∧
      ∀ piece ∈ piecesFrom k fuel content, 1 ≤ piece.length ∧ piece.length ≤ MONGO_TRANSFER_CHUNK := by
  induction fuel generalizing k content with
  | zero =>
      rw [List.eq_nil_of_length_eq_zero (Nat.le_zero.mp h)]
      exact ⟨rfl, fun piece hpiece => absurd hpiece List.not_mem_nil⟩
  | succ fuel ih =>
      rw [piecesFrom]
      by_cases hnil : content = []
      · rw [if_pos hnil, hnil]
        exact ⟨rfl, fun piece hpiece => absurd hpiece List.not_mem_nil⟩
      · have hpos : 1 ≤ min (k + 1) MONGO_TRANSFER_CHUNK := Nat.le_min.mpr ⟨Nat.le_add_left 1 k, by decide⟩
        have hlength := List.length_pos_iff.mpr hnil
        obtain ⟨hflatten, hpieces⟩ := ih (k + 1)
          (show (content.drop (min (k + 1) MONGO_TRANSFER_CHUNK)).length ≤ fuel by rw [List.length_drop]; omega)
        rw [if_neg hnil, List.flatten_cons, hflatten, List.take_append_drop]
        refine ⟨rfl, fun piece hpiece => ?_⟩
        rcases List.mem_cons.mp hpiece with rfl | hrest
        · rw [List.length_take]
          omega
        · exact hpieces piece hrest

/-- A stream that delivers one byte at first, and one more every time. -/
def growing (content : Bytes) : List ReadResult := (piecesFrom 0 content.length content).map .bytes ++ [.bytes []]

theorem growing_deliversWhole : DeliversWhole growing := fun content =>
  ⟨piecesFrom 0 content.length content, rfl, piecesFrom_spec 0 (Nat.le_refl _)⟩

/-- A driver that does everything it is asked for. -/
def willingDriver : DownloadResults where
  cPool := true
  poolPop := true
  getDatabase := true
  bucketNew := true
  openDownloadStream := .opened
  reads := growing
  malloc := fun _ => true

/-- A whole chunk and a rest. -/
def longFile : Bytes := (List.range 5000).map fun i => i.toUInt8

theorem length_longFile : longFile.length = 5000 := by rw [longFile, List.length_map, List.length_range]

/-- It takes the place of three bytes, and is read back in a hundred pieces. -/
theorem longFile_roundTrip :
    let before : Store String Unit := fun _ => some ⟨"image.png", (), [1, 2, 3]⟩
    let after : Store String Unit := Function.update (Function.update before "507f1f77bcf86cd799439011"
      none) "507f1f77bcf86cd799439011" (some ⟨"image.png", (), longFile⟩)
    (after "507f1f77bcf86cd799439011").map GridFile.content = some longFile ∧
      ∃ data, getImageById (fun s => s) willingDriver after "507f1f77bcf86cd799439011" 24 =
          some ⟨.kOk, data, 5000⟩ ∧
        data.bytes = some longFile := by
  intro before after
  have hlength : longFile.length < 2 ^ 31 := by
    rw [length_longFile]
    decide
  have hwrites : WritesWhole (shortWrite 4096).write longFile.length := by
    refine ⟨fun k hk => Int.le_refl _, fun _ => ?_⟩
    rw [length_longFile]
    decide
  have hupdate : updateImageById (fun s => s) (shortWrite 4096) before "507f1f77bcf86cd799439011" 24
      longFile = some (.kOk, after) := by
    obtain ⟨file, hfile, hupdate⟩ := updateImageById_of_removes (fun s => s) (shortWrite 4096) before
      "507f1f77bcf86cd799439011" 24 longFile ⟨rfl, rfl, rfl, rfl, rfl, rfl, rfl, rfl⟩
    rw [(upload_eq_iff_of_short _ hlength).mpr hwrites] at hupdate
    cases hfile
    exact hupdate
  have hround := getImageById_updateImageById hupdate hlength hwrites
    (show willingDriver.Works from ⟨rfl, rfl, rfl, rfl, rfl, fun _ => rfl⟩) growing_deliversWhole
  rwa [length_longFile] at hround

end LimbWorker.MediaRepository
