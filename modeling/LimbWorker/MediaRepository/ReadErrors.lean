import LimbWorker.MediaRepository.Download

/-!
# Read errors in `MongoClient::getImageById`

The read loop tells the end of the file from everything else, and nothing more: the `-1` of a read that failed
is added to sizes and copied like the length of a piece, and a buffer that was freed is still returned.
`getImageById_reported_iff` says for which results of the reads and of the allocations that does not show.
-/

namespace LimbWorker.MediaRepository

/-- The content that the results deliver: the pieces up to the end of the file, if no read fails before. -/
def delivered : List ReadResult → Option Bytes
  | [] => some []
  | .error :: _ => none
  | .bytes [] :: _ => some []
  | .bytes (byte :: piece) :: rest => (delivered rest).map (byte :: piece ++ ·)

/-- How many reads come before the end of the file. -/
def readsBeforeEnd : List ReadResult → Nat
  | [] => 0
  | .error :: rest => readsBeforeEnd rest + 1
  | .bytes [] :: _ => 0
  | .bytes (_ :: _) :: rest => readsBeforeEnd rest + 1

/-- No read fails before the end of the file, every allocation from the `i`-th on is given, and an `int` can count
the content together with the `n` bytes that are there already. -/
def ReadsWhole (malloc : Nat → Bool) (i n : Nat) (results : List ReadResult) : Prop :=
  ∃ bytes, delivered results = some bytes ∧ n + bytes.length < 2 ^ 31 ∧
    ∀ k < readsBeforeEnd results, malloc (i + k) = true

/-- The status says whether `content` was read. If it was, it is what is returned; otherwise nothing that was
freed is returned. `none` is a negative length given to `memcpy`. -/
def Reported (content : Option Bytes) : Option Download → Prop
  | none => False
  | some download =>
      if download.status = .kOk then
        ∃ bytes, content = some bytes ∧ download.filedata.bytes = some bytes ∧
          download.filesize = bytes.length
      else download.filedata ≠ .freed

/-! ## The loop -/

variable {malloc : Nat → Bool} {i : Nat} {content : Option Bytes} {buffer : Bytes}
  {rest : List ReadResult}

theorem memcpy_of_neg {offset r : Int} (h : offset < 0 ∨ r < 0) (block source : Bytes) :
    memcpy block offset source r = none := by
  rw [memcpy, if_neg (by omega)]

/-- A negative number becomes larger than every length. -/
theorem lt_toSizeT_of_neg {x : Int} (h : x < 0) (hle : -2 ^ 31 ≤ x) : 2 ^ 32 < toSizeT x := by
  unfold toSizeT
  omega

/-- Adding a piece to a size just below the limit makes it negative. -/
theorem toInt_of_wrapped {n : Nat} (hle : 2 ^ 31 ≤ n) (hlt : n < 2 ^ 32) :
    -2 ^ 31 ≤ toInt n ∧ toInt n < 0 := by
  unfold toInt
  omega

theorem readLoop_end (outBuf : Option Bytes) (bufSize : Int) :
    readLoop malloc i outBuf bufSize (.bytes [] :: rest) =
      some ⟨.kOk, fileData outBuf, toSizeT bufSize⟩ :=
  if_pos rfl

/-- The end of the file, with a buffer of the size that is kept. -/
theorem reported_end (hlength : buffer.length < 2 ^ 31) :
    Reported content (some ⟨.kOk, .buffer buffer, toSizeT buffer.length⟩) ↔ content = some buffer := by
  rw [toSizeT_of_lt hlength]
  constructor
  · rintro ⟨bytes, hcontent, hbytes, -⟩
    rw [hcontent, ← hbytes]
    rfl
  · intro h
    exact ⟨buffer, h, rfl, rfl⟩

/-- Once the size has become negative, whatever comes next goes wrong: the size is returned, the buffer is freed,
or the copy starts in front of it. -/
theorem not_reported_of_wrapped {bufSize : Int} (hneg : bufSize < 0) (hle : -2 ^ 31 ≤ bufSize)
    (hlength : buffer.length < 2 ^ 32) (results : List ReadResult) :
    ¬ Reported content (readLoop malloc i (some buffer) bufSize results) := by
  have hend : ¬ Reported content (some ⟨.kOk, .buffer buffer, toSizeT bufSize⟩) := by
    rintro ⟨bytes, -, hbytes, hsize⟩
    have hlt := lt_toSizeT_of_neg hneg hle
    cases hbytes
    dsimp only at hsize
    omega
  cases results with
  | nil => exact hend
  | cons result rest =>
      rw [readLoop]
      split
      · exact hend
      · split
        · exact fun h => h rfl
        · rw [memcpy_of_neg (.inl hneg)]
          exact id

/-- A read that fails once there is a buffer: it is freed, or the copy gets a negative length. -/
theorem not_reported_of_error {bufSize : Int} :
    ¬ Reported content (readLoop malloc i (some buffer) bufSize (.error :: rest)) := by
  rw [readLoop, if_neg (by decide)]
  split
  · exact fun h => h rfl
  · rw [memcpy_of_neg (.inr (by decide))]
    exact id

/-- One more piece, with memory: it ends up behind the others. -/
theorem readLoop_piece (hmalloc : malloc i = true) (outBuf : Option Bytes) (byte : UInt8)
    (piece : Bytes) (rest : List ReadResult) :
    readLoop malloc i outBuf (outBuf.getD []).length (.bytes (byte :: piece) :: rest) =
      readLoop malloc (i + 1) (some (outBuf.getD [] ++ byte :: piece))
        (toInt (outBuf.getD [] ++ byte :: piece).length) rest := by
  have hne : (ReadResult.bytes (byte :: piece)).r ≠ 0 := by
    simp only [ReadResult.r, List.length_cons]
    omega
  have hcopy := memcpy_allocate outBuf (byte :: piece)
  rw [readLoop, if_neg hne, hmalloc, if_neg (by decide)]
  simp only [ReadResult.r, ReadResult.buf]
  rw [hcopy, List.length_append, Int.natCast_add]
  rfl

/-- Nothing is left to read. -/
theorem readsWhole_end {n : Nat} (hlt : n < 2 ^ 31) : ReadsWhole malloc i n (.bytes [] :: rest) :=
  ⟨[], rfl, hlt, fun k hk => absurd hk (Nat.not_lt_zero k)⟩

theorem not_readsWhole_error {n : Nat} : ¬ ReadsWhole malloc i n (.error :: rest) := by
  rintro ⟨bytes, hbytes, -⟩
  cases hbytes

/-- One more piece, and the rest after it. -/
theorem readsWhole_cons_iff {n : Nat} {byte : UInt8} {piece : Bytes} :
    ReadsWhole malloc i n (.bytes (byte :: piece) :: rest) ↔
      malloc i = true ∧ ReadsWhole malloc (i + 1) (n + (byte :: piece).length) rest := by
  constructor
  · rintro ⟨bytes, hbytes, hfits, hmalloc⟩
    obtain ⟨tail, htail, rfl⟩ := Option.map_eq_some_iff.mp hbytes
    rw [List.length_append, ← Nat.add_assoc] at hfits
    refine ⟨hmalloc 0 (Nat.succ_pos _), tail, htail, hfits, fun k hk => ?_⟩
    rw [Nat.add_assoc, Nat.add_comm 1]
    exact hmalloc (k + 1) (Nat.succ_lt_succ hk)
  · rintro ⟨hfirst, tail, htail, hfits, hmalloc⟩
    refine ⟨byte :: piece ++ tail, by rw [delivered, htail]; rfl, ?_, fun k hk => ?_⟩
    · rwa [List.length_append, ← Nat.add_assoc]
    · rcases k with _ | k
      · exact hfirst
      · rw [Nat.add_comm k, ← Nat.add_assoc]
        exact hmalloc k (Nat.lt_of_succ_lt_succ hk)

/-- **The loop with something in the buffer**: it is reported what was read just if no read and no allocation
fails and an `int` can count the bytes. -/
theorem readLoop_reported_iff (malloc : Nat → Bool) (i : Nat) (results : List ReadResult)
    (hresults : ∀ result ∈ results, result.r ≤ 4096) (hlength : buffer.length < 2 ^ 31) :
    Reported ((delivered results).map (buffer ++ ·))
        (readLoop malloc i (some buffer) buffer.length results) ↔
      ReadsWhole malloc i buffer.length results := by
  induction results using delivered.induct generalizing i buffer with
  | case1 =>
      refine (reported_end hlength).trans (iff_of_true ?_ ?_)
      · simp [delivered]
      · exact ⟨[], rfl, hlength, fun k hk => absurd hk (Nat.not_lt_zero k)⟩
  | case2 rest => exact iff_of_false not_reported_of_error not_readsWhole_error
  | case3 rest =>
      rw [readLoop_end]
      refine (reported_end hlength).trans (iff_of_true ?_ (readsWhole_end hlength))
      simp [delivered]
  | case4 byte piece rest ih =>
      have hrest : ∀ result ∈ rest, result.r ≤ 4096 := fun r hr =>
        hresults r (List.mem_cons_of_mem _ hr)
      have hpiece : (ReadResult.bytes (byte :: piece)).r ≤ 4096 :=
        hresults (.bytes (byte :: piece)) List.mem_cons_self
      simp only [ReadResult.r] at hpiece
      rw [readsWhole_cons_iff]
      by_cases hmalloc : malloc i = true
      · have hstep := readLoop_piece hmalloc (some buffer) byte piece rest
        -- the piece moves from what is to come to what has been read
        have hwhole : (delivered (.bytes (byte :: piece) :: rest)).map (buffer ++ ·) =
            (delivered rest).map ((buffer ++ byte :: piece) ++ ·) := by
          rw [delivered, Option.map_map]
          congr 1
          funext bytes
          simp
        have hgrown : (buffer ++ byte :: piece).length = buffer.length + (byte :: piece).length :=
          List.length_append
        rw [Option.getD_some] at hstep
        rw [hstep, hwhole, ← hgrown]
        by_cases hlt : (buffer ++ byte :: piece).length < 2 ^ 31
        · rw [toInt_of_lt hlt, ih (i + 1) hrest hlt]
          simp only [hmalloc, true_and]
        · -- the size wraps here
          have hle : 2 ^ 31 ≤ (buffer ++ byte :: piece).length := Nat.not_lt.mp hlt
          have hsmall : (buffer ++ byte :: piece).length < 2 ^ 32 := by omega
          obtain ⟨hbound, hneg⟩ := toInt_of_wrapped hle hsmall
          refine iff_of_false (not_reported_of_wrapped hneg hbound hsmall rest) ?_
          rintro ⟨-, bytes, -, hfits, -⟩
          omega
      · have hfalse : malloc i = false := by simpa using hmalloc
        -- no buffer: the size stays as it was
        refine iff_of_false ?_ fun h => hmalloc h.1
        rw [readLoop, if_neg (by simp [ReadResult.r]; omega), hfalse, if_pos rfl]
        exact fun h => h rfl

/-- **The loop from its start**: a first allocation that fails is reported, as nothing was freed yet. -/
theorem readLoop_start_reported_iff (results : List ReadResult)
    (hresults : ∀ result ∈ results, result.r ≤ 4096) :
    Reported (delivered results) (readLoop malloc 0 none 0 results) ↔
      malloc 0 = false ∨ ReadsWhole malloc 0 0 results := by
  have hend : Reported (some []) (some ⟨.kOk, fileData none, toSizeT 0⟩) := ⟨[], rfl, rfl, rfl⟩
  have hnothing : ∀ content, Reported content (some ⟨.kOutOfMemory, freedData none, toSizeT 0⟩) :=
    fun _ h => by cases h
  cases results using delivered.induct with
  | case1 => exact iff_of_true hend (.inr ⟨[], rfl, by decide, fun k hk => absurd hk (Nat.not_lt_zero k)⟩)
  | case2 rest =>
      rw [readLoop, if_neg (by decide)]
      -- a failed allocation at the first read is reported as such
      cases hmalloc : malloc 0 with
      | false =>
          rw [if_pos rfl]
          exact iff_of_true (hnothing _) (.inl rfl)
      | true =>
          rw [if_neg (by decide), memcpy_of_neg (.inr (by decide))]
          refine iff_of_false id ?_
          rintro (h | h)
          · cases h
          · exact not_readsWhole_error h
  | case3 rest =>
      rw [readLoop_end]
      exact iff_of_true hend (.inr (readsWhole_end (by decide)))
  | case4 byte piece rest _ =>
      have hpiece : (ReadResult.bytes (byte :: piece)).r ≤ 4096 :=
        hresults (.bytes (byte :: piece)) List.mem_cons_self
      simp only [ReadResult.r] at hpiece
      have hlt : (byte :: piece).length < 2 ^ 31 := by omega
      cases hmalloc : malloc 0 with
      | false =>
          rw [readLoop, if_neg (by simp [ReadResult.r]; omega), hmalloc, if_pos rfl]
          exact iff_of_true (hnothing _) (.inl rfl)
      | true =>
          have hstep := readLoop_piece hmalloc none byte piece rest
          rw [Option.getD_none, List.nil_append] at hstep
          -- after it the loop runs on with a buffer
          have hloop := readLoop_reported_iff malloc (0 + 1) rest
            (fun r hr => hresults r (List.mem_cons_of_mem _ hr)) hlt
          have hwhole : delivered (.bytes (byte :: piece) :: rest) =
              (delivered rest).map (byte :: piece ++ ·) := rfl
          rw [show ((0 : Int) = (([] : Bytes).length : Int)) from rfl, hstep, toInt_of_lt hlt, hwhole, hloop,
            readsWhole_cons_iff, hmalloc, Nat.zero_add]
          simp

/-! ## The whole function -/

section GetImageById

variable {Oid Metadata : Type} (bson_oid_init_from_string : String → Oid) (env : DownloadResults)
  (store : Store Oid Metadata) (id : String) (size : Nat)

/-- The results that the loop is given, if it is reached. -/
def loopReads : Option (List ReadResult) :=
  if size = 24 ∧ env.cPool = true ∧ env.poolPop = true ∧ env.getDatabase = true ∧
      env.bucketNew = true ∧ env.openDownloadStream = .opened then
    (store (bson_oid_init_from_string id)).map fun file => env.reads file.content
  else none

/-- Before the loop, every failure is a status of its own and leaves `*filedata` alone. -/
theorem getImageById_eq :
    (∃ results, loopReads bson_oid_init_from_string env store id size = some results ∧
        getImageById bson_oid_init_from_string env store id size =
          readLoop env.malloc 0 none 0 results) ∨
      loopReads bson_oid_init_from_string env store id size = none ∧
        ∃ status, status ≠ .kOk ∧ getImageById bson_oid_init_from_string env store id size =
          some ⟨status, .unset, 0⟩ := by
  -- the loop is reached exactly when everything before it succeeds
  by_cases hopen : size = 24 ∧ env.cPool = true ∧ env.poolPop = true ∧ env.getDatabase = true ∧
      env.bucketNew = true ∧ env.openDownloadStream = .opened
  · unfold loopReads getImageById
    rw [if_pos hopen]
    obtain ⟨hsize, hcPool, hpoolPop, hdatabase, hbucket, hstream⟩ := hopen
    simp only [hsize, hcPool, hpoolPop, hdatabase, hbucket, hstream, ne_eq, not_true_eq_false,
      Bool.true_eq_false, reduceCtorEq, if_false]
    cases store (bson_oid_init_from_string id) with
    | none => exact .inr ⟨rfl, .kNotFound, by decide, rfl⟩
    | some file => exact .inl ⟨_, rfl, rfl⟩
  · refine .inr ⟨by rw [loopReads, if_neg hopen], ?_⟩
    unfold getImageById
    dsimp only
    split
    · exact ⟨_, by decide, rfl⟩
    next hsize =>
    split
    · exact ⟨_, by decide, rfl⟩
    next hcPool =>
    split
    · exact ⟨_, by decide, rfl⟩
    next hpoolPop =>
    split
    · exact ⟨_, by decide, rfl⟩
    next hdatabase =>
    split
    · exact ⟨_, by decide, rfl⟩
    next hbucket =>
    split
    · exact ⟨_, by decide, rfl⟩
    next hfound =>
    split
    · exact ⟨_, by decide, rfl⟩
    next hfailed =>
    refine absurd ⟨not_not.mp hsize, by simpa using hcPool, by simpa using hpoolPop,
      by simpa using hdatabase, by simpa using hbucket, ?_⟩ hopen
    cases hstream : env.openDownloadStream with
    | opened => rfl
    | fileNotFound => exact absurd hstream hfound
    | failed => exact absurd hstream hfailed

/-- **When read errors are reported**: where the first allocation fails; and where no read fails before the end of
the file, every allocation is given, and the content is shorter than `2^31` bytes. -/
theorem getImageById_reported_iff
    (hreads : ∀ content, ∀ result ∈ env.reads content, result.r ≤ MONGO_TRANSFER_CHUNK) :
    Reported ((loopReads bson_oid_init_from_string env store id size).bind delivered)
        (getImageById bson_oid_init_from_string env store id size) ↔
      ∀ results, loopReads bson_oid_init_from_string env store id size = some results →
        env.malloc 0 = false ∨ ReadsWhole env.malloc 0 0 results := by
  rcases getImageById_eq bson_oid_init_from_string env store id size with
    ⟨results, hreached, hcall⟩ | ⟨hreached, status, hstatus, hcall⟩
  · have hresults : ∀ result ∈ results, result.r ≤ 4096 := by
      unfold loopReads at hreached
      split at hreached
      · obtain ⟨file, -, rfl⟩ := Option.map_eq_some_iff.mp hreached
        exact hreads file.content
      · cases hreached
    rw [hcall, hreached, Option.bind_some, readLoop_start_reported_iff results hresults]
    simp
  · rw [hcall, hreached]
    refine iff_of_true ?_ fun results h => by cases h
    show if status = .kOk then _ else _
    rw [if_neg hstatus]
    exact fun h => by cases h

end GetImageById

/-- A stream whose connection drops after two bytes. -/
def dropped : DownloadResults where
  cPool := true
  poolPop := true
  getDatabase := true
  bucketNew := true
  openDownloadStream := .opened
  reads := fun content => [.bytes (content.take 2), .error]
  malloc := fun _ => true

/-- A file of four bytes. -/
def fourBytes : Store String Unit := fun _ => some ⟨"image.png", (), [1, 2, 3, 4]⟩

/-- The drop is not reported: the buffer is cut by one byte, and the copy gets the length `-1`. -/
theorem dropped_not_reported :
    getImageById (fun s => s) dropped fourBytes "507f1f77bcf86cd799439011" 24 = none ∧
      ¬ Reported ((loopReads (fun s => s) dropped fourBytes "507f1f77bcf86cd799439011" 24).bind delivered)
        (getImageById (fun s => s) dropped fourBytes "507f1f77bcf86cd799439011" 24) :=
  ⟨rfl, id⟩

/-- The same file, read without a failure. -/
theorem willingDriver_reported :
    Reported ((loopReads (fun s => s) willingDriver fourBytes "507f1f77bcf86cd799439011" 24).bind
        delivered) (getImageById (fun s => s) willingDriver fourBytes "507f1f77bcf86cd799439011" 24) ↔
      ∀ results, loopReads (fun s => s) willingDriver fourBytes "507f1f77bcf86cd799439011" 24 =
          some results →
        willingDriver.malloc 0 = false ∨ ReadsWhole willingDriver.malloc 0 0 results := by
  refine getImageById_reported_iff (fun s => s) willingDriver fourBytes "507f1f77bcf86cd799439011" 24
    fun content result hresult => ?_
  rcases List.mem_append.mp hresult with hpiece | hend
  · obtain ⟨piece, hmem, rfl⟩ := List.mem_map.mp hpiece
    exact Int.ofNat_le.mpr ((piecesFrom_spec 0 (Nat.le_refl _)).2 piece hmem).2
  · rw [List.mem_singleton.mp hend]
    decide

end LimbWorker.MediaRepository
