import LimbWorker.Lib.Lifetimes
import LimbWorker.Lib.Monitor
import LimbWorker.MediaRepository.ReadErrors

/-!
# The objects of the driver

`ping`, `getImageById` and `updateImageById` once more, now with what they do to the objects of the driver: each is a
`do`-loop that is left by `break`, at its end or in one of many places before, and then gives back whatever it holds, in
an order of its own. `getImageByIdCalls_status` and `updateImageByIdCalls_status` tie these versions to those that say
what a call returns.

An object is to be given back before the one that it was made from. `ping` and `updateImageById` keep to that; `getImageById`
gives the client back to the pool first.
-/

namespace LimbWorker.MediaRepository

open Lib

/-- What a call holds; `gridfsStream` is the stream of `mongoc_stream_gridfs_new`. -/
inductive DriverObject where
  | client
  | database
  | bucket
  | gridfs
  | file
  | gridfsStream
  | stream
  deriving DecidableEq, Repr

/-- What an object was made from. -/
def DriverObject.line : DriverObject → List DriverObject
  | .client => []
  | .database | .gridfs => [.client]
  | .bucket => [.database, .client]
  | .file => [.gridfs, .client]
  | .gridfsStream => [.file, .gridfs, .client]
  | .stream => [.bucket, .database, .client]

/-- How the body of a call can be left before its end. -/
inductive Leave where
  | withStatus (ret : ReturnStatus)
  | undefinedBehaviour
  deriving DecidableEq, Repr

abbrev Body := Traced (Life DriverObject) Leave

/-- `ret = …; break;` where something failed. -/
def check (ok : Bool) (ret : ReturnStatus) : Body Unit :=
  if ok then pure () else .fault (.withStatus ret)

/-- A call that returns an object, or null. -/
def acquire (o : DriverObject) (given : Bool) (ret : ReturnStatus) : Body Unit :=
  if given then .emit (.create o) else .fault (.withStatus ret)

/-- Some calls with an object. -/
def useTimes (o : DriverObject) : Nat → Body Unit
  | 0 => pure ()
  | n + 1 => do
      .emit (.use o)
      useTimes o n

/-- What follows the loop: every pointer that is not null is given back, in the order of the text. -/
def giveBack (order : List DriverObject) (body : Body ReturnStatus) :
    Option (ReturnStatus × List (Life DriverObject)) :=
  let calls := body.events ++
    (order.filter fun o => Life.create o ∈ body.events).map .destroy
  match body.result with
  | .ok ret | .error (.withStatus ret) => some (ret, calls)
  | .error .undefinedBehaviour => none

/-! ## The two functions -/

/-- The read loop. -/
def readBody (malloc : Nat → Bool) (i : Nat) (outBuf : Option Bytes) (bufSize : Int) :
    List ReadResult → Body ReturnStatus
  | [] => do
      .emit (.use .stream)
      return .kOk
  | result :: rest => do
      .emit (.use .stream)
      if result.r = 0 then return .kOk
      else if malloc i = false then return .kOutOfMemory
      else match memcpy (allocate outBuf bufSize result.r) bufSize result.buf result.r with
        | none => .fault .undefinedBehaviour
        | some buffer => readBody malloc (i + 1) (some buffer) (toInt (bufSize + result.r)) rest

/-- The loop over whole chunks and the rest. -/
def writeBody (filedata : Bytes) : Body Unit :=
  let filesize : Int := filedata.length
  let totalChunks := toInt (filesize / MONGO_TRANSFER_CHUNK)
  let product := MONGO_TRANSFER_CHUNK * totalChunks
  if FitsInt product then do
    useTimes .stream totalChunks.toNat
    if 0 < toInt (filesize - product) then .emit (.use .stream)
  else .fault .undefinedBehaviour

/-- `MongoClient::ping`: whether the pool has a client, and whether the server answers. -/
def pingBody (poolPop commandSimple : Bool) : Body ReturnStatus := do
  acquire .client poolPop .kUninitialized
  .emit (.use .client)
  check commandSimple .kAborted
  return .kOk

def pingCalls (poolPop commandSimple : Bool) : Option (ReturnStatus × List (Life DriverObject)) :=
  giveBack [.client] (pingBody poolPop commandSimple)

section Functions

variable {Oid Metadata : Type} (bson_oid_init_from_string : String → Oid)

/-- The loop of `getImageById`. -/
def downloadBody (env : DownloadResults) (store : Store Oid Metadata) (id : String) : Body ReturnStatus := do
  check env.cPool .kUninitialized
  acquire .client env.poolPop .kUninitialized
  acquire .database env.getDatabase .kAborted
  acquire .bucket env.bucketNew .kAborted
  check (env.openDownloadStream ≠ .fileNotFound) .kNotFound
  check (env.openDownloadStream ≠ .failed) .kUnknown
  match store (bson_oid_init_from_string id) with
  | none => .fault (.withStatus .kNotFound)
  | some file =>
      acquire .stream true .kUnknown
      readBody env.malloc 0 none 0 (env.reads file.content)

/-- `MongoClient::getImageById`, with what it does to the objects of the driver. -/
def getImageByIdCalls (env : DownloadResults) (store : Store Oid Metadata) (id : String) (size : Nat) :
    Option (ReturnStatus × List (Life DriverObject)) :=
  if size ≠ 24 then some (.kInvalidInput, [])
  else giveBack [.client, .database, .bucket, .stream]
    (downloadBody bson_oid_init_from_string env store id)

/-- The loop of `updateImageById`. -/
def updateBody (env : DriverResults) (store : Store Oid Metadata) (id : String) (filedata : Bytes) :
    Body ReturnStatus := do
  check env.cPool .kUninitialized
  acquire .client env.poolPop .kUninitialized
  acquire .database env.getDatabase .kAborted
  acquire .bucket env.bucketNew .kAborted
  acquire .gridfs env.getGridfs .kAborted
  check (env.findOne ≠ .fileNotFound) .kNotFound
  acquire .file (foundFile bson_oid_init_from_string env store id).isSome .kUnknown
  -- the name, the metadata, the removal
  useTimes .file 3
  check env.fileRemove .kUnknown
  -- nobody keeps the result
  .emit (.create .gridfsStream)
  acquire .stream env.openUploadStream .kUnknown
  writeBody filedata
  return .kOk

/-- `MongoClient::updateImageById`, with what it does to the objects of the driver. -/
def updateImageByIdCalls (env : DriverResults) (store : Store Oid Metadata) (id : String) (size : Nat)
    (filedata : Bytes) : Option (ReturnStatus × List (Life DriverObject)) :=
  if size ≠ 24 then some (.kInvalidInput, [])
  else giveBack [.file, .gridfs, .stream, .bucket, .database, .client]
    (updateBody bson_oid_init_from_string env store id filedata)

end Functions

/-! ## Rules for the bodies -/

section Rules

variable {σ : Type} {step : σ → Life DriverObject → Option σ} {s s' : σ} {ret : ReturnStatus} {α β : Type}
  {Q : β → σ → Prop} {E : Leave → σ → Prop}

theorem check_bind {ok : Bool} {f : Unit → Body β} (hok : ok = true → Monitored step s (f ()) Q E)
    (hfail : ok = false → E (.withStatus ret) s) : Monitored step s (check ok ret >>= f) Q E := by
  cases ok with
  | true => exact hok rfl
  | false => exact Monitored.fault (hfail rfl)

theorem acquire_bind {o : DriverObject} {given : Bool} {f : Unit → Body β}
    (hstep : step s (.create o) = some s') (hok : given = true → Monitored step s' (f ()) Q E)
    (hfail : given = false → E (.withStatus ret) s) :
    Monitored step s (acquire o given ret >>= f) Q E := by
  cases given with
  | true =>
      refine Monitored.bind (Q := fun _ t => t = s') (Monitored.emit hstep rfl) fun _ t ht => ?_
      rw [ht]
      exact hok rfl
  | false => exact Monitored.fault (hfail rfl)

/-- Using an object that is there changes nothing. -/
theorem useTimes_rule {o : DriverObject} (hstep : step s (.use o) = some s) (n : Nat) :
    Monitored step s (useTimes o n) (fun _ t => t = s) E := by
  induction n with
  | zero => exact Monitored.pure rfl
  | succ n ih =>
      refine Monitored.bind (Q := fun _ t => t = s) (Monitored.emit hstep rfl) fun _ t ht => ?_
      rw [ht]
      exact ih

theorem readBody_rule (hstep : step s (.use .stream) = some s) (malloc : Nat → Bool) (i : Nat)
    (outBuf : Option Bytes) (bufSize : Int) (results : List ReadResult) :
    Monitored step s (readBody malloc i outBuf bufSize results) (fun _ t => t = s) fun _ t => t = s := by
  induction results generalizing i outBuf bufSize with
  | nil =>
      rw [readBody]
      refine Monitored.bind (Q := fun _ t => t = s) (Monitored.emit hstep rfl) fun _ t ht => ?_
      exact Monitored.pure ht
  | cons result rest ih =>
      rw [readBody]
      refine Monitored.bind (Q := fun _ t => t = s) (Monitored.emit hstep rfl) fun _ t ht => ?_
      split
      · exact Monitored.pure ht
      · split
        · exact Monitored.pure ht
        · split
          · exact Monitored.fault ht
          · rw [ht]
            exact ih (i + 1) _ _

theorem writeBody_rule (hstep : step s (.use .stream) = some s) (filedata : Bytes) :
    Monitored step s (writeBody filedata) (fun _ t => t = s) fun _ t => t = s := by
  unfold writeBody
  dsimp only
  split
  · refine Monitored.bind (useTimes_rule hstep _) fun _ t ht => ?_
    rw [ht]
    split
    · exact Monitored.emit hstep rfl
    · exact Monitored.pure rfl
  · exact Monitored.fault rfl

end Rules

/-! ## What a call holds when it leaves its loop -/

/-- The first `k` objects, the newest first. -/
def held (path : List DriverObject) (k : Nat) : List DriverObject := (path.take k).reverse

/-- The objects of `getImageById`, in the order in which it gets them. -/
def downloadPath : List DriverObject := [.client, .database, .bucket, .stream]

/-- The objects of `updateImageById`. -/
def updatePath : List DriverObject :=
  [.client, .database, .bucket, .gridfs, .file, .gridfsStream, .stream]

section Bodies

variable {Oid Metadata : Type} (bson_oid_init_from_string : String → Oid)

theorem downloadBody_held (env : DownloadResults) (store : Store Oid Metadata) (id : String) :
    Monitored (Life.building DriverObject.line) [] (downloadBody bson_oid_init_from_string env store id)
      (fun _ live => ∃ k ≤ downloadPath.length, live = held downloadPath k ∧ True)
      fun _ live => ∃ k ≤ downloadPath.length, live = held downloadPath k ∧ True := by
  unfold downloadBody
  refine check_bind (fun _ => ?_) fun _ => ⟨0, by decide, rfl, trivial⟩
  refine acquire_bind rfl (fun _ => ?_) fun _ => ⟨0, by decide, rfl, trivial⟩
  refine acquire_bind rfl (fun _ => ?_) fun _ => ⟨1, by decide, rfl, trivial⟩
  refine acquire_bind rfl (fun _ => ?_) fun _ => ⟨2, by decide, rfl, trivial⟩
  refine check_bind (fun _ => ?_) fun _ => ⟨3, by decide, rfl, trivial⟩
  refine check_bind (fun _ => ?_) fun _ => ⟨3, by decide, rfl, trivial⟩
  cases store (bson_oid_init_from_string id) with
  | none => exact Monitored.fault ⟨3, by decide, rfl, trivial⟩
  | some file =>
      refine acquire_bind rfl (fun _ => ?_) fun _ => ⟨3, by decide, rfl, trivial⟩
      refine (readBody_rule rfl _ _ _ _ _).mono (fun _ live h => ?_) fun _ live h => ?_
      · exact ⟨4, by decide, h, trivial⟩
      · exact ⟨4, by decide, h, trivial⟩

theorem updateBody_held {env : DriverResults} {store : Store Oid Metadata} {id : String} (filedata : Bytes) :
    Monitored (Life.building DriverObject.line) [] (updateBody bson_oid_init_from_string env store id filedata)
      (fun _ live => ∃ k ≤ updatePath.length, live = held updatePath k ∧
        (Removes bson_oid_init_from_string env store id 24 ↔ 6 ≤ k))
      fun _ live => ∃ k ≤ updatePath.length, live = held updatePath k ∧
        (Removes bson_oid_init_from_string env store id 24 ↔ 6 ≤ k) := by
  unfold updateBody Removes
  -- every check that fails leaves what has been acquired before it
  refine check_bind (fun hcPool => ?_) fun hcPool => ⟨0, by decide, rfl, by simp [hcPool]⟩
  refine acquire_bind rfl (fun hclient => ?_) fun hclient => ⟨0, by decide, rfl, by simp [hclient]⟩
  refine acquire_bind rfl (fun hdatabase => ?_) fun hdatabase => ⟨1, by decide, rfl, by simp [hdatabase]⟩
  refine acquire_bind rfl (fun hbucket => ?_) fun hbucket => ⟨2, by decide, rfl, by simp [hbucket]⟩
  refine acquire_bind rfl (fun hgridfs => ?_) fun hgridfs => ⟨3, by decide, rfl, by simp [hgridfs]⟩
  refine check_bind (fun _ => ?_) fun hfind => ⟨4, by decide, rfl, ?_⟩
  swap
  · have hnone : foundFile bson_oid_init_from_string env store id = none := by
      have hnot : env.findOne = .fileNotFound := by simpa using hfind
      simp [foundFile, hnot]
    simp [hnone]
  refine acquire_bind rfl (fun hfile => ?_) fun hfile => ⟨4, by decide, rfl, by simp [hfile]⟩
  refine Monitored.bind (useTimes_rule rfl 3) fun _ live hlive => ?_
  rw [hlive]
  -- from the removal on the object returned stays, whatever comes
  refine check_bind (fun hremove => ?_) fun hremove => ⟨5, by decide, rfl, by simp [hremove]⟩
  refine Monitored.bind (Q := fun _ live => live = held updatePath 6) (Monitored.emit rfl rfl)
    fun _ live hlive => ?_
  rw [hlive]
  have hremoves : 24 = 24 ∧ env.cPool = true ∧ env.poolPop = true ∧ env.getDatabase = true ∧
      env.bucketNew = true ∧ env.getGridfs = true ∧
      (foundFile bson_oid_init_from_string env store id).isSome ∧ env.fileRemove = true :=
    ⟨rfl, hcPool, hclient, hdatabase, hbucket, hgridfs, hfile, hremove⟩
  refine acquire_bind rfl (fun _ => ?_) fun _ => ⟨6, by decide, rfl, iff_of_true hremoves (by decide)⟩
  refine Monitored.bind (writeBody_rule (s := held updatePath 7) rfl filedata |>.mono (fun _ _ h => h)
    fun _ live h => ?_) fun _ live h => ?_
  · exact ⟨7, by decide, h, iff_of_true hremoves (by decide)⟩
  · exact Monitored.pure ⟨7, by decide, h, iff_of_true hremoves (by decide)⟩

end Bodies

/-! ## The same results -/

section SameStatus

variable {Oid Metadata : Type} [DecidableEq Oid] (bson_oid_init_from_string : String → Oid)

/-- How a body ended, as a status. -/
def Leave.status : Except Leave ReturnStatus → Option ReturnStatus
  | .ok ret | .error (.withStatus ret) => some ret
  | .error .undefinedBehaviour => none

theorem giveBack_status (order : List DriverObject) (body : Body ReturnStatus) :
    (giveBack order body).map Prod.fst = Leave.status body.result := by
  unfold giveBack Leave.status
  cases body.result with
  | ok ret => rfl
  | error e => cases e <;> rfl

theorem status_check_bind {ok : Bool} {ret : ReturnStatus} {f : Unit → Body ReturnStatus} :
    Leave.status (check ok ret >>= f).result = if ok = false then some ret else Leave.status (f ()).result := by
  cases ok <;> rfl

theorem status_acquire_bind {o : DriverObject} {given : Bool} {ret : ReturnStatus}
    {f : Unit → Body ReturnStatus} :
    Leave.status (acquire o given ret >>= f).result =
      if given = false then some ret else Leave.status (f ()).result := by
  cases given <;> rfl

theorem status_useTimes_bind {o : DriverObject} {n : Nat} {f : Unit → Body ReturnStatus} :
    Leave.status (useTimes o n >>= f).result = Leave.status (f ()).result := by
  have hresult : (useTimes o n).result = .ok () := by
    induction n with
    | zero => rfl
    | succ n ih => rw [useTimes, Traced.emit_bind, ih]
  rw [Traced.bind_of_ok _ hresult]

theorem status_readBody (malloc : Nat → Bool) (i : Nat) (outBuf : Option Bytes) (bufSize : Int)
    (results : List ReadResult) :
    Leave.status (readBody malloc i outBuf bufSize results).result =
      (readLoop malloc i outBuf bufSize results).map Download.status := by
  induction results generalizing i outBuf bufSize with
  | nil => rfl
  | cons result rest ih =>
      rw [readBody, readLoop, Traced.emit_bind]
      dsimp only
      by_cases hr : result.r = 0
      · rw [if_pos hr, if_pos hr]
        rfl
      · rw [if_neg hr, if_neg hr]
        by_cases hmalloc : malloc i = false
        · rw [if_pos hmalloc, if_pos hmalloc]
          rfl
        · rw [if_neg hmalloc, if_neg hmalloc]
          cases memcpy (allocate outBuf bufSize result.r) bufSize result.buf result.r with
          | none => rfl
          | some buffer => exact ih _ _ _

theorem status_writeBody_bind (write : Nat → Int) (filedata : Bytes) :
    Leave.status (writeBody filedata >>= fun _ => (pure .kOk : Body ReturnStatus)).result =
      (upload write filedata).map fun _ => .kOk := by
  unfold writeBody upload
  dsimp only
  by_cases hfits : FitsInt (MONGO_TRANSFER_CHUNK * toInt ((filedata.length : Int) / MONGO_TRANSFER_CHUNK))
  · rw [if_pos hfits, if_pos hfits]
    have hresult : ∀ n, (useTimes .stream n).result = .ok () := by
      intro n
      induction n with
      | zero => rfl
      | succ n ih => rw [useTimes, Traced.emit_bind, ih]
    by_cases hrest : 0 < toInt (filedata.length - MONGO_TRANSFER_CHUNK *
        toInt ((filedata.length : Int) / MONGO_TRANSFER_CHUNK))
    · rw [if_pos hrest, if_pos hrest, Traced.bind_of_ok _ (hresult _)]
      rfl
    · rw [if_neg hrest, if_neg hrest, Traced.bind_of_ok _ (hresult _)]
      rfl
  · rw [if_neg hfits, if_neg hfits]
    rfl

/-- From the stream that nobody keeps on, whatever is written. -/
theorem status_upload (openUploadStream : Bool) (writes : Body Unit) :
    Leave.status (do
        .emit (.create .gridfsStream)
        acquire .stream openUploadStream .kUnknown
        writes
        return .kOk : Body ReturnStatus).result =
      if openUploadStream = false then some .kUnknown
      else Leave.status (writes >>= fun _ => (pure .kOk : Body ReturnStatus)).result := by
  cases openUploadStream <;> rfl

omit [DecidableEq Oid] in
/-- **The same status**: `getImageById` with its objects and without. -/
theorem getImageByIdCalls_status (env : DownloadResults) (store : Store Oid Metadata) (id : String)
    (size : Nat) :
    (getImageByIdCalls bson_oid_init_from_string env store id size).map Prod.fst =
      (getImageById bson_oid_init_from_string env store id size).map Download.status := by
  unfold getImageByIdCalls getImageById downloadBody
  by_cases hsize : size ≠ 24
  · rw [if_pos hsize, if_pos hsize]
    rfl
  rw [if_neg hsize, if_neg hsize, giveBack_status]
  simp only [status_check_bind, status_acquire_bind, decide_eq_false_iff_not, ne_eq, not_not,
    apply_ite (Option.map Download.status), Option.map_some]
  cases store (bson_oid_init_from_string id) with
  | none => rfl
  | some file =>
      simp only [status_acquire_bind, status_readBody, Bool.true_eq_false, if_false]

/-- **The same status**: `updateImageById` with its objects and without. -/
theorem updateImageByIdCalls_status (env : DriverResults) (store : Store Oid Metadata) (id : String)
    (size : Nat) (filedata : Bytes) :
    (updateImageByIdCalls bson_oid_init_from_string env store id size filedata).map Prod.fst =
      (updateImageById bson_oid_init_from_string env store id size filedata).map Prod.fst := by
  unfold updateImageByIdCalls updateImageById updateBody
  by_cases hsize : size ≠ 24
  · rw [if_pos hsize, if_pos hsize]
    rfl
  rw [if_neg hsize, if_neg hsize, giveBack_status]
  simp only [status_check_bind, status_acquire_bind, status_useTimes_bind, status_upload,
    status_writeBody_bind env.write, decide_eq_false_iff_not, ne_eq, not_not, apply_ite (Option.map Prod.fst), Option.map_some]
  cases foundFile bson_oid_init_from_string env store id with
  | none => simp only [Option.isSome_none, if_true, Option.map_some]
  | some file =>
      simp only [Option.isSome_some, Bool.true_eq_false, if_false, apply_ite (Option.map Prod.fst),
        Option.map_some, Option.map_map, Function.comp_def]

end SameStatus

/-! ## Giving back -/

/-- Giving back what a call holds after `k` of its objects. -/
def givenBack (order path : List DriverObject) (k : Nat) : List (Life DriverObject) :=
  (order.filter (· ∈ held path k)).map .destroy

theorem calls_of_held {order path : List DriverObject} {body : Body ReturnStatus} {P : Nat → Prop}
    {ret : ReturnStatus} {calls : List (Life DriverObject)}
    (hbody : Monitored (Life.building DriverObject.line) [] body
      (fun _ live => ∃ k ≤ path.length, live = held path k ∧ P k)
      fun _ live => ∃ k ≤ path.length, live = held path k ∧ P k)
    (h : giveBack order body = some (ret, calls)) :
    ∃ k ≤ path.length, P k ∧ calls = body.events ++ givenBack order path k ∧
      run (Life.step DriverObject.line) [] body.events = some (held path k) ∧
      (∀ o, o ∈ held path k ↔ .create o ∈ body.events) ∧ ∀ o, .destroy o ∉ body.events := by
  obtain ⟨live, hrun, hok, herror⟩ := hbody
  obtain ⟨hlive, hmem, hnone⟩ := Life.run_building hrun
  have hcalls : calls = body.events ++ (order.filter fun o => Life.create o ∈ body.events).map .destroy := by
    unfold giveBack at h
    split at h <;> cases h <;> rfl
  obtain ⟨k, hk, hheld, hP⟩ : ∃ k ≤ path.length, live = held path k ∧ P k := by
    cases hresult : body.result with
    | ok ret => exact hok ret hresult
    | error e => exact herror e hresult
  subst hheld
  have hcreated : ∀ o, o ∈ held path k ↔ .create o ∈ body.events := fun o => by simpa using hmem o
  refine ⟨k, hk, hP, ?_, hlive, hcreated, hnone⟩
  rw [hcalls, givenBack]
  simp only [hcreated]

/-- The calls of `updateImageById`, when `k` objects are held at the end of its loop. -/
theorem run_givenBack_update (k : Nat) (hk : k ≤ updatePath.length) :
    run (Life.step DriverObject.line) (held updatePath k)
        (givenBack [.file, .gridfs, .stream, .bucket, .database, .client] updatePath k) =
      some (if 6 ≤ k then [.gridfsStream] else []) := by
  have hall : ∀ k : Fin 8, run (Life.step DriverObject.line) (held updatePath k)
      (givenBack [.file, .gridfs, .stream, .bucket, .database, .client] updatePath k) =
        some (if 6 ≤ k.val then [.gridfsStream] else []) := by
    decide
  exact hall ⟨k, Nat.lt_succ_of_le hk⟩

/-- The calls of `getImageById`: as soon as there is a database, it is destroyed too late. -/
theorem run_givenBack_download (k : Nat) (hk : k ≤ downloadPath.length) :
    run (Life.step DriverObject.line) (held downloadPath k)
        (givenBack [.client, .database, .bucket, .stream] downloadPath k) =
      if .database ∈ held downloadPath k then none else some [] := by
  have hall : ∀ k : Fin 5, run (Life.step DriverObject.line) (held downloadPath k)
      (givenBack [.client, .database, .bucket, .stream] downloadPath k) =
        if .database ∈ held downloadPath k then none else some [] := by
    decide
  exact hall ⟨k, Nat.lt_succ_of_le hk⟩

/-- With a database, the client goes first, and then the database that needs it. -/
theorem givenBack_of_database (k : Nat) (hk : k ≤ downloadPath.length) (h : .database ∈ held downloadPath k) :
    ∃ post : List (Life DriverObject),
      givenBack [.client, .database, .bucket, .stream] downloadPath k =
        .destroy .client :: .destroy .database :: post ∧
      Life.step DriverObject.line (held downloadPath k) (.destroy .client) =
        some ((held downloadPath k).erase .client) ∧
      .client ∉ (held downloadPath k).erase .client := by
  rcases k with _ | _ | _ | _ | _ | k
  · exact absurd h (by decide)
  · exact absurd h (by decide)
  · exact ⟨_, rfl, rfl, by decide⟩
  · exact ⟨_, rfl, rfl, by decide⟩
  · exact ⟨_, rfl, rfl, by decide⟩
  · exact absurd hk (by simp [downloadPath])

/-- Every pointer that is not null is in the list of what is given back. -/
theorem count_givenBack_download (k : Nat) (hk : k ≤ downloadPath.length) (o : DriverObject) :
    (givenBack [.client, .database, .bucket, .stream] downloadPath k).count (.destroy o) =
      if o ∈ held downloadPath k then 1 else 0 := by
  have hall : ∀ k : Fin 5, (givenBack [.client, .database, .bucket, .stream] downloadPath k).count
      (.destroy o) = if o ∈ held downloadPath k then 1 else 0 := by
    cases o <;> decide
  exact hall ⟨k, Nat.lt_succ_of_le hk⟩

theorem create_not_mem_givenBack (order path : List DriverObject) (k : Nat) (o : DriverObject) :
    .create o ∉ givenBack order path k := by
  intro h
  obtain ⟨o', -, heq⟩ := List.mem_map.mp h
  cases heq

section GivesBack

variable {Oid Metadata : Type} (bson_oid_init_from_string : String → Oid)

instance (env : DriverResults) (store : Store Oid Metadata) (id : String) (size : Nat) :
    Decidable (Removes bson_oid_init_from_string env store id size) :=
  inferInstanceAs (Decidable (_ ∧ _))

/-- What is known of the objects in a call of `updateImageById`. -/
theorem updateImageByIdCalls_run {env : DriverResults} {store : Store Oid Metadata} {id : String} {size : Nat}
    {filedata : Bytes} {ret : ReturnStatus} {calls : List (Life DriverObject)}
    (h : updateImageByIdCalls bson_oid_init_from_string env store id size filedata = some (ret, calls)) :
    run (Life.step DriverObject.line) [] calls =
      some (if Removes bson_oid_init_from_string env store id size then [.gridfsStream] else []) := by
  unfold updateImageByIdCalls at h
  by_cases hsize : size ≠ 24
  · rw [if_pos hsize] at h
    cases h
    rw [if_neg fun hremoves => hsize hremoves.1]
    rfl
  · rw [if_neg hsize] at h
    have hsize : size = 24 := not_not.mp hsize
    subst hsize
    obtain ⟨k, hk, hremoves, rfl, hrun, -, -⟩ :=
      calls_of_held (P := fun k => Removes bson_oid_init_from_string env store id 24 ↔ 6 ≤ k)
        (updateBody_held bson_oid_init_from_string filedata) h
    rw [run_trans hrun (run_givenBack_update k hk)]
    simp only [hremoves]

/-- What is known of the objects in a call of `getImageById`. -/
theorem getImageByIdCalls_run {env : DownloadResults} {store : Store Oid Metadata} {id : String} {size : Nat}
    {ret : ReturnStatus} {calls : List (Life DriverObject)}
    (h : getImageByIdCalls bson_oid_init_from_string env store id size = some (ret, calls)) :
    run (Life.step DriverObject.line) [] calls =
        (if .create .database ∈ calls then none else some []) ∧
      ∀ o, calls.count (.destroy o) = calls.count (.create o) ∧ calls.count (.create o) ≤ 1 := by
  unfold getImageByIdCalls at h
  by_cases hsize : size ≠ 24
  · rw [if_pos hsize] at h
    cases h
    exact ⟨rfl, fun o => ⟨rfl, Nat.zero_le 1⟩⟩
  · rw [if_neg hsize] at h
    obtain ⟨k, hk, -, rfl, hrun, hcreated, hnone⟩ :=
      calls_of_held (P := fun _ => True) (downloadBody_held bson_oid_init_from_string env store id) h
    have hmem : ∀ o, .create o ∈ (downloadBody bson_oid_init_from_string env store id).events ++
        givenBack [.client, .database, .bucket, .stream] downloadPath k ↔ o ∈ held downloadPath k := by
      intro o
      rw [List.mem_append, hcreated o]
      simp [create_not_mem_givenBack]
    refine ⟨?_, fun o => ?_⟩
    · rw [run_append, hrun, Option.bind_some, run_givenBack_download k hk]
      simp only [hmem]
    · -- what the body creates and does not destroy is held at its end, and given back after it
      have hbalance := Life.count_create_eq List.nodup_nil hrun o
      rw [List.count_append, List.count_append, count_givenBack_download k hk,
        List.count_eq_zero.mpr (hnone o), List.count_eq_zero.mpr (create_not_mem_givenBack _ _ k o)]
      rw [List.count_eq_zero.mpr (hnone o)] at hbalance
      simp only [List.not_mem_nil, if_false] at hbalance
      refine ⟨by omega, ?_⟩
      split at hbalance <;> omega

/-- Where a download goes wrong, if it does: at its database, with the client given back. -/
theorem getImageByIdCalls_split {env : DownloadResults} {store : Store Oid Metadata} {id : String} {size : Nat}
    {ret : ReturnStatus} {calls : List (Life DriverObject)}
    (h : getImageByIdCalls bson_oid_init_from_string env store id size = some (ret, calls)) :
    run (Life.step DriverObject.line) [] calls = some [] ∨
      ∃ pre post live, calls = pre ++ .destroy .database :: post ∧
        run (Life.step DriverObject.line) [] pre = some live ∧ pre.getLast? = some (.destroy .client) ∧
        .client ∉ live := by
  unfold getImageByIdCalls at h
  by_cases hsize : size ≠ 24
  · rw [if_pos hsize] at h
    cases h
    exact .inl rfl
  · rw [if_neg hsize] at h
    obtain ⟨k, hk, -, rfl, hrun, -, -⟩ :=
      calls_of_held (P := fun _ => True) (downloadBody_held bson_oid_init_from_string env store id) h
    by_cases hdatabase : .database ∈ held downloadPath k
    · obtain ⟨post, hback, hstep, hclient⟩ := givenBack_of_database k hk hdatabase
      refine .inr ⟨(downloadBody bson_oid_init_from_string env store id).events ++ [.destroy .client],
        post, _, ?_, run_trans hrun (run_cons_of hstep), by simp, hclient⟩
      rw [hback, List.append_assoc]
      rfl
    · have hback := run_givenBack_download k hk
      rw [if_neg hdatabase] at hback
      exact .inl (run_trans hrun hback)

/-- What is known of the client in a call of `ping`. -/
theorem pingCalls_run {poolPop commandSimple : Bool} {ret : ReturnStatus} {calls : List (Life DriverObject)}
    (h : pingCalls poolPop commandSimple = some (ret, calls)) :
    run (Life.step DriverObject.line) [] calls = some [] := by
  cases poolPop <;> cases commandSimple <;> cases h <;> rfl

/-- **What the repository takes from the driver it gives back**, whatever the driver answers, in every call that
returns. A ping and an update use and give back every object while those that it was made from are still there; a ping
leaves nothing behind, and an update one stream from the moment that the old file is removed. A download gives
everything back once, but as soon as it has a database, not in order: the client is back in the pool first. -/
theorem objects_given_back (poolPop commandSimple : Bool) (update : DriverResults) (download : DownloadResults)
    (store : Store Oid Metadata) (id : String) (size : Nat) (filedata : Bytes) :
    (∀ call ∈ pingCalls poolPop commandSimple, run (Life.step DriverObject.line) [] call.2 = some []) ∧
      (∀ call ∈ updateImageByIdCalls bson_oid_init_from_string update store id size filedata,
        run (Life.step DriverObject.line) [] call.2 = some
          (if Removes bson_oid_init_from_string update store id size then [.gridfsStream] else [])) ∧
      ∀ call ∈ getImageByIdCalls bson_oid_init_from_string download store id size,
        run (Life.step DriverObject.line) [] call.2 =
            (if .create .database ∈ call.2 then none else some []) ∧
          ∀ o, call.2.count (.destroy o) = call.2.count (.create o) ∧ call.2.count (.create o) ≤ 1 :=
  ⟨fun _ h => pingCalls_run h, fun _ h => updateImageByIdCalls_run bson_oid_init_from_string h,
    fun _ h => getImageByIdCalls_run bson_oid_init_from_string h⟩

end GivesBack

end LimbWorker.MediaRepository
