import LimbWorker.AppTransport.AmqpHandler
import LimbWorker.Lib.Framing

/-!
# The incoming byte stream of `AmqpHandler`

An iteration of `loop` receives a chunk into `tmpBuff`, appends it to `inputBuffer`, and lets the
connection parse the buffer; what `parse` has consumed is removed from the front. What `write` returns is
not looked at, so a chunk that did not fit would be cut without notice.

It always fits: after an iteration the buffer holds no complete frame, hence less than the longest frame,
and that leaves room for a whole `tmpBuff`.
-/

namespace LimbWorker.AppTransport

open Lib

/-- `AmqpHandler::TEMP_BUFFER_SIZE`, 1 MiB. -/
def TEMP_BUFFER_SIZE : Nat := 1024 * 1024

/-- What `poll_read` and `recv1` answer in one iteration. -/
inductive Received where
  | pollError
  | recvError
  | chunk (bytes : Bytes)
  deriving DecidableEq, Repr

/-- `connection->parse`: the frames that it handles, and the number of bytes it returns. -/
abbrev Parse := Bytes → List Bytes × Nat

/-- The incoming half of `AmqpHandlerImpl`, with three history variables: what the socket has delivered,
what was removed from the buffer, and the frames that `parse` has handled. -/
structure Incoming where
  inputBuffer : Buffer
  received : Bytes
  consumed : Bytes
  presented : List Bytes

namespace Incoming

/-- `AmqpHandlerImpl` as constructed. -/
def init : Incoming := ⟨Buffer.new BUFFER_SIZE, [], [], []⟩

/-- The connection parses the buffer, if there is a connection and anything to parse. -/
def parseInput (s : Incoming) (connection : Option Parse) : Incoming :=
  match connection with
  | none => s
  | some parse =>
      if s.inputBuffer.available ≠ 0 then
        let (frames, count) := parse s.inputBuffer.data
        let inputBuffer :=
          if count = s.inputBuffer.available then s.inputBuffer.drain
          else if count > 0 then s.inputBuffer.shl count
          else s.inputBuffer
        { s with
          inputBuffer := inputBuffer
          consumed := s.consumed ++ s.inputBuffer.data.take count
          presented := s.presented ++ frames }
      else s

/-- One iteration of `loop`, without the flush at its end; `none` when it leaves the loop. -/
def iteration (connection : Option Parse) (s : Incoming) : Received → Option Incoming
  | .pollError => none
  | .recvError => none
  | .chunk bytes =>
      if bytes.length > TEMP_BUFFER_SIZE ∨ bytes.length = 0 then none
      else
        let s := { s with
          inputBuffer := (s.inputBuffer.write bytes).1
          received := s.received ++ bytes }
        some (s.parseInput connection)

end Incoming

/-- A `parse` that consumes exactly the complete frames at the front and returns their total length. -/
def parseOf {bound : Nat} (framing : Framing UInt8 bound) : Parse := fun buffer =>
  (framing.frames buffer, (framing.frames buffer).flatten.length)

/-- The stream is reassembled: nothing of it is lost, its complete frames were handled whole and in
order, and the next chunk will fit. -/
structure Reassembled {bound : Nat} (framing : Framing UInt8 bound) (stream : Bytes)
    (s : Incoming) : Prop where
  contents : s.consumed ++ s.inputBuffer.data = stream
  consumed : s.consumed = s.presented.flatten
  frames : s.presented = framing.frames stream
  whole : ∀ frame ∈ s.presented, framing.IsFrame frame
  room : ∀ chunk : Bytes, chunk.length ≤ TEMP_BUFFER_SIZE →
    (s.inputBuffer.write chunk).2 = chunk.length

namespace Incoming

variable {bound : Nat} {framing : Framing UInt8 bound} {s s' : Incoming}

/-- The invariant: the buffer holds what follows the complete frames of what was received. -/
structure Inv (framing : Framing UInt8 bound) (s : Incoming) : Prop where
  size : s.inputBuffer.size = BUFFER_SIZE
  held : s.inputBuffer.data = framing.rest s.received
  presented : s.presented = framing.frames s.received
  consumed : s.consumed = s.presented.flatten

theorem inv_init (framing : Framing UInt8 bound) : Inv framing init where
  size := rfl
  held := framing.rest_nil.symm
  presented := framing.frames_nil.symm
  consumed := rfl

/-- A chunk of `tmpBuff` fits behind what is left of a frame. -/
theorem Inv.fits (h : Inv framing s) (hbound : bound ≤ BUFFER_SIZE - TEMP_BUFFER_SIZE) {bytes : Bytes}
    (hbytes : bytes.length ≤ TEMP_BUFFER_SIZE) :
    s.inputBuffer.available + bytes.length ≤ s.inputBuffer.size := by
  have hrest := framing.length_rest_lt s.received
  rw [h.size, Buffer.available, h.held]
  unfold BUFFER_SIZE TEMP_BUFFER_SIZE at *
  omega

/-- What parsing leaves in the buffer, whether it is drained, shifted or left alone. -/
theorem data_parseInput (s : Incoming) (framing : Framing UInt8 bound) :
    (s.parseInput (some (parseOf framing))).inputBuffer.data = framing.rest s.inputBuffer.data := by
  have hdrop := framing.drop_length_frames s.inputBuffer.data
  unfold parseInput parseOf
  dsimp only
  split
  · dsimp only
    split
    · next hall =>
      rw [← hdrop, hall, Buffer.available, List.drop_length, Buffer.data_drain]
    · split
      · rw [Buffer.data_shl, hdrop]
      · next hzero =>
        have hnone : (framing.frames s.inputBuffer.data).flatten.length = 0 := by omega
        rw [← hdrop, hnone, List.drop_zero]
  · next hempty =>
    have hnil : s.inputBuffer.data = [] := by simpa using hempty
    rw [hnil, framing.rest_nil]

/-- What parsing hands on, and what it says it has consumed. -/
theorem history_parseInput (s : Incoming) (framing : Framing UInt8 bound) :
    (s.parseInput (some (parseOf framing))).presented =
        s.presented ++ framing.frames s.inputBuffer.data ∧
      (s.parseInput (some (parseOf framing))).consumed =
        s.consumed ++ (framing.frames s.inputBuffer.data).flatten := by
  unfold parseInput parseOf
  dsimp only
  split
  · exact ⟨rfl, by rw [framing.take_length_frames]⟩
  · next hempty =>
    have hnil : s.inputBuffer.data = [] := by simpa using hempty
    rw [hnil, framing.frames_nil]
    simp

theorem shared_parseInput (s : Incoming) (connection : Option Parse) :
    (s.parseInput connection).received = s.received ∧
      (s.parseInput connection).inputBuffer.size = s.inputBuffer.size := by
  unfold parseInput
  split
  · exact ⟨rfl, rfl⟩
  · split
    · refine ⟨rfl, ?_⟩
      dsimp only
      split
      · rfl
      · split <;> rfl
    · exact ⟨rfl, rfl⟩

/-- **The step lemma**: an iteration keeps the invariant and adds its chunk to the stream. -/
theorem inv_iteration (h : Inv framing s) (hbound : bound ≤ BUFFER_SIZE - TEMP_BUFFER_SIZE)
    {bytes : Bytes} (hpos : 1 ≤ bytes.length) (hbytes : bytes.length ≤ TEMP_BUFFER_SIZE) :
    ∃ s', iteration (some (parseOf framing)) s (.chunk bytes) = some s' ∧ Inv framing s' ∧
      s'.received = s.received ++ bytes := by
  obtain ⟨hdata, -⟩ := Buffer.write_of_fits (h.fits hbound hbytes)
  let t : Incoming := { s with
    inputBuffer := (s.inputBuffer.write bytes).1
    received := s.received ++ bytes }
  -- the buffer holds the incomplete frame and what has just arrived
  have ht : t.inputBuffer.data = framing.rest s.received ++ bytes := hdata.trans (by rw [h.held])
  obtain ⟨hpresented, hconsumed⟩ := history_parseInput t framing
  obtain ⟨hreceived, hsize⟩ := shared_parseInput t (some (parseOf framing))
  refine ⟨t.parseInput (some (parseOf framing)), ?_, ?_, hreceived⟩
  · unfold iteration
    dsimp only
    rw [if_neg (by omega)]
  · constructor
    · rw [hsize]
      exact h.size
    · rw [hreceived, data_parseInput, ht]
      exact (framing.rest_append s.received bytes).symm
    · rw [hreceived, hpresented, ht]
      show s.presented ++ _ = framing.frames (s.received ++ bytes)
      rw [h.presented, framing.frames_append s.received bytes]
    · rw [hconsumed, hpresented, List.flatten_append]
      show s.consumed ++ _ = s.presented.flatten ++ _
      rw [h.consumed]

/-- **The run lemma**: every way to cut a stream is received to its end. -/
theorem run_iteration (h : Inv framing s) (hbound : bound ≤ BUFFER_SIZE - TEMP_BUFFER_SIZE)
    (chunks : List Bytes)
    (hchunks : ∀ chunk ∈ chunks, 1 ≤ chunk.length ∧ chunk.length ≤ TEMP_BUFFER_SIZE) :
    ∃ s', run (iteration (some (parseOf framing))) s (chunks.map .chunk) = some s' ∧
      Inv framing s' ∧ s'.received = s.received ++ chunks.flatten := by
  induction chunks generalizing s with
  | nil => exact ⟨s, rfl, h, by simp⟩
  | cons bytes chunks ih =>
      obtain ⟨hpos, hbytes⟩ := hchunks bytes List.mem_cons_self
      obtain ⟨s₁, hs₁, h₁, hreceived₁⟩ := inv_iteration h hbound hpos hbytes
      obtain ⟨s', hs', h', hreceived⟩ := ih h₁ fun chunk hchunk =>
        hchunks chunk (List.mem_cons_of_mem bytes hchunk)
      refine ⟨s', ?_, h', ?_⟩
      · rw [List.map_cons, run_cons, hs₁]
        exact hs'
      · rw [hreceived, hreceived₁, List.flatten_cons, List.append_assoc]

/-- The invariant says that the stream is reassembled. -/
theorem Inv.reassembled (h : Inv framing s) (hbound : bound ≤ BUFFER_SIZE - TEMP_BUFFER_SIZE) :
    Reassembled framing s.received s where
  contents := by
    rw [h.consumed, h.presented, h.held]
    exact framing.flatten_frames_append_rest s.received
  consumed := h.consumed
  frames := h.presented
  whole := h.presented ▸ framing.isFrame_of_mem_frames s.received
  room := fun _ hchunk => (Buffer.write_of_fits (h.fits hbound hchunk)).2

/-- **The incoming stream is reassembled** after every iteration: for every framing whose frames leave
room for a `tmpBuff`, every stream, and every way in which `recv1` cuts it. -/
theorem incoming_reassembled {bound : Nat} (framing : Framing UInt8 bound)
    (hbound : bound ≤ BUFFER_SIZE - TEMP_BUFFER_SIZE) (chunks : List Bytes)
    (hchunks : ∀ chunk ∈ chunks, 1 ≤ chunk.length ∧ chunk.length ≤ TEMP_BUFFER_SIZE) :
    ∃ s, run (iteration (some (parseOf framing))) init (chunks.map .chunk) = some s ∧
      Reassembled framing chunks.flatten s := by
  obtain ⟨s, hs, h, hreceived⟩ := run_iteration (inv_init framing) hbound chunks hchunks
  refine ⟨s, hs, ?_⟩
  have hstream : s.received = chunks.flatten := hreceived.trans (List.nil_append _)
  exact hstream ▸ h.reassembled hbound

/-- Frames of which the first byte says how many follow. -/
def byteCounted : Framing UInt8 256 where
  length
    | [] => none
    | count :: bytes => if count.toNat ≤ bytes.length then some (count.toNat + 1) else none
  pos_of_length := fun {l n} h => by
    cases l with
    | nil => cases h
    | cons count bytes =>
        dsimp only at h
        split at h <;> cases h
        exact Nat.succ_pos _
  le_of_length := fun {l n} h => by
    cases l with
    | nil => cases h
    | cons count bytes =>
        dsimp only at h
        split at h <;> cases h
        exact Nat.succ_le_succ ‹_›
  length_take := fun {l n} h => by
    cases l with
    | nil => cases h
    | cons count bytes =>
        dsimp only at h
        split at h <;> cases h
        simp [*]
  length_append := fun {l n} l' h => by
    cases l with
    | nil => cases h
    | cons count bytes =>
        dsimp only at h
        split at h <;> cases h
        have hle : count.toNat ≤ (bytes ++ l').length := by
          rw [List.length_append]
          omega
        simp only [List.cons_append]
        rw [if_pos hle]
  isSome_length := fun {l} h => by
    cases l with
    | nil => simp at h
    | cons count bytes =>
        have hcount := count.toNat_lt
        rw [List.length_cons] at h
        dsimp only
        rw [if_pos (by omega)]
        rfl

/-- Two frames in three chunks, the first of which ends inside the first frame. -/
theorem two_frames_reassembled :
    ∃ s, run (iteration (some (parseOf byteCounted))) init
        ([[2, 7], [8, 1], [9]].map .chunk) = some s ∧
      Reassembled byteCounted [2, 7, 8, 1, 9] s :=
  incoming_reassembled byteCounted (by decide) [[2, 7], [8, 1], [9]] (by decide)

end Incoming

end LimbWorker.AppTransport
