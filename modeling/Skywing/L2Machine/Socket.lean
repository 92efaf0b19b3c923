import Skywing.Core.Types
import Skywing.L1Encoding.Framing

/-!
# Reading from a socket

`skywing_core/internal/devices/socket_communicator.cpp`. A connection is the
bytes the peer has sent and that are still to be read, and a script that
says how each read turns out: how many bytes it gets at most, none meaning
that the call would block. `read_message` fills what it gets and reports
success whatever the number; `read_network_size` then makes a length of its
four-byte buffer, which nothing has initialised before, and `read_chunked`
goes on to its next chunk. Reading 0 bytes returns 0, which is reported as a
closed connection.

An index outside of `read_bytes` is `none`; `readChunked_spec` shows that
there is none, and says what a call leaves on the stream: never more than the
announced bytes are taken, and the buffer is the next bytes of the stream
exactly when every read gets what it asks for and the length is not a
multiple of the chunk size.
-/
namespace Skywing.L2.Socket

open L1.Framing

/-- `connection_in_progress` has the value of `would_block`.
mirrors skywing/skywing_core/internal/devices/socket_communicator.hpp:17-31 -/
inductive ConnectionError
  | noError
  | wouldBlock
  | unrecoverable
  | closed
  deriving DecidableEq, Repr

def ConnectionError.connectionInProgress : ConnectionError := .wouldBlock

/-- How a read turns out: at most `count` bytes, and `stale` is what the
stack holds in a buffer of four bytes. -/
structure ReadEvent where
  count : Nat
  stale : Fin 4 → UInt8 := fun _ => 0

structure Conn where
  stream : Bytes
  script : List ReadEvent

/-- The result, the bytes at the front of the buffer, and the connection.
mirrors skywing/skywing_core/internal/devices/socket_communicator.cpp:217-227 -/
def readMessage (conn : Conn) (size : Nat) : ConnectionError × Bytes × Conn :=
  if size = 0 then (.closed, [], conn)
  else
    match conn.script with
    | [] => (.wouldBlock, [], conn)
    | r :: script =>
      if r.count = 0 ∨ conn.stream = [] then (.wouldBlock, [], { conn with script := script })
      else
        (.noError, conn.stream.take (min r.count size),
          { stream := conn.stream.drop (min r.count size), script := script })

/-- mirrors skywing/skywing_core/internal/devices/socket_communicator.cpp:299-305 -/
def readNetworkSize (conn : Conn) : Except ConnectionError UInt32 × Conn :=
  let sizeBuffer : Bytes := match conn.script with
    | [] => []
    | r :: _ => List.ofFn r.stale
  match readMessage conn 4 with
  | (.noError, bytes, conn') => (.ok (fromNetworkBytes (bytes ++ sizeBuffer.drop bytes.length)), conn')
  | (err, _, conn') => (.error err, conn')

/-! ## `read_chunked`

mirrors skywing/skywing_core/internal/devices/socket_communicator.cpp:250-280 -/

def readStepSize : Nat := 0x1000
def resizeEveryNSteps : Nat := 16
def allocateStepSize : Nat := readStepSize * resizeEveryNSteps

def numIters (numBytes : Nat) : Nat :=
  numBytes / readStepSize + if numBytes % readStepSize = 0 then 0 else 1

/-- What iteration `i` asks for. -/
def numBytesToRead (numBytes i : Nat) : Nat :=
  if i + 1 = numIters numBytes then numBytes % readStepSize else readStepSize

/-- The buffer before the read of iteration `i`. -/
def allocate (numBytes i : Nat) (readBytes : Bytes) : Bytes :=
  if i % resizeEveryNSteps = 0 then
    readBytes ++ List.replicate (min (numBytes - readBytes.length) allocateStepSize) 0
  else readBytes

/-- `bytes` written at `&read_bytes[offset]` by a read of `size` bytes. -/
def store (readBytes : Bytes) (offset size : Nat) (bytes : Bytes) : Option Bytes :=
  if offset + size ≤ readBytes.length then
    some (readBytes.take offset ++ bytes ++ readBytes.drop (offset + bytes.length))
  else none

/-- The last `left` iterations. -/
def readChunkedLoop (numBytes : Nat) : Nat → Conn → Bytes → Option (Bytes × Conn)
  | 0, conn, readBytes => some (readBytes, conn)
  | left + 1, conn, readBytes =>
    let i := numIters numBytes - (left + 1)
    let buffer := allocate numBytes i readBytes
    match readMessage conn (numBytesToRead numBytes i) with
    | (.noError, bytes, conn') =>
      (store buffer (i * readStepSize) (numBytesToRead numBytes i) bytes).bind
        (readChunkedLoop numBytes left conn')
    | (_, _, conn') => some ([], conn')

def readChunked (conn : Conn) (numBytes : Nat) : Option (Bytes × Conn) :=
  readChunkedLoop numBytes (numIters numBytes) conn []

/-! ### What the iterations ask for -/

theorem lt_numIters_iff (numBytes i : Nat) : i < numIters numBytes ↔ i * readStepSize < numBytes := by
  unfold numIters readStepSize
  split <;> omega

theorem numIters_pos (numBytes : Nat) : 0 < numIters numBytes ↔ 0 < numBytes := by
  rw [lt_numIters_iff, Nat.zero_mul]

/-- Away from multiples of the chunk size every request is for what is
left, up to a chunk. -/
theorem numBytesToRead_eq {numBytes i : Nat} (h : i < numIters numBytes)
    (hn : numBytes % readStepSize ≠ 0) :
    numBytesToRead numBytes i = min readStepSize (numBytes - i * readStepSize) := by
  have hi := (lt_numIters_iff numBytes i).mp h
  unfold numBytesToRead
  split
  · rename_i hl
    have hnext := mt (lt_numIters_iff numBytes (i + 1)).mpr (by omega)
    unfold readStepSize at *
    omega
  · rename_i hl
    have hnext := (lt_numIters_iff numBytes (i + 1)).mp (by omega)
    unfold readStepSize at *
    omega

theorem numBytesToRead_le {numBytes i : Nat} (h : i < numIters numBytes) :
    numBytesToRead numBytes i ≤ min readStepSize (numBytes - i * readStepSize) := by
  by_cases hn : numBytes % readStepSize = 0
  · have hi := (lt_numIters_iff numBytes i).mp h
    unfold numBytesToRead readStepSize at *
    split <;> omega
  · exact le_of_eq (numBytesToRead_eq h hn)

theorem numBytesToRead_eq_zero {numBytes i : Nat} (h : i < numIters numBytes) :
    numBytesToRead numBytes i = 0 → numBytes % readStepSize = 0 := by
  intro h0
  by_contra hn
  have hi := (lt_numIters_iff numBytes i).mp h
  have := numBytesToRead_eq h hn
  unfold readStepSize at *
  omega

/-- The length of the buffer at the start of iteration `i`. -/
def allocated (numBytes i : Nat) : Nat :=
  min numBytes (allocateStepSize * ((i + 15) / resizeEveryNSteps))

theorem allocate_length {numBytes i : Nat} {readBytes : Bytes}
    (h : readBytes.length = allocated numBytes i) :
    (allocate numBytes i readBytes).length = allocated numBytes (i + 1) := by
  unfold allocate allocated at *
  unfold allocateStepSize resizeEveryNSteps readStepSize at *
  split
  · rw [List.length_append, List.length_replicate]
    omega
  · omega

/-- The buffer is long enough for the read of iteration `i`. -/
theorem request_le_allocated {numBytes i : Nat} (h : i < numIters numBytes) :
    i * readStepSize + numBytesToRead numBytes i ≤ allocated numBytes (i + 1) := by
  have h1 := numBytesToRead_le h
  have h2 := (lt_numIters_iff numBytes i).mp h
  unfold allocated allocateStepSize resizeEveryNSteps readStepSize at *
  omega

theorem allocate_take {numBytes i : Nat} {readBytes : Bytes} (hi : i < numIters numBytes)
    (h : readBytes.length = allocated numBytes i) :
    (allocate numBytes i readBytes).take (i * readStepSize) = readBytes.take (i * readStepSize) := by
  have h2 := (lt_numIters_iff numBytes i).mp hi
  unfold allocate
  split
  · refine List.take_append_of_le_length ?_
    rw [h]
    unfold allocated allocateStepSize resizeEveryNSteps readStepSize at *
    omega
  · rfl

theorem store_eq (readBytes : Bytes) (offset size : Nat) (bytes : Bytes)
    (h : offset + size ≤ readBytes.length) (hb : bytes.length ≤ size) :
    ∃ buffer, store readBytes offset size bytes = some buffer ∧ buffer.length = readBytes.length ∧
      ∀ n, n = offset + bytes.length → buffer.take n = readBytes.take offset ++ bytes := by
  refine ⟨_, if_pos h, ?_, ?_⟩
  · simp only [List.length_append, List.length_take, List.length_drop]
    omega
  · rintro n rfl
    rw [List.take_left']
    simp only [List.length_append, List.length_take]
    omega

/-! ### What a call does -/

/-- The next read finds nothing. -/
def Blocks (conn : Conn) : Prop := conn.stream = [] ∨ ∀ r, conn.script[0]? = some r → r.count = 0

theorem readMessage_cases (conn : Conn) (size : Nat) (h : size ≠ 0) :
    (Blocks conn ∧ ∃ script, readMessage conn size = (.wouldBlock, [], { conn with script := script })) ∨
    ¬ Blocks conn ∧ ∃ r script, conn.script = r :: script ∧ r.count ≠ 0 ∧ readMessage conn size =
      (.noError, conn.stream.take (min r.count size), ⟨conn.stream.drop (min r.count size), script⟩) := by
  obtain ⟨stream, script⟩ := conn
  unfold readMessage
  rw [if_neg h]
  cases script with
  | nil => exact .inl ⟨.inr nofun, [], rfl⟩
  | cons r script =>
    by_cases hc : r.count = 0 ∨ stream = []
    · refine .inl ⟨hc.symm.imp_right fun h0 r' hr => ?_, script, by simp only [if_pos hc]⟩
      cases hr; exact h0
    · refine .inr ⟨fun hb => hc (hb.symm.imp_left fun hr => hr r rfl), r, script, rfl, fun h0 => hc (.inl h0), ?_⟩
      simp only [if_neg hc]

theorem readNetworkSize_blocks {conn : Conn} (h : Blocks conn) :
    ∃ script, readNetworkSize conn = (.error .wouldBlock, { conn with script := script }) := by
  rcases readMessage_cases conn 4 (by decide) with ⟨_, script, hr⟩ | ⟨hn, _⟩
  · exact ⟨script, by rw [readNetworkSize, hr]⟩
  · exact absurd h hn

/-- A length is made of the bytes that came and of what was in the buffer. -/
theorem readNetworkSize_reads {conn : Conn} (h : ¬ Blocks conn) : ∃ r script stale,
    conn.script = r :: script ∧ r.count ≠ 0 ∧ (4 ≤ r.count → 4 ≤ conn.stream.length → stale = []) ∧
      readNetworkSize conn = (.ok (fromNetworkBytes (conn.stream.take (min r.count 4) ++ stale)),
        ⟨conn.stream.drop (min r.count 4), script⟩) := by
  rcases readMessage_cases conn 4 (by decide) with ⟨hb, _⟩ | ⟨_, r, script, hs, hc, hr⟩
  · exact absurd hb h
  · refine ⟨r, script, _, hs, hc, fun h4 hlen => ?_, by rw [readNetworkSize, hr, hs]⟩
    refine List.drop_eq_nil_of_le ?_
    rw [List.length_ofFn, List.length_take]
    omega

/-- From iteration `i` on, every read gets what it asks for. -/
def Fills (numBytes i : Nat) (script : List ReadEvent) : Prop :=
  ∀ k, i + k < numIters numBytes → ∃ r, script[k]? = some r ∧ numBytesToRead numBytes (i + k) ≤ r.count

theorem fills_cons {numBytes i : Nat} {r : ReadEvent} {script : List ReadEvent} (h : i < numIters numBytes) :
    Fills numBytes i (r :: script) ↔
      numBytesToRead numBytes i ≤ r.count ∧ Fills numBytes (i + 1) script := by
  constructor
  · intro hf
    refine ⟨?_, fun k hk => ?_⟩
    · obtain ⟨r', hr, hle⟩ := hf 0 h
      cases hr; exact hle
    · obtain ⟨r', hr, hle⟩ := hf (k + 1) (by omega)
      exact ⟨r', hr, by rwa [Nat.add_right_comm, Nat.add_assoc] at *⟩
  · rintro ⟨h0, hf⟩ k hk
    cases k with
    | zero => exact ⟨r, rfl, h0⟩
    | succ k =>
      obtain ⟨r', hr, hle⟩ := hf k (by omega)
      exact ⟨r', hr, by rwa [Nat.add_right_comm, Nat.add_assoc] at hle⟩

/-- The iterations from `i` on end with `out` and have taken `m` bytes. The
`m` bytes are all that was left exactly when every read was filled. -/
structure ChunkedSpec (numBytes i left : Nat) (conn : Conn) (readBytes out : Bytes) (conn' : Conn)
    (m : Nat) : Prop where
  taken : conn'.stream = conn.stream.drop m
  available : m ≤ conn.stream.length
  asked : m ≤ numBytes - i * readStepSize
  result : out = [] ∨ out.length = numBytes
  full : out ≠ [] → m = numBytes - i * readStepSize →
    out = readBytes.take (i * readStepSize) ++ conn.stream.take m ∧ Fills numBytes i conn.script ∧
      (0 < left → numBytes % readStepSize ≠ 0)
  filled : Fills numBytes i conn.script → (0 < left → numBytes % readStepSize ≠ 0) →
    numBytes - i * readStepSize ≤ conn.stream.length →
    out.length = numBytes ∧ m = numBytes - i * readStepSize

/-- One read of `b` bytes before the iterations from `i + 1` on. -/
theorem ChunkedSpec.cons {numBytes i left : Nat} {conn conn' : Conn} {readBytes buffer out : Bytes}
    {r : ReadEvent} {script : List ReadEvent} {b m : Nat} (hi : i < numIters numBytes)
    (hscript : conn.script = r :: script)
    (hb : b = min (min r.count (numBytesToRead numBytes i)) conn.stream.length)
    (hlast : left = 0 → i + 1 = numIters numBytes) (hbuf : buffer.length = allocated numBytes (i + 1))
    (hfront : buffer.take (i * readStepSize + b) = readBytes.take (i * readStepSize) ++ conn.stream.take b)
    (h0 : numBytesToRead numBytes i ≠ 0)
    (h : ChunkedSpec numBytes (i + 1) left ⟨conn.stream.drop b, script⟩ buffer out conn' m) :
    ChunkedSpec numBytes i (left + 1) conn readBytes out conn' (b + m) := by
  have hreq := numBytesToRead_le hi
  have hlt := (lt_numIters_iff numBytes i).mp hi
  have hstep : (i + 1) * readStepSize = i * readStepSize + readStepSize := Nat.succ_mul _ _
  have havail := h.available
  have hasked := h.asked
  rw [List.length_drop] at havail
  -- a last read of at least one byte is one of `numBytes % readStepSize`
  have hmod : (0 < left → numBytes % readStepSize ≠ 0) → numBytes % readStepSize ≠ 0 := by
    intro hl
    rcases Nat.eq_zero_or_pos left with hz | hp
    · unfold numBytesToRead at h0
      rwa [if_pos (hlast hz)] at h0
    · exact hl hp
  refine ⟨by rw [h.taken, List.drop_drop], by omega, by omega, h.result, fun hne hm => ?_, fun hf hl hlen => ?_⟩
  · have hm' : m = numBytes - (i + 1) * readStepSize := by omega
    obtain ⟨hout, hfills, hleft⟩ := h.full hne hm'
    have hn := hmod hleft
    have hbr : b = numBytesToRead numBytes i := by
      have := numBytesToRead_eq hi hn
      omega
    refine ⟨?_, ?_, fun _ => hn⟩
    · have htake : buffer.take ((i + 1) * readStepSize) = buffer.take (i * readStepSize + b) := by
        have hcase : (i + 1) * readStepSize = i * readStepSize + b ∨
            buffer.length ≤ (i + 1) * readStepSize ∧ buffer.length ≤ i * readStepSize + b := by
          have := numBytesToRead_eq hi hn
          unfold allocated at hbuf
          omega
        rcases hcase with he | ⟨h1, h2⟩
        · rw [he]
        · rw [List.take_of_length_le h1, List.take_of_length_le h2]
      rw [hout, htake, hfront, List.append_assoc, List.take_add]
    · rw [hscript]
      exact (fills_cons hi).mpr ⟨by omega, hfills⟩
  · have hn := hl (Nat.succ_pos _)
    rw [hscript] at hf
    obtain ⟨hcount, hfills⟩ := (fills_cons hi).mp hf
    have hbr : b = numBytesToRead numBytes i := by omega
    have heq := numBytesToRead_eq hi hn
    obtain ⟨hout, hm⟩ := h.filled hfills (fun _ => hn) (by rw [List.length_drop]; omega)
    exact ⟨hout, by omega⟩

theorem readChunkedLoop_spec (numBytes : Nat) : ∀ (left i : Nat) (conn : Conn) (readBytes : Bytes),
    i + left = numIters numBytes → readBytes.length = allocated numBytes i →
    ∃ out conn' m, readChunkedLoop numBytes left conn readBytes = some (out, conn') ∧
      ChunkedSpec numBytes i left conn readBytes out conn' m
  | 0, i, conn, readBytes, hi, hl => by
    have hge := mt (lt_numIters_iff numBytes i).mpr (by omega)
    have hlen : readBytes.length = numBytes := by
      rw [hl]
      unfold allocated allocateStepSize resizeEveryNSteps readStepSize at *
      omega
    refine ⟨readBytes, conn, 0, rfl, rfl, Nat.zero_le _, Nat.zero_le _, .inr hlen, fun _ _ => ?_, fun _ _ _ => ?_⟩
    · exact ⟨by rw [List.take_of_length_le (by omega), List.take_zero, List.append_nil],
        fun k hk => by omega, nofun⟩
    · exact ⟨hlen, by omega⟩
  | left + 1, i, conn, readBytes, hi, hl => by
    have hlt : i < numIters numBytes := by omega
    have hnum : numIters numBytes - (left + 1) = i := by omega
    have hlt' := (lt_numIters_iff numBytes i).mp hlt
    simp only [readChunkedLoop, hnum]
    by_cases h0 : numBytesToRead numBytes i = 0
    · -- a read of 0 bytes: the length is a multiple of the chunk size
      have hmod := numBytesToRead_eq_zero hlt h0
      rw [h0, readMessage, if_pos rfl]
      refine ⟨[], conn, 0, rfl, rfl, Nat.zero_le _, Nat.zero_le _, .inl rfl, fun hn => absurd rfl hn, fun _ hn _ => ?_⟩
      exact absurd hmod (hn (Nat.succ_pos _))
    · rcases readMessage_cases conn _ h0 with ⟨hblock, script, hr⟩ | ⟨_, r, script, hscript, hc, hr⟩
      · rw [hr]
        refine ⟨[], { conn with script := script }, 0, rfl, rfl, Nat.zero_le _, Nat.zero_le _, .inl rfl,
          fun hn => absurd rfl hn, fun hf _ hlen => ?_⟩
        -- something is left to read, and the read gets it
        obtain ⟨r, hr0, hcount⟩ := hf 0 hlt
        rw [Nat.add_zero] at hcount
        rcases hblock with he | hz
        · rw [he, List.length_nil] at hlen
          omega
        · have := hz r hr0
          omega
      · rw [hr]
        obtain ⟨b, hb⟩ : ∃ b, b = min (min r.count (numBytesToRead numBytes i)) conn.stream.length := ⟨_, rfl⟩
        have htake : conn.stream.take (min r.count (numBytesToRead numBytes i)) = conn.stream.take b := by
          rw [hb, List.take_eq_take_min]
        have hdrop : conn.stream.drop (min r.count (numBytesToRead numBytes i)) = conn.stream.drop b := by
          rw [hb, List.drop_eq_drop_min]
        have hlen : (conn.stream.take b).length = b := by rw [List.length_take]; omega
        obtain ⟨buffer, hstore, hbuf, hfront⟩ := store_eq (allocate numBytes i readBytes)
          (i * readStepSize) (numBytesToRead numBytes i) (conn.stream.take b)
          (by rw [allocate_length hl]; exact request_le_allocated hlt) (by rw [hlen]; omega)
        have hfront' := hfront (i * readStepSize + b) (by rw [hlen])
        rw [allocate_take hlt hl] at hfront'
        rw [allocate_length hl] at hbuf
        obtain ⟨out, conn', m, hloop, hspec⟩ := readChunkedLoop_spec numBytes left (i + 1)
          ⟨conn.stream.drop b, script⟩ buffer (by omega) hbuf
        refine ⟨out, conn', b + m, ?_, hspec.cons hlt hscript hb (fun hz => by omega) hbuf hfront' h0⟩
        rw [htake, hdrop]
        simp only [hstore, Option.bind_some]
        exact hloop

/-- **`read_chunked`** never writes outside of its buffer, takes at most
`num_bytes` bytes and returns nothing or `num_bytes` bytes; it takes and
returns the next `num_bytes` bytes of the stream exactly when every read is
filled and `num_bytes` is not a multiple of the chunk size. -/
theorem readChunked_spec (conn : Conn) (numBytes : Nat) : ∃ out conn' m,
    readChunked conn numBytes = some (out, conn') ∧ conn'.stream = conn.stream.drop m ∧
      m ≤ conn.stream.length ∧ m ≤ numBytes ∧ (out = [] ∨ out.length = numBytes) ∧
      (numBytes ≤ conn.stream.length →
        (out ≠ [] ∧ m = numBytes ↔ Fills numBytes 0 conn.script ∧ numBytes % readStepSize ≠ 0)) ∧
      (out ≠ [] → m = numBytes → out = conn.stream.take numBytes) := by
  obtain ⟨out, conn', m, hr, h⟩ := readChunkedLoop_spec numBytes (numIters numBytes) 0 conn []
    (Nat.zero_add _) (by simp [allocated, resizeEveryNSteps])
  have hzero := numIters_pos numBytes
  have hasked := h.asked
  rw [Nat.zero_mul, Nat.sub_zero] at hasked
  refine ⟨out, conn', m, hr, h.taken, h.available, hasked, h.result, fun hlen => ⟨fun ⟨hn, hm⟩ => ?_,
    fun ⟨hf, hn⟩ => ?_⟩,
    fun hn hm => ?_⟩
  · obtain ⟨_, hf, hmod⟩ := h.full hn (by rw [Nat.zero_mul, Nat.sub_zero]; exact hm)
    refine ⟨hf, hmod (hzero.mpr ?_)⟩
    have := h.result.resolve_left hn
    have := List.length_pos_of_ne_nil hn
    omega
  · obtain ⟨ho, hm⟩ := h.filled hf (fun _ => hn) (by rw [Nat.zero_mul, Nat.sub_zero]; exact hlen)
    rw [Nat.zero_mul, Nat.sub_zero] at hm
    refine ⟨fun he => ?_, hm⟩
    rw [he, List.length_nil] at ho
    rw [← ho] at hn
    exact hn rfl
  · obtain ⟨ho, _⟩ := h.full hn (by rw [Nat.zero_mul, Nat.sub_zero]; exact hm)
    rw [ho, hm]
    simp

end Skywing.L2.Socket
