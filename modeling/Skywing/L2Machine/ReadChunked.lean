import Skywing.L2Machine.Socket

/-!
# `read_chunked` for every length

`read_chunked` (`skywing_core/internal/devices/socket_communicator.cpp`) takes
a `size_t` and counts its chunks in an `int`. `Socket` has the loop for the
lengths that a frame can announce; here the counter is the 32-bit one of the
source, and the connection is one on which everything asked for has arrived.

The last chunk is asked for as `num_bytes % 4096` bytes. Where that is 0 the
read of 0 bytes returns 0, which counts as a closed connection. From
`2^31` chunks on the counter is not the number of chunks.

Results:
* `readChunkedInt_eq`: below `2^31` chunks the counter makes no difference.
* `chunkLoop_taken`: an iteration takes at most one chunk off the stream.
* `readChunked_exact_iff`: for which lengths exactly what was asked for is read.
-/
namespace Skywing.L2.Socket

open L1.Framing

/-! ## The loop with its counter -/

/-- `const int num_iters`, made of a `size_t`.
mirrors skywing/skywing_core/internal/devices/socket_communicator.cpp:263-265 -/
def numItersInt (numBytes : Nat) : Int := (BitVec.ofNat 32 (numIters numBytes)).toInt

/-- What iteration `i` of `iters` asks for. -/
def chunkSize (numBytes iters i : Nat) : Nat :=
  if i + 1 = iters then numBytes % readStepSize else readStepSize

/-- The last `left` of `iters` iterations. -/
def chunkLoop (numBytes iters : Nat) : Nat → Conn → Bytes → Option (Bytes × Conn)
  | 0, conn, readBytes => some (readBytes, conn)
  | left + 1, conn, readBytes =>
    let i := iters - (left + 1)
    let buffer := allocate numBytes i readBytes
    match readMessage conn (chunkSize numBytes iters i) with
    | (.noError, bytes, conn') =>
      (store buffer (i * readStepSize) (chunkSize numBytes iters i) bytes).bind (chunkLoop numBytes iters left conn')
    | (_, _, conn') => some ([], conn')

/-- mirrors skywing/skywing_core/internal/devices/socket_communicator.cpp:250-280 -/
def readChunkedInt (conn : Conn) (numBytes : Nat) : Option (Bytes × Conn) :=
  chunkLoop numBytes (numItersInt numBytes).toNat (numItersInt numBytes).toNat conn []

theorem chunkLoop_eq (numBytes left : Nat) (conn : Conn) (readBytes : Bytes) :
    chunkLoop numBytes (numIters numBytes) left conn readBytes = readChunkedLoop numBytes left conn readBytes := by
  induction left generalizing conn readBytes with
  | zero => rfl
  | succ left ih =>
    have hih : chunkLoop numBytes (numIters numBytes) left = readChunkedLoop numBytes left := by
      funext conn readBytes
      exact ih conn readBytes
    rw [chunkLoop, readChunkedLoop, hih]
    rfl

theorem numItersInt_eq {numBytes : Nat} (h : numIters numBytes < 2 ^ 31) :
    numItersInt numBytes = numIters numBytes := by
  unfold numItersInt
  rw [BitVec.toInt_ofNat']
  exact Int.bmod_eq_of_le (by omega) (by omega)

/-- With fewer than `2^31` chunks the `int` is the number of chunks. -/
theorem readChunkedInt_eq {numBytes : Nat} (h : numIters numBytes < 2 ^ 31) (conn : Conn) :
    readChunkedInt conn numBytes = readChunked conn numBytes := by
  unfold readChunkedInt readChunked
  rw [numItersInt_eq h, Int.toNat_natCast]
  exact chunkLoop_eq numBytes _ conn []

theorem numItersInt_lt (numBytes : Nat) : (numItersInt numBytes).toNat < 2 ^ 31 := by
  have h : numItersInt numBytes < 2 ^ 31 := by
    have := BitVec.two_mul_toInt_lt (x := BitVec.ofNat 32 (numIters numBytes))
    unfold numItersInt
    omega
  omega

/-! ## What the iterations take -/

theorem chunkSize_le (numBytes iters i : Nat) : chunkSize numBytes iters i ≤ readStepSize := by
  unfold chunkSize readStepSize
  split <;> omega

theorem readMessage_taken (conn : Conn) (size : Nat) :
    conn.stream.length ≤ (readMessage conn size).2.2.stream.length + size := by
  by_cases h : size = 0
  · rw [readMessage, if_pos h]
    exact Nat.le_add_right _ _
  · rcases readMessage_cases conn size h with ⟨-, script, hr⟩ | ⟨-, r, script, -, -, hr⟩
    · rw [hr]
      exact Nat.le_add_right _ _
    · rw [hr]
      show conn.stream.length ≤ (conn.stream.drop (min r.count size)).length + size
      rw [List.length_drop]
      omega

/-- An iteration takes at most one chunk. -/
theorem chunkLoop_taken (numBytes iters : Nat) {left : Nat} {conn conn' : Conn} {readBytes out : Bytes}
    (h : chunkLoop numBytes iters left conn readBytes = some (out, conn')) :
    conn.stream.length ≤ conn'.stream.length + left * readStepSize := by
  induction left generalizing conn readBytes with
  | zero =>
    cases h
    exact Nat.le_add_right _ _
  | succ left ih =>
    have hsize := chunkSize_le numBytes iters (iters - (left + 1))
    have htaken := readMessage_taken conn (chunkSize numBytes iters (iters - (left + 1)))
    rw [chunkLoop] at h
    rw [Nat.succ_mul]
    split at h
    · rename_i bytes conn₁ hr
      rw [hr] at htaken
      obtain ⟨buffer, -, hloop⟩ := Option.bind_eq_some_iff.mp h
      have := ih hloop
      dsimp only at htaken
      omega
    · rename_i err bytes conn₁ _ hr
      rw [hr] at htaken
      cases h
      dsimp only at htaken
      omega

/-! ## Which lengths are read -/

/-- Every read gets a whole chunk, if that much is asked for. -/
def Filling (numBytes : Nat) (script : List ReadEvent) : Prop :=
  ∀ k < numIters numBytes, ∃ r, script[k]? = some r ∧ readStepSize ≤ r.count

theorem Filling.fills {numBytes : Nat} {script : List ReadEvent} (h : Filling numBytes script) :
    Fills numBytes 0 script := by
  intro k hk
  rw [Nat.zero_add] at hk ⊢
  obtain ⟨r, hr, hcount⟩ := h k hk
  have := numBytesToRead_le hk
  exact ⟨r, hr, by omega⟩

/-- The `n` bytes that have arrived are returned, and no more are taken. -/
def ReadsExactly (b rest : Bytes) (script : List ReadEvent) : Prop :=
  ∃ left, readChunkedInt ⟨b ++ rest, script⟩ b.length = some (b, ⟨rest, left⟩)

/-- **`read_chunked` reads what was asked for except at the boundaries.** When
`n` bytes have arrived and every read is filled, exactly these are returned
and taken, and no index is outside of `read_bytes`, if and only if `n` is no
multiple of the chunk size and the chunks can be counted in an `int`. -/
theorem readChunked_exact_iff (b rest : Bytes) (script : List ReadEvent) (h1 : 1 ≤ b.length)
    (hfill : Filling b.length script) :
    ReadsExactly b rest script ↔ b.length % readStepSize ≠ 0 ∧ b.length < 2 ^ 43 - 2 ^ 12 := by
  have hcount : numIters b.length < 2 ^ 31 ↔ b.length ≤ 2 ^ 43 - 2 ^ 12 := by
    have h := lt_numIters_iff b.length (2 ^ 31 - 1)
    unfold readStepSize at h
    omega
  by_cases hlt : numIters b.length < 2 ^ 31
  · obtain ⟨out, conn', m, hr, htaken, havail, -, -, hiff, hout⟩ := readChunked_spec ⟨b ++ rest, script⟩ b.length
    have hiff := hiff (by rw [List.length_append]; omega)
    have hne : b.length % readStepSize ≠ 0 → b.length ≠ 2 ^ 43 - 2 ^ 12 := by
      unfold readStepSize
      omega
    unfold ReadsExactly
    rw [readChunkedInt_eq hlt, hr]
    constructor
    · intro hex
      obtain ⟨left, he⟩ := hex
      cases he
      have hm : b.length = m := by
        have hlen := congrArg List.length htaken
        simp only [List.length_drop, List.length_append] at hlen havail
        omega
      have hmod := (hiff.mp ⟨List.ne_nil_of_length_pos h1, hm.symm⟩).2
      have := hne hmod
      exact ⟨hmod, by omega⟩
    · intro hex
      obtain ⟨hmod, -⟩ := hex
      obtain ⟨hnil, rfl⟩ := hiff.mpr ⟨hfill.fills, hmod⟩
      have hb : out = b := by rw [hout hnil rfl, List.take_left]
      have hs : conn'.stream = rest := by rw [htaken, List.drop_left]
      obtain ⟨stream, left⟩ := conn'
      subst hb hs
      exact ⟨left, rfl⟩
  · -- the loop has fewer iterations than there are chunks
    constructor
    · intro hex
      obtain ⟨left, he⟩ := hex
      have htaken := chunkLoop_taken _ _ he
      have hint := numItersInt_lt b.length
      simp only [List.length_append, readStepSize] at htaken
      omega
    · intro hex
      obtain ⟨-, hb⟩ := hex
      omega

theorem readChunked_exact_five :
    ReadsExactly [1, 2, 3, 4, 5] [6] [⟨4096, fun _ => 0⟩] := by
  refine (readChunked_exact_iff [1, 2, 3, 4, 5] [6] _ (by decide) ?_).mpr ⟨by decide, by decide⟩
  intro k hk
  obtain rfl : k = 0 := Nat.lt_one_iff.mp hk
  exact ⟨_, rfl, le_rfl⟩

/-- Of 4096 bytes that have arrived none is returned. -/
theorem readChunked_page : ∃ b rest : Bytes, ∃ script, 1 ≤ b.length ∧ Filling b.length script ∧
    ¬ ReadsExactly b rest script := by
  have hlen : (List.replicate 4096 0 : Bytes).length = 4096 := List.length_replicate
  have hfill : Filling (List.replicate 4096 0 : Bytes).length [⟨4096, fun _ => 0⟩] := by
    rw [hlen]
    intro k hk
    obtain rfl : k = 0 := Nat.lt_one_iff.mp hk
    exact ⟨_, rfl, le_rfl⟩
  refine ⟨List.replicate 4096 0, [], _, by rw [hlen]; decide, hfill, fun h => ?_⟩
  have hmod := ((readChunked_exact_iff _ [] _ (by rw [hlen]; decide) hfill).mp h).1
  rw [hlen] at hmod
  exact hmod rfl

end Skywing.L2.Socket
