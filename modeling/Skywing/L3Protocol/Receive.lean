import Skywing.L2Machine.Socket

/-!
# Receiving messages

The loops that take messages off a connection: the `waiting_for_resp` branch
of `Manager::process_pending_conns` until the greeting has come, and
`ExternalManager::try_to_get_message` from then on
(`skywing_core/manager.cpp`). Both read a length, then a payload with
`read_chunked`, and hand it to `MessageHandler::try_to_create`. One step of
the model is one try; the main loop makes them again and again, and what a
handled message does is not looked at (`handled` is what was handed over).

The peer has sent some frames, and a script says how the reads turn out.
What is asked for (`HandedOver`): a try that finds a byte of a message hands
its payload over. So the payloads handed over are at every try those of the
messages found so far, the stream stands at the start of the next frame, and
the connection is alive; once nothing is left to read, all have been handed
over (`HandedOver.all`).

`framing_iff`: this is so exactly when at every try the length read would
block, or it gets its four bytes, the announced length is no multiple of
4096, and every read of the payload is filled (`Clean`).
-/
namespace Skywing.L3.Receive

open L1.Framing L2.Socket

inductive Phase
  /-- in `pending_conns_`, waiting for the greeting -/
  | pending
  /-- in `neighbors_` -/
  | neighbor
  /-- dropped after a message that is no greeting -/
  | rejected
  deriving DecidableEq, Repr

structure Receiver where
  conn : Conn
  phase : Phase
  dead : Bool
  handled : List Bytes

/-- mirrors skywing/skywing_core/manager.cpp:162-202 -/
def tryToGetMessage (r : Receiver) : Option Receiver :=
  match readNetworkSize r.conn with
  | (.ok bytesToRead, conn) =>
    (readChunked conn bytesToRead.toNat).map fun (messageBuffer, conn) =>
      if messageBuffer ≠ [] then { r with conn := conn, handled := r.handled ++ [messageBuffer] }
      else { r with conn := conn, dead := true }
  | (.error err, conn) =>
    if err = .closed then some { r with conn := conn, dead := true }
    else if err ≠ .wouldBlock then some { r with conn := conn, dead := true }
    else some { r with conn := conn }

/-- `accepts`: the payload decodes to a greeting. An empty buffer leaves
`okay` true and the connection pending.
mirrors skywing/skywing_core/manager.cpp:1461-1558 -/
def waitingForResp (accepts : Bytes → Bool) (r : Receiver) : Option Receiver :=
  match readNetworkSize r.conn with
  | (.error err, conn) =>
    if err ≠ .wouldBlock then some { r with conn := conn, dead := true } else some { r with conn := conn }
  | (.ok bytesToRead, conn) =>
    (readChunked conn bytesToRead.toNat).map fun (messageBuffer, conn) =>
      if messageBuffer ≠ [] then
        { r with
          conn := conn
          handled := r.handled ++ [messageBuffer]
          phase := if accepts messageBuffer then .neighbor else .rejected }
      else { r with conn := conn }

/-- One try of the main loop.
mirrors skywing/skywing_core/manager.cpp:35-52 -/
def receive (accepts : Bytes → Bool) (r : Receiver) : Option Receiver :=
  match r.phase with
  | .pending => waitingForResp accepts r
  | .neighbor => if r.dead then some r else tryToGetMessage r
  | .rejected => some r

def receiveN (accepts : Bytes → Bool) : Nat → Receiver → Option Receiver
  | 0, r => some r
  | k + 1, r => (receiveN accepts k r).bind (receive accepts)

/-- The peer has sent `frames`, and the reads go by `script`. -/
def start (phase : Phase) (frames : List Payload) (script : List ReadEvent) : Receiver where
  conn := ⟨frames.flatMap finalizeMessage, script⟩
  phase := phase
  dead := false
  handled := []

/-! ## What is asked for -/

/-- A try that finds a byte to read. A dropped connection is not read. -/
def finds (r : Receiver) : Bool :=
  decide (r.phase ≠ .rejected) && decide (r.conn.stream ≠ []) && r.conn.script.head?.any (decide <| ·.count ≠ 0)

/-- How many of the first `k` tries found something of a message. -/
def found (accepts : Bytes → Bool) (r : Receiver) (k : Nat) : Nat :=
  (List.range k).countP fun i => (receiveN accepts i r).any finds

/-- The first `n` payloads have been handed over, in order and nothing
else, the stream is at the start of the next frame, and the connection is
alive. -/
structure HandedOver (frames : List Payload) (n : Nat) (r : Receiver) : Prop where
  handled : r.handled = (frames.take n).map Payload.bytes
  stream : r.conn.stream = (frames.drop n).flatMap finalizeMessage
  alive : r.dead = false

/-- After every number of tries exactly the payloads of the messages found
have been handed over, and all of them once nothing is left to read. -/
def Survives (accepts : Bytes → Bool) (frames : List Payload) (r : Receiver) : Prop :=
  ∀ k, ∃ r', receiveN accepts k r = some r' ∧ HandedOver frames (found accepts r k) r' ∧
    (r'.conn.stream = [] → r'.handled = frames.map Payload.bytes)

/-- How the reads of the next try turn out: none finds a byte of the length,
or the length comes whole, is no multiple of the chunk size, and all of the
payload's reads are filled. -/
def Clean (r : Receiver) : Prop :=
  r.phase = .rejected ∨ Blocks r.conn ∨
    (fromNetworkBytes (r.conn.stream.take 4)).toNat % readStepSize ≠ 0 ∧ ∃ e script,
      r.conn.script = e :: script ∧ 4 ≤ e.count ∧
        Fills (fromNetworkBytes (r.conn.stream.take 4)).toNat 0 script

theorem found_succ {accepts : Bytes → Bool} {r r' : Receiver} {k : Nat} (h : receiveN accepts k r = some r') :
    found accepts r (k + 1) = found accepts r k + (finds r').toNat := by
  rw [found, found, List.range_succ, List.countP_append, List.countP_singleton, h, Option.any_some]
  cases finds r' <;> rfl

theorem finds_iff (r : Receiver) : finds r = true ↔ r.phase ≠ .rejected ∧ ¬ Blocks r.conn := by
  unfold finds Blocks
  cases r.conn.script <;> simp [and_assoc]

/-- Where a byte is left to read, a frame is left to hand over. -/
theorem HandedOver.next {frames : List Payload} {n : Nat} {r : Receiver} (h : HandedOver frames n r)
    (hne : r.conn.stream ≠ []) : ∃ p, frames.take (n + 1) = frames.take n ++ [p] ∧
      r.conn.stream = finalizeMessage p ++ (frames.drop (n + 1)).flatMap finalizeMessage := by
  have hlt : n < frames.length := by
    by_contra hle
    rw [h.stream, List.drop_eq_nil_of_le (by omega)] at hne
    exact hne rfl
  refine ⟨frames[n], by rw [List.take_append_getElem hlt], ?_⟩
  rw [h.stream, List.drop_eq_getElem_cons hlt, List.flatMap_cons]

/-- With nothing left to read, all payloads have been handed over. -/
theorem HandedOver.all {frames : List Payload} {n : Nat} {r : Receiver} (h : HandedOver frames n r)
    (he : r.conn.stream = []) : r.handled = frames.map Payload.bytes := by
  have hle : frames.length ≤ n := by
    by_contra hlt
    have hstream := h.stream
    rw [he, List.drop_eq_getElem_cons (by omega), List.flatMap_cons] at hstream
    have := congrArg List.length hstream
    rw [List.length_nil, List.length_append, finalizeMessage_length] at this
    omega
  rw [h.handled, List.take_of_length_le hle]

/-! ## One try -/

theorem receive_blocks (accepts : Bytes → Bool) {r : Receiver} (hb : Blocks r.conn) (hd : r.dead = false) :
    ∃ script, receive accepts r = some { r with conn := { r.conn with script := script } } := by
  obtain ⟨script, hs⟩ := readNetworkSize_blocks hb
  cases hp : r.phase with
  | pending => exact ⟨script, by simp [receive, hp, waitingForResp, hs]⟩
  | neighbor => exact ⟨script, by simp [receive, hp, hd, tryToGetMessage, hs]⟩
  | rejected => exact ⟨r.conn.script, by simp only [receive, hp]; rw [← hp]⟩

/-- A try that reads: `c` bytes of the length, then `m` bytes of what they
announce, and `out` is handed over unless it is empty. -/
theorem receive_reads (accepts : Bytes → Bool) {r : Receiver} (hb : ¬ Blocks r.conn) (hd : r.dead = false)
    (hp : r.phase ≠ .rejected) : ∃ e script stale out m r', r.conn.script = e :: script ∧ e.count ≠ 0 ∧
      (4 ≤ e.count → 4 ≤ r.conn.stream.length → stale = []) ∧ receive accepts r = some r' ∧
      r'.conn.stream = (r.conn.stream.drop (min e.count 4)).drop m ∧
      (out = [] → r'.handled = r.handled) ∧
      (out ≠ [] → r'.handled = r.handled ++ [out] ∧ r'.dead = false) ∧
      m ≤ (r.conn.stream.drop (min e.count 4)).length ∧
      let n := (fromNetworkBytes (r.conn.stream.take (min e.count 4) ++ stale)).toNat
      m ≤ n ∧ (out = [] ∨ out.length = n) ∧
      (n ≤ (r.conn.stream.drop (min e.count 4)).length →
        (out ≠ [] ∧ m = n ↔ Fills n 0 script ∧ n % readStepSize ≠ 0)) ∧
      (out ≠ [] → m = n → out = (r.conn.stream.drop (min e.count 4)).take n) := by
  obtain ⟨e, script, stale, hs, hc, hstale, hsize⟩ := readNetworkSize_reads hb
  obtain ⟨out, conn', m, hread, htaken, havail, hle, hres, hfill, hout⟩ := readChunked_spec
    ⟨r.conn.stream.drop (min e.count 4), script⟩
    (fromNetworkBytes (r.conn.stream.take (min e.count 4) ++ stale)).toNat
  cases hph : r.phase with
  | rejected => exact absurd hph hp
  | pending =>
    refine ⟨e, script, stale, out, m, _, hs, hc, hstale,
      by simp only [receive, hph, waitingForResp, hsize, hread, Option.map_some]; rfl, ?_, ?_, ?_, havail,
      hle, hres, hfill, hout⟩
    · split <;> exact htaken
    · intro he; rw [if_neg (not_not_intro he)]
    · intro hne; rw [if_pos hne]; exact ⟨rfl, hd⟩
  | neighbor =>
    refine ⟨e, script, stale, out, m, _, hs, hc, hstale,
      by simp only [receive, hph, hd, Bool.false_eq_true, if_false, tryToGetMessage, hsize, hread,
        Option.map_some]; rfl, ?_, ?_, ?_, havail, hle, hres, hfill, hout⟩
    · split <;> exact htaken
    · intro he; rw [if_neg (not_not_intro he)]
    · intro hne; rw [if_pos hne]; exact ⟨rfl, rfl⟩

/-- From a state that is in order, a try that finds a byte hands the next
payload over and leaves order behind exactly when it is clean. -/
theorem handedOver_receive_iff (accepts : Bytes → Bool) {frames : List Payload} {n : Nat} {r : Receiver}
    (h : HandedOver frames n r) : ∃ r', receive accepts r = some r' ∧
      (HandedOver frames (n + (finds r).toNat) r' ↔ Clean r) := by
  have hd := h.alive
  by_cases hp : r.phase = .rejected
  · have hf : finds r = false := Bool.eq_false_iff.mpr fun hf => ((finds_iff r).mp hf).1 hp
    refine ⟨r, by rw [receive, hp], ?_⟩
    rw [hf]
    exact iff_of_true h (.inl hp)
  by_cases hb : Blocks r.conn
  · have hf : finds r = false := Bool.eq_false_iff.mpr fun hf => ((finds_iff r).mp hf).2 hb
    obtain ⟨script, hr⟩ := receive_blocks accepts hb hd
    refine ⟨_, hr, ?_⟩
    rw [hf]
    exact iff_of_true ⟨h.handled, h.stream, hd⟩ (.inr (.inl hb))
  obtain ⟨e, script, stale, out, m, r', hs, hc, hstale, hr, hstream, hnil, hsome, havail, hle, hres, hfill,
    hout⟩ := receive_reads accepts hb hd hp
  refine ⟨r', hr, ?_⟩
  rw [(finds_iff r).mpr ⟨hp, hb⟩, Bool.toNat_true]
  -- the stream is not empty, so there is a frame at its start
  obtain ⟨p, hnext, hst⟩ := h.next fun he => hb (.inl he)
  have h4 : 4 ≤ r.conn.stream.length := by
    rw [hst, List.length_append, finalizeMessage_length]
    omega
  have hlen' : r'.conn.stream.length = r.conn.stream.length - min e.count 4 - m := by
    rw [hstream, List.length_drop, List.length_drop]
  rw [List.length_drop] at havail
  constructor
  · intro h'
    have hhandled : r'.handled = r.handled ++ [p.bytes] := by
      rw [h'.handled, hnext, h.handled, List.map_append, List.map_singleton]
    have ho : out ≠ [] := fun ho => by
      rw [hnil ho] at hhandled
      simp at hhandled
    -- what was handed over is the payload, so all of its frame is gone
    have hbytes : out = p.bytes := by
      rw [(hsome ho).1] at hhandled
      simpa using hhandled
    have hn := hres.resolve_left ho
    have hcount := congrArg List.length hst
    rw [List.length_append, finalizeMessage_length, ← h'.stream, ← hbytes] at hcount
    have hc4 : 4 ≤ e.count := by omega
    have hmin : min e.count 4 = 4 := by omega
    rw [hstale hc4 h4, List.append_nil, hmin] at hn hfill hle
    have hm : m = (fromNetworkBytes (r.conn.stream.take 4)).toNat := by omega
    rw [List.length_drop] at hfill
    obtain ⟨hfl, hmod⟩ := (hfill (by omega)).mp ⟨ho, hm⟩
    exact .inr (.inr ⟨hmod, e, script, hs, hc4, hfl⟩)
  · intro hor
    rcases hor with hrej | hbl | ⟨hmod, e', script', hs', hc4, hfl⟩
    · exact absurd hrej hp
    · exact absurd hbl hb
    · rw [hs] at hs'
      cases hs'
      have hmin : min e.count 4 = 4 := by omega
      rw [hstale hc4 h4, List.append_nil, hmin] at hfill hout
      rw [hmin, hst] at hstream
      rw [hst] at hfill hout hmod hfl
      rw [size_finalizeMessage, drop_finalizeMessage] at hfill hout
      rw [size_finalizeMessage] at hmod hfl
      rw [drop_finalizeMessage] at hstream
      obtain ⟨ho, hm⟩ := (hfill (by rw [List.length_append]; omega)).mpr ⟨hfl, hmod⟩
      have hbytes := hout ho hm
      rw [List.take_left] at hbytes
      obtain ⟨hh', hd'⟩ := hsome ho
      refine ⟨?_, by rw [hstream, hm, List.drop_left], hd'⟩
      rw [hh', hbytes, hnext, h.handled, List.map_append, List.map_singleton]

/-! ## Every run -/

theorem handedOver_start (phase : Phase) (frames : List Payload) (script : List ReadEvent) :
    HandedOver frames 0 (start phase frames script) := ⟨rfl, rfl, rfl⟩

/-- **Framing survives exactly the clean segmentations.** Whatever the peer
sends and however the reads turn out, in either loop: every try that finds a
byte of a message hands that message over, so that exactly the payloads sent
are handed over, in order, and the connection stays alive, if and only if
every try is clean. -/
theorem framing_iff (accepts : Bytes → Bool) (phase : Phase) (frames : List Payload)
    (script : List ReadEvent) :
    Survives accepts frames (start phase frames script) ↔
      ∀ k r, receiveN accepts k (start phase frames script) = some r → Clean r := by
  constructor
  · intro h k r hr
    obtain ⟨r₀, hr₀, hk, _⟩ := h k
    rw [hr] at hr₀
    cases hr₀
    obtain ⟨r', hr', hiff⟩ := handedOver_receive_iff accepts hk
    obtain ⟨r₁, hr₁, hk₁, _⟩ := h (k + 1)
    rw [found_succ hr] at hk₁
    simp only [receiveN, hr, Option.bind_some, hr', Option.some.injEq] at hr₁
    exact hiff.mp (hr₁ ▸ hk₁)
  · intro h k
    have hrun : ∃ r, receiveN accepts k (start phase frames script) = some r ∧
        HandedOver frames (found accepts (start phase frames script) k) r := by
      induction k with
      | zero => exact ⟨_, rfl, handedOver_start phase frames script⟩
      | succ k ih =>
        obtain ⟨r, hr, hk⟩ := ih
        obtain ⟨r', hr', hiff⟩ := handedOver_receive_iff accepts hk
        refine ⟨r', by simp only [receiveN, hr, Option.bind_some, hr'], ?_⟩
        rw [found_succ hr]
        exact hiff.mpr (h k r hr)
    obtain ⟨r, hr, hk⟩ := hrun
    exact ⟨r, hr, hk, hk.all⟩

/-- The length of an eight-byte message has come, its payload not yet. -/
def splitScript : List ReadEvent := [{ count := 4 }, { count := 0 }]

def splitMessage : Payload := ⟨List.replicate 8 0, by decide⟩

/-- In either loop the length is gone and the payload is not handed over. -/
theorem framing_lost :
    ¬ Survives (fun _ => true) [splitMessage] (start .pending [splitMessage] splitScript) ∧
      ¬ Survives (fun _ => true) [splitMessage] (start .neighbor [splitMessage] splitScript) := by
  -- whatever number of payloads is asked for, eight bytes are no number of frames
  have hlost (n : Nat) (r : Receiver) (hk : HandedOver [splitMessage] n r) (hlen : r.conn.stream.length = 8) :
      False := by
    have hs := congrArg List.length hk.stream
    rw [hlen] at hs
    rcases n with _ | n
    · simp [finalizeMessage_length, splitMessage] at hs
    · simp at hs
  constructor
  · intro h
    obtain ⟨r, hr, hk, _⟩ := h 1
    cases hr
    exact hlost _ _ hk rfl
  · intro h
    obtain ⟨r, hr, hk, _⟩ := h 1
    cases hr
    exact hlost _ _ hk rfl

end Skywing.L3.Receive
