import Skywing.L3Protocol.RecordFrame
import Skywing.L4App.GroupMembers

/-!
# The messages behind a bad one

`ExternalManager::get_and_handle_messages` (`skywing_core/manager.cpp`) reads
the sockets of one neighbour one after another, each until nothing is left.
`dead_` is looked at once, before the first socket: neither loop looks at it
again, so whatever waits behind a rejected message or a Goodbye is still
handled.

`SilentAfterCut` asks that no such message changes the manager, its jobs or groups or
the record of the neighbour. It holds, whatever the machine below answers,
exactly when none waits (`cut_off_iff`): reading a message already moves
`last_heard_`, and no handler puts that back (`handleOne_heard`).
-/
namespace Skywing.L4.CutOff

open L3 L3.Manager
open L3.ExternalManager (markAsDead requestAnswered hear markAsDead_standing requestAnswered_standing)

variable {V : Type}

/-! ## Reading from a neighbour -/

/-- The answers of the machine below while a message is handled, and to the
connections that a report leads to. -/
structure Answers where
  handling : Env
  connecting : Env

/-- A Goodbye sets `dead_` without being rejected. -/
def isGoodbye : Message V → Bool
  | .goodbye => true
  | _ => false

variable [Typed V]

/-- The body of the inner loop, and whether the message cuts the neighbour
off.
mirrors skywing/skywing_core/manager.cpp:42-48, 205-363 -/
def handleOne (id : MachineID) (msg : Message V) (a : Answers) (m : Manager V) :
    Except Abort (Bool × Manager V) := do
  let m := m.atNeighbor id (·.hear a.handling msg)
  match m.neighbors.lookup id with
  | none => throw (.neighborMissing id)
  | some sender =>
    let (handled, m) ← m.handleMessage a.handling sender msg
    match handled with
    | .accepted => return (isGoodbye msg, m)
    | .rejected => return (true, m.atNeighbor id markAsDead)
    | .reported =>
      let m ← m.initConnections a.connecting
      return (false, m.atNeighbor id (·.requestAnswered a.connecting))

/-- One socket: all that can be read from it.
mirrors skywing/skywing_core/manager.cpp:42-50 -/
def readSocket (id : MachineID) (socket : List (Message V × Answers)) (m : Manager V) : Except Abort (Manager V) :=
  socket.foldlM (fun m x => (handleOne id x.1 x.2 m).map Prod.snd) m

/-- mirrors skywing/skywing_core/manager.cpp:35-52 -/
def getAndHandleMessages (id : MachineID) (sockets : List (List (Message V × Answers))) (m : Manager V) :
    Except Abort (Manager V) :=
  if (m.neighbors.lookup id).any (!·.dead) then sockets.foldlM (fun m socket => readSocket id socket m) m
  else .ok m

/-- The messages of a call, in the order they are handled in. -/
def handledOf (id : MachineID) (sockets : List (List (Message V × Answers))) (m : Manager V) :
    List (Message V × Answers) :=
  if (m.neighbors.lookup id).any (!·.dead) then sockets.flatten else []

/-- The sockets are read one after another. -/
theorem getAndHandleMessages_eq (id : MachineID) (sockets : List (List (Message V × Answers))) (m : Manager V) :
    getAndHandleMessages id sockets m = readSocket id (handledOf id sockets m) m := by
  have hflat : ∀ (sockets : List (List (Message V × Answers))) (m : Manager V),
      sockets.foldlM (fun m socket => readSocket id socket m) m = readSocket id sockets.flatten m := by
    intro sockets
    induction sockets with
    | nil => exact fun m => rfl
    | cons socket sockets ih =>
      intro m
      rw [List.foldlM_cons, List.flatten_cons, readSocket, readSocket, List.foldlM_append]
      exact congrArg _ (funext ih)
  unfold getAndHandleMessages handledOf
  split
  · exact hflat sockets m
  · rfl

/-! ## What is asked for -/

/-- None of the messages changes the manager. -/
def Unchanged (id : MachineID) : List (Message V × Answers) → Manager V → Prop
  | [], _ => True
  | (msg, a) :: rest, m => (∃ cut, handleOne id msg a m = .ok (cut, m)) ∧ Unchanged id rest m

/-- Once a message was rejected or a Goodbye was handled, none changes the
manager. -/
def SilentAfterCut (id : MachineID) : List (Message V × Answers) → Manager V → Prop
  | [], _ => True
  | (msg, a) :: rest, m => ∀ cut m', handleOne id msg a m = .ok (cut, m') →
    if cut then Unchanged id rest m' else SilentAfterCut id rest m'

/-- The first message that is rejected or a Goodbye is the last one. -/
def NothingBehind (id : MachineID) : List (Message V × Answers) → Manager V → Prop
  | [], _ => True
  | (msg, a) :: rest, m => ∀ cut m', handleOne id msg a m = .ok (cut, m') →
    if cut then rest = [] else NothingBehind id rest m'

/-! ## The main loop -/

/-- A message and the connections after a report are steps of the main loop. -/
theorem handleOne_run {id : MachineID} {msg : Message V} {a : Answers} {m m' : Manager V} {cut : Bool}
    (h : handleOne id msg a m = .ok (cut, m')) (todo : List MachineID) :
    ∃ ls, (lts V).Run (.running (.messages (some id) todo) m) ls (.running (.messages (some id) todo) m') := by
  have hnext {pc : Pc} {m₁ : Manager V} (hn : handleNext a.handling id todo msg m = .ok (pc, m₁)) :
      (lts V).step (.running (.messages (some id) todo) m) (.message msg a.handling) (.running pc m₁) := by
    exact step_of_act rfl hn
  unfold handleOne at h
  dsimp only at h
  cases hs : (m.atNeighbor id (·.hear a.handling msg)).neighbors.lookup id with
  | none =>
    rw [hs] at h
    cases h
  | some sender =>
    rw [hs] at h
    dsimp only at h
    have heq : handleNext a.handling id todo msg m =
        ((m.atNeighbor id (·.hear a.handling msg)).handleMessage a.handling sender msg >>= fun r =>
          match r.1 with
          | .accepted => .ok (.messages (some id) todo, r.2)
          | .rejected => .ok (.messages (some id) todo, r.2.atNeighbor id markAsDead)
          | .reported => .ok (.reportInit id todo, r.2)) := by
      unfold handleNext
      dsimp only
      rw [hs]
      rfl
    cases hm : (m.atNeighbor id (·.hear a.handling msg)).handleMessage a.handling sender msg with
    | error e =>
      rw [hm] at h
      cases h
    | ok r =>
      obtain ⟨handled, m₁⟩ := r
      rw [hm] at h heq
      cases handled with
      | accepted =>
        cases h
        exact ⟨_, .single (hnext heq)⟩
      | rejected =>
        cases h
        exact ⟨_, .single (hnext heq)⟩
      | reported =>
        cases hi : m₁.initConnections a.connecting with
        | error e =>
          rw [Except.ok_bind] at h
          dsimp only at h
          rw [hi] at h
          cases h
        | ok m₂ =>
          rw [Except.ok_bind] at h
          dsimp only at h
          rw [hi] at h
          cases h
          refine ⟨_, .cons (hnext heq) (.single (l := .init a.connecting) ?_)⟩
          refine step_of_act rfl ?_
          show (m₁.initConnections a.connecting >>= fun m => _) = _
          rw [hi]
          rfl

/-! ## Every message is heard -/

/-- Handling a message sets `last_heard_`, whatever else it does. -/
theorem handleOne_heard {id : MachineID} {msg : Message V} {a : Answers} {m m' : Manager V} {cut : Bool}
    (h : handleOne id msg a m = .ok (cut, m')) :
    ∃ e', m'.neighbors.lookup id = some e' ∧ e'.lastHeard = a.handling.now := by
  unfold handleOne at h
  dsimp only at h
  cases hs : (m.atNeighbor id (·.hear a.handling msg)).neighbors.lookup id with
  | none =>
    rw [hs] at h
    cases h
  | some sender =>
    have hnow : sender.lastHeard = a.handling.now := by
      obtain ⟨e, -, he⟩ := of_lookup_atNeighbor hs
      rw [he, if_pos rfl]
      rfl
    have hvia {m₁ : Manager V} (hb : Binds (m.atNeighbor id (·.hear a.handling msg)) m₁) :
        ∃ e', m₁.neighbors.lookup id = some e' ∧ e'.lastHeard = a.handling.now := by
      rcases hb.neighbors.lookup id with ⟨hnone, -⟩ | ⟨e, e', he, he', hR⟩
      · rw [hs] at hnone
        cases hnone
      · rw [hs] at he
        cases he
        exact ⟨e', he', hR.lastHeard.trans hnow⟩
    rw [hs] at h
    dsimp only at h
    have hmsg : ((m.atNeighbor id (·.hear a.handling msg)).handleMessage a.handling sender msg).Ends _ _ :=
      handleMessage_binds sender msg
    cases hm : (m.atNeighbor id (·.hear a.handling msg)).handleMessage a.handling sender msg with
    | error e =>
      rw [hm] at h
      cases h
    | ok r =>
      obtain ⟨handled, m₁⟩ := r
      rw [hm] at h hmsg
      cases handled with
      | accepted =>
        cases h
        exact hvia hmsg
      | rejected =>
        cases h
        exact hvia (Binds.trans hmsg (atNeighbor_binds markAsDead_standing id))
      | reported =>
        have hinit : (m₁.initConnections a.connecting).Ends _ _ := initConnections_binds
        rw [Except.ok_bind] at h
        dsimp only at h
        cases hi : m₁.initConnections a.connecting with
        | error e =>
          rw [hi] at h
          cases h
        | ok m₂ =>
          rw [hi] at h hinit
          cases h
          exact hvia (Binds.trans (Binds.trans hmsg hinit)
            (atNeighbor_binds (requestAnswered_standing a.connecting) id))

theorem NothingBehind.silent {id : MachineID} : ∀ {batch : List (Message V × Answers)} {m : Manager V},
    NothingBehind id batch m → SilentAfterCut id batch m
  | [], _, _ => trivial
  | (msg, a) :: rest, m, h => by
    intro cut m' hm
    have hrest := h cut m' hm
    cases cut with
    | true =>
      rw [if_pos rfl] at hrest ⊢
      rw [hrest]
      trivial
    | false =>
      rw [if_neg Bool.false_ne_true] at hrest ⊢
      exact hrest.silent

/-- Another clock makes a message behind the cut change `last_heard_`. -/
theorem nothingBehind_of_silent {id : MachineID} : ∀ {batch : List (Message V × Answers)} {m : Manager V},
    (∀ batch', batch'.map Prod.fst = batch.map Prod.fst → SilentAfterCut id batch' m) → NothingBehind id batch m
  | [], _, _ => trivial
  | (msg, a) :: rest, m, h => by
    intro cut m' hm
    cases cut with
    | true =>
      rw [if_pos rfl]
      obtain ⟨e, he, -⟩ := handleOne_heard hm
      cases rest with
      | nil => rfl
      | cons x rest =>
        exfalso
        obtain ⟨msg₂, a₂⟩ := x
        have hcut := h ((msg, a) :: (msg₂, { a₂ with handling := { a₂.handling with now := e.lastHeard + 1 } }) :: rest)
          rfl true m' hm
        rw [if_pos rfl] at hcut
        obtain ⟨⟨cut₂, h₂⟩, -⟩ := hcut
        obtain ⟨e', he', hnow⟩ := handleOne_heard h₂
        rw [he] at he'
        cases he'
        exact Nat.succ_ne_self _ hnow.symm
    | false =>
      rw [if_neg Bool.false_ne_true]
      refine nothingBehind_of_silent fun batch' hb => ?_
      have hcut := h ((msg, a) :: batch') (congrArg (msg :: ·) hb) false m' hm
      rwa [if_neg Bool.false_ne_true] at hcut

/-- Other answers to the same messages come from the same sockets. -/
theorem regroup {α β : Type*} : ∀ (groups : List (List (α × β))) (l : List (α × β)),
    l.map Prod.fst = groups.flatten.map Prod.fst →
      ∃ groups' : List (List (α × β)), groups'.map (List.map Prod.fst) = groups.map (List.map Prod.fst) ∧
        groups'.flatten = l
  | [], l, h => ⟨[], rfl, (List.map_eq_nil_iff.mp h).symm⟩
  | g :: groups, l, h => by
    rw [List.flatten_cons, List.map_append] at h
    obtain ⟨l₁, l₂, rfl, h₁, h₂⟩ := List.map_eq_append_iff.mp h
    obtain ⟨groups', hg, rfl⟩ := regroup groups l₂ h₂
    exact ⟨l₁ :: groups', by rw [List.map_cons, List.map_cons, h₁, hg], rfl⟩

/-- **A neighbour is cut off at its first bad message** exactly when nothing
waits behind it on any of its sockets. -/
theorem cut_off_iff (id : MachineID) (sockets : List (List (Message V))) (m : Manager V) :
    (∀ answered : List (List (Message V × Answers)), answered.map (List.map Prod.fst) = sockets →
      SilentAfterCut id (handledOf id answered m) m) ↔
      ∀ answered : List (List (Message V × Answers)), answered.map (List.map Prod.fst) = sockets →
        NothingBehind id (handledOf id answered m) m := by
  constructor
  · intro h answered ha
    unfold handledOf at h ⊢
    split
    · rename_i halive
      simp only [if_pos halive] at h
      refine nothingBehind_of_silent fun batch hb => ?_
      obtain ⟨answered', ha', rfl⟩ := regroup answered batch hb
      exact h answered' (ha'.trans ha)
    · trivial
  · exact fun h answered ha => (h answered ha).silent

/-! ## A value behind a Goodbye -/

open GroupMembers (quietEnv)

def quiet : Answers := ⟨quietEnv, quietEnv⟩

/-- A job that is subscribed to a tag. -/
def subscribedJob : Job Nat :=
  ⟨(∅ : AList fun _ : TagID => TagInfo Nat).insert ['p', 't'] ⟨some {}, [], 0, .noError⟩, ∅, ∅⟩

/-- A neighbour connects and is read from. -/
def connected : List (Label Nat) :=
  [.connectToServer (['c'], 1) quietEnv, .beginPass quietEnv, .conn (.connected .noError) quietEnv,
    .endConns quietEnv, .endAccept quietEnv, .endMessages quietEnv, .endPass quietEnv, .beginPass quietEnv,
    .conn (.message (.greeting ['c'] [] 1) ['c']) quietEnv, .endConns quietEnv, .endAccept quietEnv, .nextNeighbor]

def hasValue (m : Manager Nat) : Option Bool := (m.jobs.lookup ['j']).bind (·.hasData ['p', 't'])

/-- A neighbour says Goodbye, and the value it sent after that is given to a
job. -/
theorem not_silent : ∃ m : Manager Nat, (lts Nat).Reachable (.running (.messages (some ['c']) []) m) ∧
    ¬ SilentAfterCut ['c']
      (handledOf ['c'] [[(.goodbye, quiet), (.publishData ['p', 't'] (some 5) 0, quiet)]] m) m := by
  obtain ⟨m, m₁, m₂, hx, halive, h₁, h₂, hno, hyes⟩ : ∃ m m₁ m₂ : Manager Nat,
      LTS.exec step (.running .idle { Manager.create 1 ['m'] 5000 with
        jobs := (∅ : AList fun _ : JobID => Job Nat).insert ['j'] subscribedJob }) connected =
        some (.running (.messages (some ['c']) []) m) ∧
      (m.neighbors.lookup ['c']).any (!·.dead) = true ∧
      handleOne ['c'] .goodbye quiet m = .ok (true, m₁) ∧
      handleOne ['c'] (.publishData ['p', 't'] (some 5) 0) quiet m₁ = .ok (false, m₂) ∧
      hasValue m₁ = some false ∧ hasValue m₂ = some true :=
    ⟨_, _, _, rfl, rfl, rfl, rfl, rfl, rfl⟩
  refine ⟨m, LTS.reachable_of_exec ⟨1, ['m'], 5000, _, rfl⟩ hx, fun hsilent => ?_⟩
  rw [handledOf, if_pos halive] at hsilent
  have hunchanged := hsilent true m₁ h₁
  rw [if_pos rfl] at hunchanged
  obtain ⟨⟨cut, hc⟩, -⟩ := hunchanged
  rw [h₂] at hc
  cases hc
  rw [hno] at hyes
  cases hyes

end Skywing.L4.CutOff
