import Skywing.Core.Types
import Skywing.L2Machine.Socket
import Skywing.L1Encoding.Text

/-!
# The record of a neighbour

`ExternalManager` of `skywing_core/manager.hpp`, `manager.cpp`: what a
manager knows of a connected machine, and the messages that go over the
connection.

`Env` is what the machine answers during one step of a manager: the clock,
the outcome of each send and connect, name resolution, the names of peers, and
the order in which an unordered container is gone through, which may be any.
`ptr` stands for the address of a record; `sent` and `handled` list the messages
sent to and handled from the neighbour so far and are history.

* `Quiet`: what sending anything but a subscription notice, and the timers of
  the tag search, leave as they are.
* `noteSubscriptions_of_nodup`: a machine that is sent each tag at most once
  in subscription notices rejects none of them as repeated.
-/
namespace Skywing.L3

open L1.Text L2.Socket

/-! ## Messages -/

/-- The messages between managers, with a value of type `V` where one is
carried; `none` is a value that cannot be extracted.
mirrors skywing/skywing_core/internal/capn_proto_wrapper.hpp:27-183 -/
inductive Message (V : Type)
  | greeting (sender : MachineID) (neighbors : List MachineID) (port : UInt16)
  | goodbye
  | newNeighbor (neighborId : MachineID)
  | removeNeighbor (neighborId : MachineID)
  | heartbeat
  | reportPublishers (tags : List TagID) (addresses : List (List Str)) (machines : List (List MachineID))
      (locallyProducedTags : List TagID)
  | getPublishers (tags : List TagID) (publishersNeeded : List UInt8) (ignoreCache : Bool)
  | joinReduceGroup (reduceTag tagProduced : TagID)
  | submitReduceValue (reduceTag tag : TagID) (value : Option V) (version : VersionID)
  | reportReduceDisconnection (reduceTag : TagID) (initiatingMachine : MachineID) (id : ReductionDisconnectID)
  | publishData (tag : TagID) (value : Option V) (version : VersionID)
  | subscriptionNotice (tags : List TagID) (isUnsubscribe : Bool)

/-- The tags of a subscription notice. -/
def Message.noticeTags {V : Type} : Message V → List TagID
  | .subscriptionNotice tags _ => tags
  | _ => []

/-! ## The machine below -/

/-- What `init_connection` comes to: an address that is not one ends the
program.
mirrors skywing/skywing_core/internal/devices/socket_communicator.cpp:47-63 -/
inductive InitConnection
  | connected
  | inProgress
  | failed
  | invalidAddress
  deriving DecidableEq, Repr

/-- What the name of a peer is asked for.
mirrors skywing/skywing_core/manager.cpp:901,1488,1527 -/
inductive NameUse
  | addressKey
  | expectedIp
  | publisher (tag : TagID)
  deriving DecidableEq, Repr

structure Env where
  now : Nat
  /-- for a record and the number of messages sent to it before -/
  sendResult : Nat → Nat → ConnectionError
  initConnection : Str → UInt16 → InitConnection
  /-- `resolve_addr` -/
  resolve : Str → Option Str
  order : {α : Type} → List α → List α
  order_perm : ∀ {α : Type} (l : List α), (order l).Perm l
  /-- `prng()` of a reduce group -/
  prng : TagID → Nat → ReductionDisconnectID
  /-- for a record: where `getpeername` fails, as after a reset, what the
  `sockaddr_in` nobody wrote to reads as
  (`skywing_core/internal/devices/socket_communicator.cpp:229-238`) -/
  unnamedPeer : Nat → NameUse → Option Str := fun _ _ => none

theorem Env.mem_order (env : Env) {α : Type} {l : List α} {a : α} : a ∈ env.order l ↔ a ∈ l :=
  (env.order_perm l).mem_iff

/-! ## The record -/

structure ExternalManager (V : Type) where
  ptr : Nat
  /-- the peer's address on each socket -/
  conns : List Str
  id : MachineID
  lastHeard : Nat
  neighbors : List MachineID
  requestTagsTime : Nat
  remoteSubscriptions : List TagID
  port : UInt16
  backoffCounter : UInt8
  ignoreCacheOnNextRequest : Bool
  dead : Bool
  pendingTagRequest : Bool
  sent : List (Message V)
  handled : List (Message V)

namespace ExternalManager

variable {V : Type}

/-- mirrors skywing/skywing_core/manager.cpp:20-33, manager.hpp:176-235 -/
def create (env : Env) (ptr : Nat) (conn : Str) (id : MachineID) (neighbors : List MachineID)
    (port : UInt16) : ExternalManager V where
  ptr := ptr
  conns := [conn]
  id := id
  lastHeard := env.now
  neighbors := neighbors
  requestTagsTime := 0
  remoteSubscriptions := []
  port := port
  backoffCounter := 0
  ignoreCacheOnNextRequest := false
  dead := false
  pendingTagRequest := false
  sent := []
  handled := []

/-- mirrors skywing/skywing_core/manager.cpp:54-60 -/
def sendMessage (env : Env) (msg : Message V) (e : ExternalManager V) : ExternalManager V :=
  if e.dead then e
  else if env.sendResult e.ptr e.sent.length ≠ .noError then { e with dead := true }
  else { e with sent := e.sent ++ [msg] }

def markAsDead (e : ExternalManager V) : ExternalManager V := { e with dead := true }

/-- Where the peer is: its address on the first socket and the port of its
greeting. -/
def peer (e : ExternalManager V) : AddrPort := (e.conns.headD [], e.port)

/-- The kernel is asked each time, and where it has no answer the code goes on.
mirrors skywing/skywing_core/internal/devices/socket_communicator.cpp:229-238 -/
def ipAddress (env : Env) (use : NameUse) (e : ExternalManager V) : Str := (env.unnamedPeer e.ptr use).getD e.peer.1

/-- mirrors skywing/skywing_core/manager.cpp:135-140 -/
def addressPair (env : Env) (e : ExternalManager V) : AddrPort := (e.ipAddress env .addressKey, e.port)

/-- mirrors skywing/skywing_core/manager.cpp:128-133 -/
def address (env : Env) (use : NameUse) (e : ExternalManager V) : Str := addressString (e.ipAddress env use, e.port)

theorem ipAddress_of_named {env : Env} {use : NameUse} {e : ExternalManager V} (h : env.unnamedPeer e.ptr use = none) :
    e.ipAddress env use = e.peer.1 := by
  rw [ipAddress, h]
  rfl

def addCommunicator (conn : Str) (e : ExternalManager V) : ExternalManager V := { e with conns := e.conns ++ [conn] }

def isSubscribedTo (e : ExternalManager V) (tag : TagID) : Bool := e.remoteSubscriptions.contains tag

/-! ## Asking for tags -/

/-- mirrors skywing/skywing_core/manager.cpp:368-369 -/
def backoffTimes : List Nat := [20, 40, 80, 160, 320, 500, 750, 1000, 2000, 5000]

/-- mirrors skywing/skywing_core/manager.cpp:365-373 -/
def calcNextRequestTime (env : Env) (e : ExternalManager V) : Nat :=
  env.now + if backoffTimes.length ≤ e.backoffCounter.toNat then backoffTimes.getLastD 0
    else backoffTimes.getD e.backoffCounter.toNat 0

/-- mirrors skywing/skywing_core/manager.cpp:75-78 -/
def shouldAskForTags (env : Env) (e : ExternalManager V) : Bool :=
  !e.pendingTagRequest && decide (env.now > e.requestTagsTime)

/-- mirrors skywing/skywing_core/manager.cpp:82-86 -/
def resetBackoffCounter (env : Env) (e : ExternalManager V) : ExternalManager V :=
  { e with
    backoffCounter := 0
    requestTagsTime := calcNextRequestTime env { e with backoffCounter := 0 } }

/-- mirrors skywing/skywing_core/manager.cpp:88-92 -/
def increaseBackoffCounter (env : Env) (e : ExternalManager V) : ExternalManager V :=
  { e with
    backoffCounter := e.backoffCounter + 1
    requestTagsTime := calcNextRequestTime env { e with backoffCounter := e.backoffCounter + 1 } }

/-- mirrors skywing/skywing_core/manager.cpp:112-126 -/
def findPublishersForTags (env : Env) (tags : List TagID) (publishersNeeded : List UInt8)
    (e : ExternalManager V) : ExternalManager V :=
  if e.pendingTagRequest then e
  else
    { e.sendMessage env (.getPublishers tags publishersNeeded e.ignoreCacheOnNextRequest) with
      ignoreCacheOnNextRequest := false
      pendingTagRequest := true }

/-- After a report has been handled.
mirrors skywing/skywing_core/manager.cpp:273-275 -/
def requestAnswered (env : Env) (e : ExternalManager V) : ExternalManager V :=
  { e with pendingTagRequest := false, requestTagsTime := e.calcNextRequestTime env }

/-- mirrors skywing/skywing_core/manager.cpp:100-110 -/
def sendHeartbeatIfPastInterval (env : Env) (interval : Nat) (e : ExternalManager V) : ExternalManager V :=
  if interval ≤ env.now - e.lastHeard then { e.sendMessage env .heartbeat with lastHeard := env.now } else e

/-- A message arrived and is handled.
mirrors skywing/skywing_core/manager.cpp:42-47 -/
def hear (env : Env) (msg : Message V) (e : ExternalManager V) : ExternalManager V :=
  { e with lastHeard := env.now, handled := e.handled ++ [msg] }

/-! ## The neighbours of a neighbour -/

/-- `std::lower_bound` on `len` elements from `first` on, with `fuel ≥ len`. -/
def lowerBoundLoop (l : List MachineID) (id : MachineID) : Nat → Nat → Nat → Nat
  | 0, first, _ => first
  | fuel + 1, first, len =>
    if len = 0 then first
    else if l.getD (first + len / 2) [] < id then
      lowerBoundLoop l id fuel (first + len / 2 + 1) (len - len / 2 - 1)
    else lowerBoundLoop l id fuel first (len / 2)

def lowerBound (l : List MachineID) (id : MachineID) : Nat := lowerBoundLoop l id l.length 0 l.length

/-- mirrors skywing/skywing_core/manager.cpp:94-98 -/
def hasNeighbor (e : ExternalManager V) (id : MachineID) : Bool :=
  e.neighbors[lowerBound e.neighbors id]? == some id

/-- mirrors skywing/skywing_core/manager.cpp:218-228 -/
def handleNewNeighbor (id : MachineID) (e : ExternalManager V) : ExternalManager V :=
  if e.hasNeighbor id then e else { e with neighbors := e.neighbors.insertIdx (lowerBound e.neighbors id) id }

/-- The last neighbour takes the place of the one found.
mirrors skywing/skywing_core/manager.cpp:229-242 -/
def handleRemoveNeighbor (id : MachineID) (e : ExternalManager V) : ExternalManager V :=
  let loc := lowerBound e.neighbors id
  if loc < e.neighbors.length then
    { e with neighbors := (e.neighbors.set loc (e.neighbors.getLastD [])).dropLast }
  else e

/-! ## Subscription notices -/

/-- mirrors skywing/skywing_core/manager.cpp:326-346 -/
inductive RejectNotice
  | invalidTagName (tag : TagID)
  | repeatedTag (tag : TagID)
  | notProduced
  deriving DecidableEq, Repr

/-- The loop over the tags of a notice: the subscriptions, and why it was
left.
mirrors skywing/skywing_core/manager.cpp:329-341 -/
def noteSubscriptions : List TagID → List TagID → List TagID × Option RejectNotice
  | subs, [] => (subs, none)
  | subs, tag :: tags =>
    if !tagNameOkay tag then (subs, some (.invalidTagName tag))
    else if tag ∈ subs then (subs, some (.repeatedTag tag))
    else noteSubscriptions (tag :: subs) tags

/-- The tags of all notices sent. -/
def noticeTags (e : ExternalManager V) : List TagID := e.sent.flatMap Message.noticeTags

theorem noteSubscriptions_of_nodup {subs tags : List TagID} (hnd : tags.Nodup) (h : ∀ t ∈ tags, t ∉ subs) :
    ∀ t, (noteSubscriptions subs tags).2 ≠ some (.repeatedTag t) := by
  induction tags generalizing subs with
  | nil => intro t h; cases h
  | cons a tags ih =>
    intro t
    obtain ⟨ha, hnd⟩ := List.nodup_cons.mp hnd
    obtain ⟨hs, hts⟩ := List.forall_mem_cons.mp h
    rw [noteSubscriptions, if_neg hs]
    split
    · intro he; cases he
    · refine ih hnd (fun u hu => ?_) t
      rw [List.mem_cons, not_or]
      exact ⟨fun he => ha (he ▸ hu), hts u hu⟩

/-! ## What sending leaves as it is -/

/-- Same record, same address, no further subscription notice. -/
structure Quiet (e e' : ExternalManager V) : Prop where
  ptr : e'.ptr = e.ptr
  id : e'.id = e.id
  peer : e'.peer = e.peer
  noticeTags : e'.noticeTags = e.noticeTags

namespace Quiet

variable {e e' e'' : ExternalManager V}

theorem refl (e : ExternalManager V) : Quiet e e := ⟨rfl, rfl, rfl, rfl⟩

theorem trans (h : Quiet e e') (h' : Quiet e' e'') : Quiet e e'' :=
  ⟨h'.ptr.trans h.ptr, h'.id.trans h.id, h'.peer.trans h.peer, h'.noticeTags.trans h.noticeTags⟩

end Quiet

variable (env : Env) (e : ExternalManager V)

/-- A send adds the tags of its message to the notices, or none. -/
theorem sendMessage_cases (msg : Message V) :
    (∃ d, e.sendMessage env msg = { e with dead := d }) ∨
      e.sendMessage env msg = { e with sent := e.sent ++ [msg] } := by
  unfold sendMessage
  split
  · exact .inl ⟨e.dead, rfl⟩
  · split
    · exact .inl ⟨true, rfl⟩
    · exact .inr rfl

theorem sendMessage_quiet (msg : Message V) (h : msg.noticeTags = []) : Quiet e (e.sendMessage env msg) := by
  rcases sendMessage_cases env e msg with ⟨d, hd⟩ | hs
  · rw [hd]; exact ⟨rfl, rfl, rfl, rfl⟩
  · rw [hs]; exact ⟨rfl, rfl, rfl, by simp [noticeTags, h]⟩

theorem resetBackoffCounter_quiet : Quiet e (e.resetBackoffCounter env) := ⟨rfl, rfl, rfl, rfl⟩

theorem increaseBackoffCounter_quiet : Quiet e (e.increaseBackoffCounter env) := ⟨rfl, rfl, rfl, rfl⟩

theorem findPublishersForTags_quiet (tags : List TagID) (needed : List UInt8) :
    Quiet e (e.findPublishersForTags env tags needed) := by
  unfold findPublishersForTags
  split
  · exact .refl e
  · obtain ⟨h₁, h₂, h₃, h₄⟩ := sendMessage_quiet env e
      (.getPublishers tags needed e.ignoreCacheOnNextRequest) rfl
    exact ⟨h₁, h₂, h₃, h₄⟩

end ExternalManager

end Skywing.L3
