import Skywing.Core.Maps
import Skywing.Core.Ends
import Skywing.L3Protocol.ExternalManager
import Skywing.L3Protocol.ReduceGroup

/-!
# The manager of a machine

`skywing_core/manager.hpp`, `manager.cpp`: the connections of a machine, the
tags it looks for and where it found them. A wanted tag waits in
`pending_tags_` until a publisher is known; it then travels in the
NUL-separated list of a pending connection, or, where the publisher is
connected already, is finalised at once: a subscription is bound in
`tag_to_machine_`, a reduce group's parent is sent a join message.

An `unordered_map` is an `AList`, and going through one takes the order of
`Env`. A pointer to a record is its number. The main loop and the handles'
calls hold `job_mut_`, so an operation is one step. A job's `reduce` does not:
it sends to the group's neighbours under the group's own `buffer_mutex_`. That
send is a step too, and that its accesses may overlap with the main loop's is
left out. A failing assertion, an `exit` and the use of a
reference that is no more stop the program: an operation is an
`Except Abort`. Condition variables and what only logs are left out.

`subscribed`, `finalized` and `removed` list what was subscribed to, what was
finalised and the records that were erased; they are history and nothing
reads them.
-/
namespace Skywing.L3

open L1.Text L2.Socket ExternalManager

/-! ## Data -/

/-- Why the program stops. -/
inductive Abort
  /-- `assert(false && "No group matching the produced tag found?")` -/
  | groupFromParentTag (tag : TagID)
  /-- `assert(pub_iter != publishers_for_tag_.cend())` -/
  | publishersMissing (tag : TagID)
  /-- `assert(inserted)` in `ip_subscribe` -/
  | pendingConnExists (addr : AddrPort)
  /-- `assert(iter != reduce_tag_data_.cend())` -/
  | groupMissing (groupId : TagID)
  /-- `assert(neighbor_iter != neighbors_.cend())` -/
  | neighborMissing (id : MachineID)
  /-- `assert(ip_and_tag.size() == 2)` -/
  | ipAndTag
  /-- `assert(addresses.size() == machines.size())` -/
  | sizeMismatch
  /-- a list is read beyond its end -/
  | outOfBounds
  /-- a buffer of a job or a group that is not there -/
  | bufferMissing
  /-- a record that was erased -/
  | dangling (ptr : Nat)
  /-- `while (true)` with every port taken -/
  | noFreePort
  | exit (code : Nat)
  deriving DecidableEq, Repr

/-- mirrors skywing/skywing_core/manager.hpp:34-43 -/
structure PublisherInfo where
  address : Str
  machineId : MachineID
  deriving DecidableEq, Repr

/-- mirrors skywing/skywing_core/manager.hpp:742-757 -/
inductive ConnStatus
  | waitingForConn
  | waitingForResp
  deriving DecidableEq, Repr

inductive ConnType
  | userRequested
  | byAccept
  | subscription
  | reduceGroup
  | specificIp
  deriving DecidableEq, Repr

/-- `conn` says whether the entry has a socket: one that was moved from has
none.
mirrors skywing/skywing_core/manager.hpp:760-765 -/
structure PendingInfo where
  conn : Bool
  status : ConnStatus
  type : ConnType
  tag : Str
  deriving DecidableEq, Repr

/-- mirrors skywing/skywing_core/manager.hpp:692-701 -/
structure ReduceGroupData (V : Type) where
  group : ReduceGroup V
  parentMachines : List MachineID
  childMachines : Fin 2 → List MachineID

/-- History: a tag was finalised, by the routine named. -/
inductive Finalized
  | subscription (tag : TagID) (ptr : Nat)
  | reduceGroup (tag groupId : TagID)
  deriving DecidableEq, Repr

/-- mirrors skywing/skywing_core/manager.hpp:674-775 -/
structure Manager (V : Type) where
  id : MachineID
  port : UInt16
  heartbeatInterval : Nat
  jobs : AList fun _ : JobID => Job V
  neighbors : AList fun _ : MachineID => ExternalManager V
  publishersForTag : AList fun _ : TagID => List PublisherInfo
  pendingTags : List TagID
  reduceTagData : AList fun _ : TagID => ReduceGroupData V
  sendPublisherInformationTo : AList fun _ : TagID => List MachineID
  selfSubCount : AList fun _ : TagID => Nat
  addrToMachine : AList fun _ : AddrPort => Nat
  tagToMachine : AList fun _ : TagID => Nat
  pendingConns : AList fun _ : AddrPort => PendingInfo
  /-- the next new record -/
  nextPtr : Nat
  subscribed : List TagID
  finalized : List Finalized
  removed : List (ExternalManager V)

namespace Manager

variable {V : Type}

/-- mirrors skywing/skywing_core/manager.cpp:380-385 -/
def create (port : UInt16) (id : MachineID) (heartbeatInterval : Nat) : Manager V where
  id := id
  port := port
  heartbeatInterval := heartbeatInterval
  jobs := ∅
  neighbors := ∅
  publishersForTag := ∅
  pendingTags := []
  reduceTagData := ∅
  sendPublisherInformationTo := ∅
  selfSubCount := ∅
  addrToMachine := ∅
  tagToMachine := ∅
  pendingConns := ∅
  nextPtr := 0
  subscribed := []
  finalized := []
  removed := []

/-! ## Sending to neighbours -/

def mapNeighbors (f : ExternalManager V → ExternalManager V) (m : Manager V) : Manager V :=
  { m with neighbors := m.neighbors.mapVal fun _ => f }

/-- `neighbors_.find(id)` and an update of what it finds. -/
def atNeighbor (id : MachineID) (f : ExternalManager V → ExternalManager V) (m : Manager V) : Manager V :=
  { m with neighbors := m.neighbors.mapVal fun key e => if key = id then f e else e }

/-- An update through a reference. -/
def atPtr (ptr : Nat) (f : ExternalManager V → ExternalManager V) (m : Manager V) : Manager V :=
  m.mapNeighbors fun e => if e.ptr = ptr then f e else e

/-- The record a pointer points to. -/
def deref (m : Manager V) (ptr : Nat) : Except Abort (ExternalManager V) :=
  match m.neighbors.entries.find? fun e => e.2.ptr = ptr with
  | some e => .ok e.2
  | none => .error (.dangling ptr)

/-- mirrors skywing/skywing_core/manager.hpp:499-505 -/
def sendToNeighborsIf (env : Env) (msg : Message V) (condition : ExternalManager V → Bool) (m : Manager V) :
    Manager V :=
  m.mapNeighbors fun e => if condition e then e.sendMessage env msg else e

/-- mirrors skywing/skywing_core/manager.cpp:676-679 -/
def sendToNeighbors (env : Env) (msg : Message V) (m : Manager V) : Manager V :=
  m.sendToNeighborsIf env msg fun _ => true

/-- mirrors skywing/skywing_core/manager.cpp:603-607 -/
def notifyOfNewNeighbor (env : Env) (id : MachineID) (m : Manager V) : Manager V :=
  m.sendToNeighborsIf env (.newNeighbor id) fun e => e.id != id

/-- mirrors skywing/skywing_core/manager.cpp:1663-1670 -/
def localTags (env : Env) (m : Manager V) : List TagID := (env.order m.selfSubCount.entries).map (·.1)

/-- mirrors skywing/skywing_core/manager.cpp:13-16 -/
def makeNeedOnePub (tags : List TagID) : List UInt8 := List.replicate tags.length 1

/-- `reset_backoff_counter` and `find_publishers_for_tags`, as they go
together. -/
def askNeighbors (env : Env) (tags : List TagID) (m : Manager V) : Manager V :=
  m.mapNeighbors fun e => (e.resetBackoffCounter env).findPublishersForTags env tags (makeNeedOnePub tags)

/-- mirrors skywing/skywing_core/manager.cpp:1634-1661 -/
def findPublishersForPendingTags (env : Env) (forceAsk : Bool) (m : Manager V) : Manager V :=
  if forceAsk then m.askNeighbors env m.pendingTags
  else
    let noKnownPublishers (tag : TagID) : Bool :=
      tag ∉ m.tagToMachine && ((m.publishersForTag.lookup tag).getD []).isEmpty
    let toAskFor := m.pendingTags.filter noKnownPublishers
    if toAskFor.isEmpty then m
    else m.mapNeighbors fun e =>
      if e.shouldAskForTags env then
        (e.increaseBackoffCounter env).findPublishersForTags env toAskFor (makeNeedOnePub toAskFor)
      else e

/-! ## Calls from jobs -/

/-- What `subscribe` puts into `pending_tags_`. -/
def wants (m : Manager V) (tag : TagID) : Bool :=
  tag ∉ m.tagToMachine && tag ∉ m.pendingTags && marker tag != privateTagMarker

/-- The `copy_if` that appends to the list it looks through.
mirrors skywing/skywing_core/manager.cpp:695-701 -/
def queueWanted (m : Manager V) (tagIds : List TagID) : Manager V :=
  tagIds.foldl (fun m tag => if m.wants tag then { m with pendingTags := m.pendingTags ++ [tag] } else m) m

/-- mirrors skywing/skywing_core/manager.cpp:692-711 -/
def subscribe (env : Env) (tagIds : List TagID) (m : Manager V) : Manager V :=
  let m := { m.queueWanted tagIds with subscribed := m.subscribed ++ tagIds }
  if m.pendingTags.isEmpty then m else m.askNeighbors env tagIds

/-- mirrors skywing/skywing_core/internal/devices/socket_communicator.cpp:313-321 -/
def toCanonical (env : Env) (addr : AddrPort) : Except Abort AddrPort :=
  match env.resolve addr.1 with
  | none => .error (.exit 4)
  | some host => .ok (host, addr.2)

/-- mirrors skywing/skywing_core/internal/devices/socket_communicator.cpp:307-311 -/
def toIpPort (env : Env) (addr : AddrPort) : Except Abort Str := do
  return addressString (← toCanonical env addr)

/-- mirrors skywing/skywing_core/internal/devices/socket_communicator.cpp:170-176 -/
def connectTo (env : Env) (host : Str) (port : UInt16) : Except Abort ConnectionError :=
  match env.initConnection host port with
  | .inProgress => .ok .connectionInProgress
  | .connected | .failed => .ok .unrecoverable
  | .invalidAddress => .error (.exit 4)

/-- mirrors skywing/skywing_core/internal/devices/socket_communicator.cpp:178-183 -/
def connectNonBlocking (env : Env) (address : Str) : Except Abort ConnectionError :=
  if (splitAddress address).1.isEmpty then .ok .unrecoverable
  else connectTo env (splitAddress address).1 (splitAddress address).2

/-- `"localhost"` -/
def localhost : Str := ['l', 'o', 'c', 'a', 'l', 'h', 'o', 's', 't']

def countSelfSubscription (tag : TagID) (m : Manager V) : Manager V :=
  { m with selfSubCount := m.selfSubCount.insert tag ((m.selfSubCount.lookup tag).getD 0 + 1) }

/-- mirrors skywing/skywing_core/manager.cpp:713-754 -/
def ipSubscribe (env : Env) (addr : AddrPort) (tagIds : List TagID) (m : Manager V) :
    Except Abort (Manager V) := do
  let canonicalAddr ← toCanonical env addr
  if (← toIpPort env canonicalAddr) = (← toIpPort env (localhost, m.port)) then
    tagIds.foldlM (fun m tag =>
      if tag ∈ m.selfSubCount then .ok (m.countSelfSubscription tag) else .error (.exit 4)) m
  else
    match m.addrToMachine.lookup canonicalAddr with
    | some ptr =>
      let e ← m.deref ptr
      return m.atPtr e.ptr (·.sendMessage env (.subscriptionNotice tagIds false))
    | none =>
      if canonicalAddr ∈ m.pendingConns then throw (.pendingConnExists canonicalAddr)
      let tagList := joinAfter (addressString canonicalAddr) tagIds
      let _ ← connectTo env canonicalAddr.1 canonicalAddr.2
      return { m with
        pendingConns := m.pendingConns.insert canonicalAddr ⟨true, .waitingForConn, .specificIp, tagList⟩ }

/-- mirrors skywing/skywing_core/manager.cpp:422-445 -/
def connectToServer (env : Env) (addr : AddrPort) (m : Manager V) : Except Abort (Manager V) := do
  let canonical ← toCanonical env addr
  if canonical ∈ m.addrToMachine ∨ canonical ∈ m.pendingConns then return m
  let _ ← connectTo env canonical.1 canonical.2
  return { m with
    pendingConns := m.pendingConns.insert canonical ⟨true, .waitingForConn, .userRequested, []⟩ }

/-- mirrors skywing/skywing_core/manager.cpp:951-966 -/
def reportNewPublishTags (tags : List TagID) (m : Manager V) : Except Abort (Manager V) :=
  tags.foldlM (fun m tag =>
    if tag ∈ m.selfSubCount then .error (.exit 1)
    else .ok { m with selfSubCount := m.selfSubCount.insert tag 0 }) m

/-- The parent tag of a group joins the pending tags.
mirrors skywing/skywing_core/manager.cpp:991-995, 1015-1019 -/
def queueParentTag (env : Env) (parentTag : TagID) (m : Manager V) : Manager V :=
  { m with pendingTags := m.pendingTags ++ [parentTag] }.askNeighbors env [parentTag]

/-- A group that exists stays as it is.
mirrors skywing/skywing_core/manager.cpp:968-1004 -/
def createReduceGroup (env : Env) (group : ReduceGroup V) (m : Manager V) : Except Abort (Manager V) := do
  if group.producedTag ∈ m.selfSubCount then throw (.exit 1)
  let m := { m with
    selfSubCount := m.selfSubCount.insert group.producedTag 0
    reduceTagData := m.reduceTagData.insertNew group.groupId ⟨group, [], fun _ => []⟩ }
  match m.reduceTagData.lookup group.groupId with
  | none => throw (.groupMissing group.groupId)
  | some data =>
    let parentTag := data.group.tagNeighbors.parent
    return if parentTag.isEmpty then m else m.queueParentTag env parentTag

/-- mirrors skywing/skywing_core/manager.cpp:1006-1023 -/
def rebuildReduceGroup (env : Env) (groupId : TagID) (m : Manager V) : Except Abort (Manager V) :=
  match m.reduceTagData.lookup groupId with
  | none => .error (.groupMissing groupId)
  | some data =>
    let parentTag := data.group.tagNeighbors.parent
    .ok (if !parentTag.isEmpty && data.parentMachines.isEmpty then m.queueParentTag env parentTag else m)

/-! ## What jobs wait for -/

/-- mirrors skywing/skywing_core/manager.cpp:681-690 -/
def subscribeIsDone (requiredTags : List TagID) (m : Manager V) : Bool :=
  requiredTags.all fun tag => tag ∈ m.selfSubCount || tag ∈ m.tagToMachine

/-- mirrors skywing/skywing_core/manager.cpp:1340-1343 -/
def connIsComplete (address : AddrPort) (m : Manager V) : Bool := address ∉ m.pendingConns

/-- mirrors skywing/skywing_core/manager.cpp:1345-1350 -/
def addrIsConnected (address : AddrPort) (m : Manager V) : Except Abort Bool :=
  match m.addrToMachine.lookup address with
  | none => .ok false
  | some ptr => do return !(← m.deref ptr).dead

/-- mirrors skywing/skywing_core/internal/manager_waiter_callables.cpp:58-63 -/
def ipSubscribeComplete (address : AddrPort) (isSelfSub : Bool) (m : Manager V) : Bool :=
  isSelfSub || m.connIsComplete address

/-- mirrors skywing/skywing_core/internal/manager_waiter_callables.cpp:70-75 -/
def ipSubscribeSuccess (address : AddrPort) (tags : List TagID) (isSelfSub : Bool) (m : Manager V) :
    Except Abort Bool := do
  if isSelfSub then return true
  return (← m.addrIsConnected address) && m.subscribeIsDone tags

/-! ## What reduce groups send -/

/-- mirrors skywing/skywing_core/manager.cpp:1111-1122 -/
def reduceSendDataAndRemoveMissing (env : Env) (machines : List MachineID) (message : Message V)
    (m : Manager V) : List MachineID × Manager V :=
  (machines.filter (· ∈ m.neighbors),
    machines.foldl (fun m id => m.atNeighbor id (·.sendMessage env message)) m)

def setGroupData (groupId : TagID) (data : ReduceGroupData V) (m : Manager V) : Manager V :=
  { m with reduceTagData := m.reduceTagData.insert groupId data }

/-- mirrors skywing/skywing_core/manager.cpp:1124-1136 -/
def sendToParents (env : Env) (groupId : TagID) (data : ReduceGroupData V) (message : Message V)
    (m : Manager V) : ReduceGroupData V × Manager V :=
  let (parents, m) := m.reduceSendDataAndRemoveMissing env data.parentMachines message
  let data := { data with parentMachines := parents }
  (data, m.setGroupData groupId data)

/-- mirrors skywing/skywing_core/manager.cpp:1138-1152 -/
def sendToChildren (env : Env) (groupId : TagID) (data : ReduceGroupData V) (message : Message V)
    (m : Manager V) : ReduceGroupData V × Manager V :=
  let (left, m) := m.reduceSendDataAndRemoveMissing env (data.childMachines 0) message
  let (right, m) := m.reduceSendDataAndRemoveMissing env (data.childMachines 1) message
  let data := { data with childMachines := fun i => if i = 0 then left else right }
  (data, m.setGroupData groupId data)

/-- mirrors skywing/skywing_core/manager.cpp:1124-1164, internal/reduce_group.cpp:123-138 -/
def performSend (env : Env) (groupId : TagID) (m : Manager V) (send : Send V) : Except Abort (Manager V) :=
  match m.reduceTagData.lookup groupId with
  | none => .error (.groupMissing groupId)
  | some data =>
    match send with
    | .toParent value version _ =>
      .ok (m.sendToParents env groupId data
        (.submitReduceValue groupId data.group.producedTag (some value) version)).2
    | .toChildren value version =>
      .ok (m.sendToChildren env groupId data
        (.submitReduceValue groupId data.group.producedTag (some value) version)).2
    | .disconnection initiatingMachine id =>
      let message : Message V := .reportReduceDisconnection groupId initiatingMachine id
      let (data, m) := m.sendToParents env groupId data message
      .ok (m.sendToChildren env groupId data message).2
    | .result _ _ _ => .ok m

/-- A group after a call, and the messages the call asks for. -/
def updateGroup (env : Env) (groupId : TagID) (group : ReduceGroup V) (sends : List (Send V)) (m : Manager V) :
    Except Abort (Manager V) :=
  match m.reduceTagData.lookup groupId with
  | none => .error (.groupMissing groupId)
  | some data => sends.foldlM (performSend env groupId) (m.setGroupData groupId { data with group := group })

/-! ## Finalising tags -/

/-- mirrors skywing/skywing_core/manager.cpp:1617-1632 -/
def finalizeSubscription (env : Env) (tags : Str) (source : Nat) (m : Manager V) : Manager V :=
  let tagsToSubTo := split tags nul 0
  { m with
    tagToMachine := tagsToSubTo.foldl (fun bound tag => bound.insert tag source) m.tagToMachine
    finalized := m.finalized ++ tagsToSubTo.map (Finalized.subscription · source) }.atPtr source
    (·.sendMessage env (.subscriptionNotice tagsToSubTo false))

/-- mirrors skywing/skywing_core/manager.hpp:641-651 -/
def groupFromParentTag (env : Env) (m : Manager V) (parentTag : TagID) :
    Except Abort (Σ _ : TagID, ReduceGroupData V) :=
  match (env.order m.reduceTagData.entries).find? fun e => e.2.group.tagNeighbors.parent = parentTag with
  | some e => .ok e
  | none => .error (.groupFromParentTag parentTag)

/-- mirrors skywing/skywing_core/manager.cpp:1572-1583 -/
def finalizeReduceGroup (env : Env) (parentMachineId : MachineID) (groupTag : TagID) (m : Manager V) :
    Except Abort (Manager V) :=
  match m.reduceTagData.lookup groupTag with
  | none => .error (.groupMissing groupTag)
  | some data =>
    if parentMachineId ∈ m.neighbors then
      .ok ((m.setGroupData groupTag { data with parentMachines := data.parentMachines ++ [parentMachineId] }).atNeighbor
        parentMachineId (·.sendMessage env (.joinReduceGroup groupTag data.group.producedTag)))
    else .error (.neighborMissing parentMachineId)

/-- `finalize_reduce_group(id, group_from_parent_tag(tag).first)` -/
def finalizeParentTag (env : Env) (parentMachineId : MachineID) (m : Manager V) (tag : TagID) :
    Except Abort (Manager V) := do
  let e ← m.groupFromParentTag env tag
  let m ← m.finalizeReduceGroup env parentMachineId e.1
  return { m with finalized := m.finalized ++ [.reduceGroup tag e.1] }

/-- One finalisation for each tag of a list of parent tags. -/
def finalizeParentTags (env : Env) (parentMachineId : MachineID) (tags : Str) (m : Manager V) :
    Except Abort (Manager V) :=
  (split tags nul 0).foldlM (finalizeParentTag env parentMachineId) m

/-! ## Connections for pending tags -/

/-- What `init_connections_for_pending_tags` does with a pending tag. -/
inductive Route
  | selfProduced
  | keep
  | finalize (ptr : Nat) (id : MachineID)
  | connect (address : Str)
  deriving DecidableEq, Repr

/-- mirrors skywing/skywing_core/manager.cpp:1242-1273 -/
def route (env : Env) (m : Manager V) (tag : TagID) : Except Abort Route :=
  if tag ∈ m.selfSubCount then .ok .selfProduced
  else
    match (env.order ((m.publishersForTag.lookup tag).getD [])).head? with
    | none => .ok .keep
    | some ⟨address, connectToId⟩ =>
      match m.addrToMachine.lookup (splitAddress address) with
      | none => .ok (.connect address)
      | some ptr => do
        let e ← m.deref ptr
        return if e.id ≠ connectToId then .keep else .finalize e.ptr e.id

/-- The dispatch for a publisher that is connected.
mirrors skywing/skywing_core/manager.cpp:1281-1288 -/
def finalizePending (env : Env) (ptr : Nat) (id : MachineID) (tag : TagID) (m : Manager V) :
    Except Abort (Manager V) :=
  if marker tag = publishTagMarker then .ok (m.finalizeSubscription env tag ptr)
  else m.finalizeParentTags env id tag

/-- The locals of the first loop, and the pending tags it leaves. -/
structure InitLoop (V : Type) where
  m : Manager V
  kept : List TagID
  toConn : AList fun _ : Str => Str

/-- mirrors skywing/skywing_core/manager.cpp:1294-1301 -/
def addToConn (toConn : AList fun _ : Str => Str) (address : Str) (tag : TagID) : AList fun _ : Str => Str :=
  toConn.insert address (match toConn.lookup address with
    | none => tag
    | some tagList => appendTag tagList tag)

/-- mirrors skywing/skywing_core/manager.cpp:1240-1308 -/
def initTag (env : Env) (s : InitLoop V) (tag : TagID) : Except Abort (InitLoop V) := do
  match ← s.m.route env tag with
  | .selfProduced => return { s with m := s.m.countSelfSubscription tag }
  | .keep => return { s with kept := s.kept ++ [tag] }
  | .finalize ptr id =>
    let m ← s.m.finalizePending env ptr id tag
    return { s with m := m }
  | .connect address => return { s with toConn := addToConn s.toConn address tag }

/-- A port that is taken costs the connection its socket, which goes with the
entry that was not inserted.
mirrors skywing/skywing_core/manager.cpp:1316-1334 -/
def insertPending : Nat → AddrPort → PendingInfo → Manager V → Except Abort (Manager V)
  | 0, _, _, _ => .error .noFreePort
  | tries + 1, (host, port), info, m =>
    if (host, port) ∈ m.pendingConns then insertPending tries (host, port + 1) { info with conn := false } m
    else .ok { m with pendingConns := m.pendingConns.insert (host, port) info }

/-- mirrors skywing/skywing_core/manager.cpp:1325 -/
def connTypeOf (tag : Str) : ConnType := if marker tag = publishTagMarker then .subscription else .reduceGroup

/-- mirrors skywing/skywing_core/manager.cpp:1309-1336 -/
def startConnection (env : Env) (m : Manager V) (e : Σ _ : Str, Str) : Except Abort (Manager V) := do
  let err ← connectNonBlocking env e.1
  if err = .connectionInProgress ∨ err = .noError then
    m.insertPending (2 ^ 16) (splitAddress e.1) ⟨true, .waitingForConn, connTypeOf e.2, e.2⟩
  else return m

/-- mirrors skywing/skywing_core/manager.cpp:1226-1338 -/
def initConnections (env : Env) (m : Manager V) : Except Abort (Manager V) := do
  let s ← m.pendingTags.foldlM (initTag env) ⟨m, [], ∅⟩
  let m ← (env.order s.toConn.entries).foldlM (startConnection env) s.m
  return { m with pendingTags := s.kept }

/-! ## Pending connections -/

/-- mirrors skywing/skywing_core/manager.cpp:453-476 -/
def acceptConnection : Nat → AddrPort → Manager V → Except Abort (Manager V)
  | 0, _, _ => .error .noFreePort
  | tries + 1, (address, port), m =>
    if (address, port) ∈ m.pendingConns then acceptConnection tries (address, port + 1) m
    else .ok { m with
      pendingConns := m.pendingConns.insert (address, port) ⟨true, .waitingForConn, .userRequested, []⟩ }

/-- mirrors skywing/skywing_core/manager.cpp:1376-1393 -/
def handleTag (pubTag baseTag : TagID) (m : Manager V) : Except Abort (Manager V) :=
  match m.publishersForTag.lookup pubTag with
  | none => .error (.publishersMissing pubTag)
  | some publishers =>
    let m := if publishers.isEmpty then
        m.mapNeighbors fun e => { e with ignoreCacheOnNextRequest := true }
      else m
    .ok { m with pendingTags := m.pendingTags ++ [baseTag] }

/-- The manager, and whether tags became pending.
mirrors skywing/skywing_core/manager.cpp:1375-1420 -/
def handleError (env : Env) (info : PendingInfo) (m : Manager V) : Except Abort (Manager V × Bool) := do
  match info.type with
  | .byAccept | .userRequested | .specificIp => return (m, false)
  | .subscription => return (← (split info.tag nul 0).foldlM (fun m tag => m.handleTag tag tag) m, true)
  | .reduceGroup =>
    let m ← (split info.tag nul 0).foldlM (fun m tag => do
      let e ← m.groupFromParentTag env tag
      m.handleTag e.2.group.tagNeighbors.parent tag) m
    return (m, true)

/-- What a pending connection shows when it is looked at. -/
inductive ConnEvent (V : Type)
  /-- nothing yet: in progress, would block, or not all of a message -/
  | quiet
  /-- the connection stands; the handshake is sent, with this result -/
  | connected (send : ConnectionError)
  | failed
  /-- the length of the greeting cannot be read -/
  | readError
  | badMessage
  | message (msg : Message V) (ip : Str)

/-- A connection is connecting or waits for the greeting, and without a
socket it never gets on. -/
def ConnEvent.possible (info : PendingInfo) : ConnEvent V → Bool
  | .quiet => true
  | .connected _ | .failed => info.conn && info.status == .waitingForConn
  | .readError | .badMessage | .message _ _ => info.conn && info.status == .waitingForResp

/-- The record for a greeting.
mirrors skywing/skywing_core/manager.cpp:1475-1491 -/
def greet (env : Env) (sender : MachineID) (neighbors : List MachineID) (port : UInt16) (ip : Str)
    (m : Manager V) : ExternalManager V × Manager V :=
  match m.neighbors.lookup sender with
  | some e => (e.addCommunicator ip, m.atNeighbor sender (addCommunicator ip))
  | none =>
    let e := ExternalManager.create env m.nextPtr ip sender neighbors port
    (e, { m with
      neighbors := m.neighbors.insert sender e
      addrToMachine := m.addrToMachine.insertNew (e.addressPair env) e.ptr
      nextPtr := m.nextPtr + 1 })

def erasePending (key : AddrPort) (m : Manager V) : Manager V := { m with pendingConns := m.pendingConns.erase key }

/-- The dispatch for a connection that is complete; `none` where the
expected address does not match.
mirrors skywing/skywing_core/manager.cpp:1498-1535 -/
def finalizeConnection (env : Env) (info : PendingInfo) (e : ExternalManager V) (m : Manager V) :
    Except Abort (Option (Manager V)) := do
  match info.type with
  | .byAccept | .userRequested => return some m
  | .reduceGroup => return some (← m.finalizeParentTags env e.id info.tag)
  | .subscription => return some (m.finalizeSubscription env info.tag e.ptr)
  | .specificIp =>
    match split info.tag nul 2 with
    | [expectedIp, tags] =>
      return if e.address env .expectedIp ≠ expectedIp then none else some (m.finalizeSubscription env tags e.ptr)
    | _ => throw .ipAndTag

/-- mirrors skywing/skywing_core/manager.cpp:1474-1543 -/
def handleGreeting (env : Env) (key : AddrPort) (info : PendingInfo) (sender : MachineID)
    (neighbors : List MachineID) (port : UInt16) (ip : Str) (m : Manager V) : Except Abort (Manager V) := do
  let (e, m) := m.greet env sender neighbors port ip
  match ← m.finalizeConnection env info e with
  | none => return (m.atPtr e.ptr markAsDead).erasePending key
  | some m => return ((m.notifyOfNewNeighbor env sender).findPublishersForPendingTags env false).erasePending key

/-- A connection that failed before or after the handshake.
mirrors skywing/skywing_core/manager.cpp:1454-1456, 1553-1555 -/
def dropConnection (env : Env) (key : AddrPort) (info : PendingInfo) (m : Manager V) :
    Except Abort (Manager V × Bool) := do
  let (m, newTags) ← m.handleError env info
  return (m.erasePending key, newTags)

/-- The manager, and whether tags became pending.
mirrors skywing/skywing_core/manager.cpp:1421-1559 -/
def processConn (env : Env) (key : AddrPort) (info : PendingInfo) (event : ConnEvent V) (m : Manager V) :
    Except Abort (Manager V × Bool) := do
  match event with
  | .quiet => return (m, false)
  | .connected send =>
    -- the tags of a connection whose handshake cannot be sent go with it
    if send ≠ .noError then return (m.erasePending key, false)
    return ({ m with pendingConns := m.pendingConns.insert key { info with status := .waitingForResp } }, false)
  | .failed | .readError | .badMessage => m.dropConnection env key info
  | .message (.greeting sender neighbors port) ip =>
    return (← m.handleGreeting env key info sender neighbors port ip, false)
  | .message _ _ => m.dropConnection env key info

/-! ## Dead neighbours -/

/-- The lists `scan_lists` goes through. -/
def machineList (data : ReduceGroupData V) : Fin 3 → List MachineID
  | 0 => data.parentMachines
  | 1 => data.childMachines 0
  | 2 => data.childMachines 1

def setMachineList (data : ReduceGroupData V) (i : Fin 3) (l : List MachineID) : ReduceGroupData V :=
  match i with
  | 0 => { data with parentMachines := l }
  | 1 => { data with childMachines := Function.update data.childMachines 0 l }
  | 2 => { data with childMachines := Function.update data.childMachines 1 l }

/-- One list of one group.
mirrors skywing/skywing_core/manager.cpp:626-635 -/
def leaveList (env : Env) (id : MachineID) (groupId : TagID) (m : Manager V) (i : Fin 3) :
    Except Abort (Manager V) :=
  match m.reduceTagData.lookup groupId with
  | none => .error (.groupMissing groupId)
  | some data =>
    if id ∈ machineList data i then
      let data := setMachineList data i ((machineList data i).erase id)
      let (group, sends) := data.group.reportDisconnection m.id (env.prng groupId i)
      (m.setGroupData groupId data).updateGroup env groupId group sends
    else .ok m

/-- mirrors skywing/skywing_core/manager.cpp:622-636 -/
def leaveGroups (env : Env) (id : MachineID) (m : Manager V) : Except Abort (Manager V) :=
  (env.order m.reduceTagData.entries).foldlM (fun m e => [0, 1, 2].foldlM (leaveList env id e.1) m) m

/-- The tags bound to a record, in the order they are erased. -/
def tagsOf (env : Env) (m : Manager V) (ptr : Nat) : List TagID :=
  ((env.order m.tagToMachine.entries).filter fun e => e.2 = ptr).map (·.1)

/-- The manager, and whether tags became pending.
mirrors skywing/skywing_core/manager.cpp:612-661 -/
def removeNeighbor (env : Env) (id : MachineID) (m : Manager V) : Except Abort (Manager V × Bool) := do
  match m.neighbors.lookup id with
  | none => return (m, false)
  | some e =>
    if !e.dead then return (m, false)
    let m ← (m.sendToNeighbors env (.removeNeighbor id)).leaveGroups env id
    let tags := m.tagsOf env e.ptr
    return ({ m with
      addrToMachine := m.addrToMachine.eraseVal (· = e.ptr)
      tagToMachine := m.tagToMachine.eraseVal (· = e.ptr)
      jobs := m.jobs.mapVal fun _ job => tags.foldl Job.markTagAsDead job
      pendingTags := m.pendingTags ++ tags
      neighbors := m.neighbors.erase id
      removed := m.removed ++ [e] }, !tags.isEmpty)

end Manager

end Skywing.L3
