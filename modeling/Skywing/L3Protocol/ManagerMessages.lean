import Skywing.L3Protocol.Manager

/-!
# Messages to a manager

`ExternalManager::handle_message` and the handlers of `Manager` it calls
(`skywing_core/manager.cpp`). A handler that rejects its message leaves the
neighbour dead. A report of publishers ends in a new attempt to connect for
the pending tags, which is a step of its own (`Handled.reported`).
-/
namespace Skywing.L3

open L1.Text L2.Socket ExternalManager

namespace Manager

variable {V : Type}

/-! ## The search for publishers -/

/-- The first loop is over two lists at once and ends where both end.
mirrors skywing/skywing_core/manager.cpp:822-847 -/
def removeTagsWithEnoughPublishers (m : Manager V) (tags : List TagID) (publishersNeeded : List UInt8) :
    Except Abort (List (TagID × UInt8)) :=
  if tags.length ≠ publishersNeeded.length then .error .outOfBounds
  else
    let enough (tag : TagID) (numLeft : UInt8) : Bool :=
      numLeft.toNat ≤ ((m.publishersForTag.lookup tag).getD []).length + if tag ∈ m.selfSubCount then 1 else 0
    .ok ((tags.zip publishersNeeded).filter fun t => !enough t.1 t.2)

/-- mirrors skywing/skywing_core/manager.cpp:928-949 -/
def makeKnownTagPublisherMessage (env : Env) (m : Manager V) : Message V :=
  let known := (env.order m.publishersForTag.entries).filter fun e => !e.2.isEmpty
  .reportPublishers (known.map (·.1)) (known.map fun e => (env.order e.2).map (·.address))
    (known.map fun e => (env.order e.2).map (·.machineId)) (m.localTags env)

def sendKnownPublishers (env : Env) (id : MachineID) (m : Manager V) : Manager V :=
  m.atNeighbor id (·.sendMessage env (m.makeKnownTagPublisherMessage env))

/-- mirrors skywing/skywing_core/manager.cpp:770-774 -/
def markInCache (ignoreCache : Bool) (tags : List TagID) (m : Manager V) : Manager V :=
  { m with publishersForTag := tags.foldl (fun known tag =>
      known.insert tag (if ignoreCache then [] else (known.lookup tag).getD [])) m.publishersForTag }

/-- mirrors skywing/skywing_core/manager.cpp:791-795 -/
def markPropagation (id : MachineID) (tags : List TagID) (m : Manager V) : Manager V :=
  { m with sendPublisherInformationTo := tags.foldl (fun waiting tag =>
      waiting.insert tag (((waiting.lookup tag).getD []).insert id)) m.sendPublisherInformationTo }

/-- `sender` is the record the request came from.
mirrors skywing/skywing_core/manager.cpp:756-820 -/
def handleGetPublishers (env : Env) (sender : ExternalManager V) (tags : List TagID)
    (publishersNeeded : List UInt8) (ignoreCache : Bool) (m : Manager V) : Except Abort (Manager V) := do
  let remaining ← m.removeTagsWithEnoughPublishers tags publishersNeeded
  if remaining.isEmpty then return m.sendKnownPublishers env sender.id
  let m := m.markInCache ignoreCache (remaining.map (·.1))
  if m.neighbors.entries.length = 1 then return m.sendKnownPublishers env sender.id
  let m := m.markPropagation sender.id (remaining.map (·.1))
  if sender.pendingTagRequest then
    let m := m.sendKnownPublishers env sender.id
    -- the keys are tags, not machines
    return { m with sendPublisherInformationTo := m.sendPublisherInformationTo.erase sender.id }
  return m.mapNeighbors fun e =>
    if e.ptr ≠ sender.ptr then
      (e.resetBackoffCounter env).findPublishersForTags env (remaining.map (·.1)) (remaining.map (·.2))
    else e

/-- `unordered_set::emplace` of each element. -/
def addPublishers (infos : List PublisherInfo) (tag : TagID) (m : Manager V) : Manager V :=
  let known := (m.publishersForTag.lookup tag).getD []
  let known := infos.foldl (fun known info => if info ∈ known then known else known ++ [info]) known
  { m with publishersForTag := m.publishersForTag.insert tag known }

/-- mirrors skywing/skywing_core/manager.cpp:874-889 -/
def addReported (m : Manager V) (entry : TagID × List Str × List MachineID) : Except Abort (Manager V) :=
  if entry.2.1.length ≠ entry.2.2.length then .error .sizeMismatch
  else .ok (m.addPublishers ((entry.2.1.zip entry.2.2).map fun p => ⟨p.1, p.2⟩) entry.1)

/-- Who waits for a report, for a tag that is known of.
mirrors skywing/skywing_core/manager.cpp:906-914 -/
def machinesToSendTo (env : Env) (m : Manager V) : List MachineID :=
  ((env.order m.publishersForTag.entries).flatMap fun e =>
    (m.sendPublisherInformationTo.lookup e.1).getD []).dedup

/-- mirrors skywing/skywing_core/manager.cpp:903-924 -/
def propagate (env : Env) (m : Manager V) : Manager V :=
  let machines := m.machinesToSendTo env
  let waiting := m.publishersForTag.keys.foldl (fun w tag => w.erase tag) m.sendPublisherInformationTo
  (env.order machines).foldl (fun m id => m.sendKnownPublishers env id)
    { m with sendPublisherInformationTo := waiting }

/-- All but the new attempt to connect; `false` where the report is ignored.
mirrors skywing/skywing_core/manager.cpp:849-926 -/
def addPublishersAndPropagate (env : Env) (sender : ExternalManager V) (tags : List TagID)
    (addresses : List (List Str)) (machines : List (List MachineID)) (locallyProducedTags : List TagID)
    (m : Manager V) : Except Abort (Manager V × Bool) := do
  if tags.length ≠ addresses.length ∨ tags.length ≠ machines.length then return (m, false)
  let m ← (tags.zip (addresses.zip machines)).foldlM addReported m
  let m := locallyProducedTags.foldl
    (fun m tag => m.addPublishers [⟨sender.address env (.publisher tag), sender.id⟩] tag) m
  return (m.propagate env, true)

/-! ## Reduce groups -/

/-- mirrors skywing/skywing_core/manager.cpp:1058-1102 -/
def handleJoinReduceGroup (sender : ExternalManager V) (reduceTag tagProduced : TagID) (m : Manager V) :
    Bool × Manager V :=
  match m.reduceTagData.lookup reduceTag with
  | none => (false, m)
  | some data =>
    let join (i : Fin 2) : Bool × Manager V :=
      -- what is looked for among the machines is the tag
      if tagProduced ∈ data.childMachines i then
        (false, m.setGroupData reduceTag { data with
          childMachines := Function.update data.childMachines i ((data.childMachines i).erase tagProduced) })
      else
        (true, m.setGroupData reduceTag { data with
          childMachines := Function.update data.childMachines i (data.childMachines i ++ [sender.id]) })
    if tagProduced = data.group.tagNeighbors.leftChild then join 0
    else if tagProduced = data.group.tagNeighbors.rightChild then join 1
    else (false, m)

variable [Typed V]

/-- mirrors skywing/skywing_core/manager.cpp:1166-1202 -/
def handleReduceValue (env : Env) (reduceTag tag : TagID) (value : Option V) (version : VersionID)
    (m : Manager V) : Except Abort (Bool × Manager V) :=
  match m.reduceTagData.lookup reduceTag, value with
  | some data, some value =>
    match data.group.addData tag value version with
    | none => .error .bufferMissing
    | some (accepted, group, sends) => do return (accepted, ← m.updateGroup env reduceTag group sends)
  | _, _ => .ok (false, m)

omit [Typed V] in
/-- mirrors skywing/skywing_core/manager.cpp:1204-1224 -/
def handleReportReduceDisconnection (env : Env) (reduceTag : TagID) (initiatingMachine : MachineID)
    (id : ReductionDisconnectID) (m : Manager V) : Except Abort (Bool × Manager V) :=
  match m.reduceTagData.lookup reduceTag with
  | none => .ok (false, m)
  | some data => do
    let (group, sends) := data.group.propagateDisconnection initiatingMachine id
    return (true, ← m.updateGroup env reduceTag group sends)

/-! ## Values -/

/-- One job is given a value.
mirrors skywing/skywing_core/manager.cpp:584-587, 1606-1609 -/
def processData (tag : TagID) (value : V) (version : VersionID) (s : Bool × Manager V)
    (e : Σ _ : JobID, Job V) : Except Abort (Bool × Manager V) :=
  match e.2.processData tag value version with
  | none => .error .bufferMissing
  | some (accepted, job) => .ok (s.1 && accepted, { s.2 with jobs := s.2.jobs.insert e.1 job })

/-- mirrors skywing/skywing_core/manager.cpp:1594-1615 -/
def handlePublishData (env : Env) (tag : TagID) (value : Option V) (version : VersionID) (m : Manager V) :
    Except Abort (Bool × Manager V) :=
  match value with
  | none => .ok (false, m)
  | some value => (env.order m.jobs.entries).foldlM (processData tag value version) (true, m)

/-- mirrors skywing/skywing_core/manager.cpp:580-590 -/
def publish (env : Env) (version : VersionID) (tag : TagID) (value : V) (m : Manager V) :
    Except Abort (Manager V) := do
  let (_, m) ← (env.order m.jobs.entries).foldlM (processData tag value version) (true, m)
  return m.sendToNeighborsIf env (.publishData tag (some value) version) fun e => e.isSubscribedTo tag

/-! ## The dispatch -/

/-- How a message was taken. -/
inductive Handled
  | accepted
  | rejected
  /-- a report: connections for the pending tags come next -/
  | reported
  deriving DecidableEq, Repr

def Handled.ofBool : Bool → Handled
  | true => .accepted
  | false => .rejected

/-- `sender` is the record the message came from.
mirrors skywing/skywing_core/manager.cpp:205-363 -/
def handleMessage (env : Env) (sender : ExternalManager V) (msg : Message V) (m : Manager V) :
    Except Abort (Handled × Manager V) := do
  match msg with
  | .greeting _ _ _ => return (.rejected, m)
  | .goodbye => return (.accepted, m.atNeighbor sender.id markAsDead)
  | .newNeighbor id => return (.accepted, m.atNeighbor sender.id (·.handleNewNeighbor id))
  | .removeNeighbor id => return (.accepted, m.atNeighbor sender.id (·.handleRemoveNeighbor id))
  | .heartbeat => return (.accepted, m)
  | .reportPublishers tags addresses machines locallyProducedTags =>
    if !(tags.all tagNameOkay && locallyProducedTags.all tagNameOkay) then return (.rejected, m)
    let (m, propagated) ← m.addPublishersAndPropagate env sender tags addresses machines locallyProducedTags
    return if propagated then (.reported, m) else (.accepted, m.atNeighbor sender.id (·.requestAnswered env))
  | .getPublishers tags publishersNeeded ignoreCache =>
    if !tags.all tagNameOkay then return (.rejected, m)
    return (.accepted, ← m.handleGetPublishers env sender tags publishersNeeded ignoreCache)
  | .joinReduceGroup reduceTag tagProduced =>
    if !(tagNameOkay reduceTag && tagNameOkay tagProduced) then return (.rejected, m)
    let (accepted, m) := m.handleJoinReduceGroup sender reduceTag tagProduced
    return (.ofBool accepted, m)
  | .submitReduceValue reduceTag tag value version =>
    if !(tagNameOkay reduceTag && tagNameOkay tag) then return (.rejected, m)
    let (accepted, m) ← m.handleReduceValue env reduceTag tag value version
    return (.ofBool accepted, m)
  | .reportReduceDisconnection reduceTag initiatingMachine id =>
    if !tagNameOkay reduceTag then return (.rejected, m)
    let (accepted, m) ← m.handleReportReduceDisconnection env reduceTag initiatingMachine id
    return (.ofBool accepted, m)
  | .publishData tag value version =>
    if !tagNameOkay tag then return (.rejected, m)
    let (accepted, m) ← m.handlePublishData env tag value version
    return (.ofBool accepted, m)
  | .subscriptionNotice tags _ =>
    let (subs, reject) := noteSubscriptions sender.remoteSubscriptions tags
    let m := m.atNeighbor sender.id ({ · with remoteSubscriptions := subs })
    return (.ofBool (reject.isNone && tags.all (· ∈ m.selfSubCount)), m)

end Manager

end Skywing.L3
