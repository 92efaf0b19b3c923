import Skywing.Core.LTS
import Skywing.L3Protocol.ManagerMessages

/-!
# The main loop of a manager

`Manager::run` (`skywing_core/manager.cpp`) and the calls that jobs make
between its passes. A pass goes through the pending connections, accepts new
ones, handles the messages of each neighbour, removes the dead neighbours,
asks for the publishers that are still missing and sends heartbeats; `Pc` is
where it stands. A call from a job takes `job_mut_` and so falls between two
passes. Each connection looked at, each message handled, each neighbour
removed and each attempt to connect for the pending tags is a step, with the
answers of the machine below in its label.

Jobs are there from the start; what a job does to its own buffers is left out.
-/
namespace Skywing.L4

open L3
open L3.Manager (ConnEvent Handled)
open L3.ExternalManager (markAsDead)

/-- Where the main loop stands. -/
inductive Pc
  /-- between two passes -/
  | idle
  /-- in `process_pending_conns`, with the connections still to be looked at -/
  | conns (todo : List AddrPort) (newTags : Bool)
  /-- before its `init_connections_for_pending_tags` -/
  | connsInit
  | accepting
  /-- in `handle_neighbor_messages`: the neighbour that is read from -/
  | messages (current : Option MachineID) (todo : List MachineID)
  /-- before the `init_connections_for_pending_tags` after a report -/
  | reportInit (current : MachineID) (todo : List MachineID)
  /-- in `remove_dead_neighbors` -/
  | removing (todo : List MachineID) (newTags : Bool)
  deriving DecidableEq, Repr

inductive Sys (V : Type)
  | running (pc : Pc) (m : Manager V)
  | aborted (a : Abort)

/-- The labels up to `publish` are calls from jobs. -/
inductive Label (V : Type)
  | subscribe (tagIds : List TagID) (env : Env)
  | ipSubscribe (addr : AddrPort) (tagIds : List TagID) (env : Env)
  | connectToServer (addr : AddrPort) (env : Env)
  | reportNewPublishTags (tags : List TagID)
  | createReduceGroup (group : ReduceGroup V) (env : Env)
  | rebuildReduceGroup (groupId : TagID) (env : Env)
  | reduce (groupId : TagID) (isAllReduce : Bool) (reduceOp : V → V → V) (value : V) (env : Env)
  | publish (version : VersionID) (tag : TagID) (value : V) (env : Env)
  | beginPass (env : Env)
  | conn (event : ConnEvent V) (env : Env)
  | endConns (env : Env)
  | init (env : Env)
  | accept (addr : AddrPort)
  | endAccept (env : Env)
  | nextNeighbor
  | message (msg : Message V) (env : Env)
  | readError
  | endMessages (env : Env)
  | remove (env : Env)
  | endPass (env : Env)

/-- Which label is which phase's; a connection only shows what its state
allows. -/
def Label.enabled {V : Type} : Label V → Pc → Manager V → Bool
  | .subscribe _ _, .idle, _ | .ipSubscribe _ _ _, .idle, _ | .connectToServer _ _, .idle, _
  | .reportNewPublishTags _, .idle, _ | .createReduceGroup _ _, .idle, _ | .rebuildReduceGroup _ _, .idle, _
  | .reduce _ _ _ _ _, .idle, _ | .publish _ _ _ _, .idle, _ | .beginPass _, .idle, _ => true
  | .conn event _, .conns (key :: _) _, m => (m.pendingConns.lookup key).any event.possible
  | .endConns _, .conns [] _, _ => true
  | .init _, .connsInit, _ | .init _, .reportInit _ _, _ => true
  | .accept _, .accepting, _ | .endAccept _, .accepting, _ => true
  | .nextNeighbor, .messages _ (_ :: _), _ => true
  | .message _ _, .messages (some _) _, _ | .readError, .messages (some _) _, _ => true
  | .endMessages _, .messages _ [], _ => true
  | .remove _, .removing (_ :: _) _, _ => true
  | .endPass _, .removing [] _, _ => true
  | _, _, _ => false

variable {V : Type} [Typed V]

/-- One message of the current neighbour.
mirrors skywing/skywing_core/manager.cpp:40-48, 355-362 -/
def handleNext (env : Env) (id : MachineID) (todo : List MachineID) (msg : Message V) (m : Manager V) :
    Except Abort (Pc × Manager V) := do
  let m := m.atNeighbor id (·.hear env msg)
  match m.neighbors.lookup id with
  | none => throw (.neighborMissing id)
  | some sender =>
    let (handled, m) ← m.handleMessage env sender msg
    match handled with
    | .accepted => return (.messages (some id) todo, m)
    | .rejected => return (.messages (some id) todo, m.atNeighbor id markAsDead)
    | .reported => return (.reportInit id todo, m)

/-- What a step does, where its label is enabled.
mirrors skywing/skywing_core/manager.cpp:490-555 -/
def act : Label V → Pc → Manager V → Except Abort (Pc × Manager V)
  | .subscribe tagIds env, pc, m => .ok (pc, m.subscribe env tagIds)
  | .ipSubscribe addr tagIds env, pc, m => do return (pc, ← m.ipSubscribe env addr tagIds)
  | .connectToServer addr env, pc, m => do return (pc, ← m.connectToServer env addr)
  | .reportNewPublishTags tags, pc, m => do return (pc, ← m.reportNewPublishTags tags)
  | .createReduceGroup group env, pc, m => do return (pc, ← m.createReduceGroup env group)
  | .rebuildReduceGroup groupId env, pc, m =>
    match m.reduceTagData.lookup groupId with
    | none => .error (.groupMissing groupId)
    | some data => do
      let m := m.setGroupData groupId { data with group := data.group.rebuild }
      return (pc, ← m.rebuildReduceGroup env groupId)
  | .reduce groupId isAllReduce reduceOp value env, pc, m =>
    match m.reduceTagData.lookup groupId with
    | none => .error (.groupMissing groupId)
    | some data =>
      match data.group.reduceImpl isAllReduce reduceOp value with
      | none => .error .bufferMissing
      | some (_, group, sends) => do return (pc, ← m.updateGroup env groupId group sends)
  | .publish version tag value env, pc, m => do return (pc, ← m.publish env version tag value)
  | .beginPass env, _, m => .ok (.conns ((env.order m.pendingConns.entries).map (·.1)) false, m)
  | .conn event env, .conns (key :: todo) newTags, m =>
    match m.pendingConns.lookup key with
    | none => .ok (.conns todo newTags, m)
    | some info => do
      let (m, new) ← m.processConn env key info event
      return (.conns todo (newTags || new), m)
  | .endConns env, .conns [] newTags, m =>
    .ok (if newTags then (.connsInit, m.findPublishersForPendingTags env false) else (.accepting, m))
  | .init env, .connsInit, m => do return (.accepting, ← m.initConnections env)
  | .init env, .reportInit id todo, m => do
    let m ← m.initConnections env
    return (.messages (some id) todo, m.atNeighbor id (·.requestAnswered env))
  | .accept addr, pc, m => do return (pc, ← m.acceptConnection (2 ^ 16) addr)
  | .endAccept env, _, m => .ok (.messages none ((env.order m.neighbors.entries).map (·.1)), m)
  | .nextNeighbor, .messages _ (id :: todo), m =>
    -- a dead neighbour is not read from; one that dies while it is read from is
    .ok (.messages (if (m.neighbors.lookup id).any (!·.dead) then some id else none) todo, m)
  | .message msg env, .messages (some id) todo, m => handleNext env id todo msg m
  | .readError, .messages (some id) todo, m => .ok (.messages (some id) todo, m.atNeighbor id markAsDead)
  | .endMessages env, _, m => .ok (.removing ((env.order m.neighbors.entries).map (·.1)) false, m)
  | .remove env, .removing (id :: todo) newTags, m => do
    let (m, new) ← m.removeNeighbor env id
    return (.removing todo (newTags || new), m)
  | .endPass env, .removing _ newTags, m =>
    let m := if newTags then m.findPublishersForPendingTags env true else m
    let m := m.findPublishersForPendingTags env false
    .ok (.idle, m.mapNeighbors (·.sendHeartbeatIfPastInterval env m.heartbeatInterval))
  | _, pc, m => .ok (pc, m)

def step : Sys V → Label V → Option (Sys V)
  | .running pc m, l =>
    if l.enabled pc m then
      some (match act l pc m with
        | .ok (pc, m) => .running pc m
        | .error a => .aborted a)
    else none
  | .aborted _, _ => none

/-- A manager that has just been built, with the jobs submitted to it. -/
def Initial (s : Sys V) : Prop :=
  ∃ port id interval jobs, s = .running .idle { Manager.create port id interval with jobs := jobs }

def lts (V : Type) [Typed V] : LTS (Sys V) (Label V) := LTS.ofFn Initial step

/-! ## Steps and invariants -/

/-- A step that goes on: the label is enabled and its action returns. -/
theorem step_running {pc pc' : Pc} {m m' : Manager V} {l : Label V}
    (h : step (.running pc m) l = some (.running pc' m')) :
    l.enabled pc m = true ∧ act l pc m = .ok (pc', m') := by
  by_cases he : l.enabled pc m = true
  · simp only [step, if_pos he, Option.some.injEq] at h
    cases ha : act l pc m with
    | ok r => rw [ha] at h; cases h; exact ⟨he, rfl⟩
    | error a => rw [ha] at h; cases h
  · simp [step, he] at h

theorem step_of_act {pc pc' : Pc} {m m' : Manager V} {l : Label V} (he : l.enabled pc m = true)
    (ha : act l pc m = .ok (pc', m')) : step (.running pc m) l = some (.running pc' m') := by
  simp [step, he, ha]

/-- A step that ends the program. -/
theorem step_aborted {pc : Pc} {m : Manager V} {l : Label V} {a : Abort}
    (h : step (.running pc m) l = some (.aborted a)) :
    l.enabled pc m = true ∧ act l pc m = .error a := by
  by_cases he : l.enabled pc m = true
  · simp only [step, if_pos he, Option.some.injEq] at h
    cases ha : act l pc m with
    | ok r => rw [ha] at h; cases h
    | error b => rw [ha] at h; cases h; exact ⟨he, rfl⟩
  · simp [step, he] at h

/-- What holds of every manager on the way: `P`, and the program never stops
for a reason outside `E`. -/
def Holds (P : Pc → Manager V → Prop) (E : Abort → Prop) : Sys V → Prop
  | .running pc m => P pc m
  | .aborted a => E a

/-- The invariant rule: it is enough to look at what an enabled label does. -/
theorem holds_inductive {P : Pc → Manager V → Prop} {E : Abort → Prop} {C : Sys V → Label V → Prop}
    (h0 : ∀ port id interval jobs, P .idle { Manager.create port id interval with jobs := jobs })
    (hstep : ∀ pc m l, l.enabled pc m = true → C (.running pc m) l → P pc m →
      (act l pc m).Ends (fun r => P r.1 r.2) E) :
    ((lts V).restrict C).Inductive (Holds P E) where
  init := by
    intro s hex
    obtain ⟨port, id, interval, jobs, rfl⟩ := hex
    exact h0 port id interval jobs
  step := by
    intro s l t hs hst
    obtain ⟨hst, hC⟩ := hst
    cases s with
    | aborted a => cases hst
    | running pc m =>
      cases t with
      | running pc' m' =>
        obtain ⟨he, ha⟩ := step_running hst
        exact (hstep pc m l he hC hs).of_ok ha
      | aborted a =>
        obtain ⟨he, ha⟩ := step_aborted hst
        exact (hstep pc m l he hC hs).of_error ha

end Skywing.L4
