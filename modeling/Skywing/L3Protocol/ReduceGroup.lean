import Mathlib.Data.List.AList
import Skywing.Core.Types
import Skywing.L2Machine.TagBuffer
import Skywing.L3Protocol.Job

/-!
# Reduce groups

`skywing_core/internal/reduce_group.hpp`, `reduce_group.cpp`: one
participant of a reduce group. A submitted operation gets the version after
the last one sent and waits in `pending_reduces_` until both children have
sent a value that is new enough; its result goes to the parent, or at the
root into `data_buffers_[0]` and, for an allreduce, to the children.

What an operation sends is returned as a list of `Send`s. Locks are taken
around whole operations, so an operation is one step. `submitted`, and the
`seq` of a pending operation or of a `Send`, number the submissions; they
are history and nothing reads them. A failing assertion is `none`.
-/
namespace Skywing.L3

open L2.TagBuffer

/-- mirrors skywing/skywing_core/internal/reduce_group.hpp:350-355 -/
structure PendingReduce (V : Type) where
  requiredVersion : VersionID
  value : V
  operation : V → V → V
  isAllReduce : Bool
  seq : Nat

inductive Send (V : Type)
  /-- `send_value_to_parent` -/
  | toParent (value : V) (version : VersionID) (seq : Nat)
  /-- `send_value_to_children` -/
  | toChildren (value : V) (version : VersionID)
  /-- `send_disconnection` -/
  | disconnection (initiatingMachine : MachineID) (id : ReductionDisconnectID)
  /-- `add_data_index(0, ...)`: a result for the root itself -/
  | result (value : V) (version : VersionID) (seq : Nat)

/-- mirrors skywing/skywing_core/internal/reduce_group.hpp:128-147,356-357 -/
structure ReduceGroup (V : Type) where
  tagNeighbors : ReduceGroupNeighbors
  lastHeardDisconnect : AList (fun _ : MachineID => ReductionDisconnectID)
  groupId : TagID
  producedTag : TagID
  lastSentVersion : VersionID
  expectedTypes : List UInt8
  isValid : Bool
  connCounter : UInt16
  pendingReduces : List (PendingReduce V)
  dataBuffers : Fin 3 → FifoTagBuffer V
  submitted : Nat

namespace ReduceGroup

variable {V : Type}

/-- mirrors skywing/skywing_core/internal/reduce_group.cpp:9-20 -/
def create (tagNeighbors : ReduceGroupNeighbors) (groupId producedTag : TagID)
    (expectedTypes : List UInt8) : ReduceGroup V where
  tagNeighbors := tagNeighbors
  lastHeardDisconnect := ∅
  groupId := groupId
  producedTag := producedTag
  lastSentVersion := tagNoData
  expectedTypes := expectedTypes
  isValid := true
  connCounter := 0
  pendingReduces := []
  dataBuffers := fun _ => {}
  submitted := 0

/-- mirrors skywing/skywing_core/internal/reduce_group.cpp:103 -/
def returnsValueOnReduce (g : ReduceGroup V) : Bool := g.tagNeighbors.parent.isEmpty

/-- mirrors skywing/skywing_core/internal/reduce_group.hpp:292-298 -/
def addDataIndex (g : ReduceGroup V) (index : Fin 3) (value : V) (version : VersionID) : ReduceGroup V :=
  { g with dataBuffers := Function.update g.dataBuffers index ((g.dataBuffers index).add value version) }

/-! ## Processing pending operations -/

/-- mirrors skywing/skywing_core/internal/reduce_group.hpp:227-237 -/
def reduceIsReady (g : ReduceGroup V) (requiredVersion : VersionID) : Bool :=
  if g.tagNeighbors.leftChild.isEmpty then true
  else if g.tagNeighbors.rightChild.isEmpty then (g.dataBuffers 1).hasData requiredVersion
  else (g.dataBuffers 1).hasData requiredVersion && (g.dataBuffers 2).hasData requiredVersion

/-- `data_buffers_[index].get(required_version)` -/
def getBuffer (g : ReduceGroup V) (index : Fin 3) (requiredVersion : VersionID) :
    Option (V × ReduceGroup V) :=
  ((g.dataBuffers index).get requiredVersion).map fun r =>
    (r.1, { g with dataBuffers := Function.update g.dataBuffers index r.2 })

/-- mirrors skywing/skywing_core/internal/reduce_group.hpp:243-262 -/
def reduceResult (g : ReduceGroup V) (p : PendingReduce V) : Option (V × ReduceGroup V) :=
  if g.tagNeighbors.leftChild.isEmpty then some (p.value, g)
  else do
    let (leftVal, g) ← g.getBuffer 1 p.requiredVersion
    if g.tagNeighbors.rightChild.isEmpty then return (p.operation leftVal p.value, g)
    let (rightVal, g) ← g.getBuffer 2 p.requiredVersion
    return (p.operation (p.operation leftVal p.value) rightVal, g)

/-- Where the result of an operation goes.
mirrors skywing/skywing_core/internal/reduce_group.hpp:266-272 -/
def deliverResult (g : ReduceGroup V) (p : PendingReduce V) (value : V) : ReduceGroup V × List (Send V) :=
  if g.returnsValueOnReduce then
    (g.addDataIndex 0 value p.requiredVersion,
      .result value p.requiredVersion p.seq ::
        if p.isAllReduce then [.toChildren value p.requiredVersion] else [])
  else (g, [.toParent value p.requiredVersion p.seq])

/-- The loop over `pending_reduces_`; an invalid group drops what it finds.
mirrors skywing/skywing_core/internal/reduce_group.hpp:239-273 -/
def processLoop : List (PendingReduce V) → ReduceGroup V → Option (ReduceGroup V × List (Send V))
  | [], g => some ({ g with pendingReduces := [] }, [])
  | p :: rest, g =>
    if !g.isValid then processLoop rest g
    else if !g.reduceIsReady p.requiredVersion then some ({ g with pendingReduces := p :: rest }, [])
    else do
      let (value, g) ← reduceResult { g with lastSentVersion := p.requiredVersion } p
      let (g, sent) := g.deliverResult p value
      let (g, more) ← processLoop rest g
      return (g, sent ++ more)

def processPendingReduceOps (g : ReduceGroup V) : Option (ReduceGroup V × List (Send V)) :=
  processLoop g.pendingReduces g

/-- The index of the buffer for `tag`.
mirrors skywing/skywing_core/internal/reduce_group.cpp:37-38 -/
def bufferFor (g : ReduceGroup V) (tag : TagID) : Option (Fin 3) :=
  [0, 1, 2].find? fun i => tag = g.tagNeighbors.tags i

/-- mirrors skywing/skywing_core/internal/reduce_group.cpp:23-62 -/
def addData [Typed V] (g : ReduceGroup V) (tag : TagID) (value : V) (version : VersionID) :
    Option (Bool × ReduceGroup V × List (Send V)) :=
  if types value ≠ g.expectedTypes then some (false, g, [])
  else
    match g.bufferFor tag with
    | none => some (false, g, [])
    | some i => do
      let forwarded := if i = 0 then [Send.toChildren value version] else []
      let (g, sent) ← (g.addDataIndex i value version).processPendingReduceOps
      return (true, g, forwarded ++ sent)

/-! ## Submitting an operation

mirrors skywing/skywing_core/internal/reduce_group.hpp:301-348 -/

/-- What the callables of `reduce_impl` capture. -/
structure Waiter where
  isAllReduce : Bool
  requiredVersion : VersionID
  connId : UInt16
  deriving DecidableEq, Repr

def reduceImpl (g : ReduceGroup V) (isAllReduce : Bool) (reduceOp : V → V → V) (value : V) :
    Option (Waiter × ReduceGroup V × List (Send V)) := do
  let requiredVersion := g.lastSentVersion + 1
  let p : PendingReduce V := ⟨requiredVersion, value, reduceOp, isAllReduce, g.submitted⟩
  let (g, sent) ← processPendingReduceOps
    { g with pendingReduces := g.pendingReduces ++ [p], submitted := g.submitted + 1 }
  return (⟨isAllReduce, requiredVersion, g.connCounter⟩, g, sent)

def errorOccurred (g : ReduceGroup V) (w : Waiter) : Bool := decide (w.connId < g.connCounter) || !g.isValid

/-- mirrors skywing/skywing_core/internal/reduce_group.hpp:314-320 -/
def isReady (g : ReduceGroup V) (w : Waiter) : Bool :=
  if g.errorOccurred w then true
  else if w.isAllReduce then (g.dataBuffers 0).hasData w.requiredVersion
  else g.lastSentVersion != tagNoData && decide (g.lastSentVersion ≥ w.requiredVersion)

/-- `std::optional<ValueType>` and `ReduceResult<ValueType>`. -/
inductive Outcome (V : Type)
  | value (v : V)
  | noValue
  | disconnection
  deriving DecidableEq, Repr

/-- mirrors skywing/skywing_core/internal/reduce_group.hpp:321-347 -/
def getValue (g : ReduceGroup V) (w : Waiter) : Option (Outcome V × ReduceGroup V) :=
  if w.isAllReduce || g.returnsValueOnReduce then
    if (g.dataBuffers 0).hasData w.requiredVersion then
      (g.getBuffer 0 w.requiredVersion).map fun r => (.value r.1, r.2)
    else some (.disconnection, g)
  else if g.errorOccurred w then some (.disconnection, g)
  else some (.noValue, g)

/-! ## Disconnections and rebuilding -/

/-- mirrors skywing/skywing_core/internal/reduce_group.cpp:64-89 -/
def propagateDisconnection (g : ReduceGroup V) (initiatingMachine : MachineID)
    (id : ReductionDisconnectID) : ReduceGroup V × List (Send V) :=
  if g.lastHeardDisconnect.lookup initiatingMachine = some id then (g, [])
  else
    ({ g with
        lastHeardDisconnect := g.lastHeardDisconnect.insert initiatingMachine id
        isValid := false
        connCounter := g.connCounter + 1 },
      [.disconnection initiatingMachine id])

/-- `self` is the manager's id and `id` the next number of the generator.
mirrors skywing/skywing_core/internal/reduce_group.cpp:91-100 -/
def reportDisconnection (g : ReduceGroup V) (self : MachineID) (id : ReductionDisconnectID) :
    ReduceGroup V × List (Send V) :=
  ({ g with isValid := false, connCounter := g.connCounter + 1 }, [.disconnection self id])

/-- The manager is then asked to find the connections anew.
mirrors skywing/skywing_core/internal/reduce_group.cpp:111-121, reduce_group.hpp:285-290 -/
def rebuild (g : ReduceGroup V) : ReduceGroup V :=
  { g with
    lastSentVersion := tagNoData
    isValid := true
    dataBuffers := fun i => (g.dataBuffers i).reset }

/-! ## The loop rule

What holds before the loop, and is kept by dropping the first operation of an
invalid group and by processing it in a valid one, holds when the loop
leaves. `P rest g sends` is about the operations left, the group, and what
has been sent so far. -/

variable {g g' : ReduceGroup V} {p : PendingReduce V} {sends : List (Send V)}

theorem getBuffer_eq {i : Fin 3} {r : VersionID} {v : V} (h : g.getBuffer i r = some (v, g')) :
    ∃ b, (g.dataBuffers i).get r = some (v, b) ∧
      g' = { g with dataBuffers := Function.update g.dataBuffers i b } := by
  obtain ⟨⟨w, b⟩, hb, hx⟩ := Option.map_eq_some_iff.mp h
  cases hx
  exact ⟨b, hb, rfl⟩

/-- The three ways to a result: no child, a left one, or both. -/
theorem reduceResult_cases {v : V} (h : g.reduceResult p = some (v, g')) :
    (g.tagNeighbors.leftChild = [] ∧ v = p.value ∧ g' = g) ∨
    (g.tagNeighbors.leftChild ≠ [] ∧ g.tagNeighbors.rightChild = [] ∧ ∃ left b,
      (g.dataBuffers 1).get p.requiredVersion = some (left, b) ∧ v = p.operation left p.value ∧
      g' = { g with dataBuffers := Function.update g.dataBuffers 1 b }) ∨
    g.tagNeighbors.leftChild ≠ [] ∧ g.tagNeighbors.rightChild ≠ [] ∧ ∃ left b right c,
      (g.dataBuffers 1).get p.requiredVersion = some (left, b) ∧
      (g.dataBuffers 2).get p.requiredVersion = some (right, c) ∧
      v = p.operation (p.operation left p.value) right ∧
      g' = { g with dataBuffers := Function.update (Function.update g.dataBuffers 1 b) 2 c } := by
  unfold reduceResult at h
  simp only [List.isEmpty_iff] at h
  split at h
  · rename_i hl
    cases h
    exact .inl ⟨hl, rfl, rfl⟩
  · rename_i hl
    obtain ⟨⟨left, g₁⟩, h₁, h⟩ := Option.bind_eq_some_iff.mp h
    obtain ⟨b, hb, rfl⟩ := getBuffer_eq h₁
    simp only at h
    split at h
    · rename_i hr
      cases h
      exact .inr (.inl ⟨hl, hr, left, b, hb, rfl, rfl⟩)
    · rename_i hr
      obtain ⟨⟨right, g₂⟩, h₂, h⟩ := Option.bind_eq_some_iff.mp h
      obtain ⟨c, hc, rfl⟩ := getBuffer_eq h₂
      cases h
      have hne : (2 : Fin 3) ≠ 1 := by decide
      simp only [Function.update_of_ne hne] at hc
      exact .inr (.inr ⟨hl, hr, left, b, right, c, hb, hc, rfl, rfl⟩)

/-- Taking the children's values changes the buffers only. -/
theorem reduceResult_frame {v : V} (h : g.reduceResult p = some (v, g')) :
    g' = { g with dataBuffers := g'.dataBuffers } := by
  rcases reduceResult_cases h with ⟨-, -, rfl⟩ | ⟨-, -, _, _, -, -, rfl⟩ | ⟨-, -, _, _, _, _, -, -, -, rfl⟩ <;> rfl

theorem deliverResult_frame (g : ReduceGroup V) (p : PendingReduce V) (v : V) :
    (g.deliverResult p v).1 = { g with dataBuffers := (g.deliverResult p v).1.dataBuffers } := by
  unfold deliverResult
  split <;> rfl

/-- What the loop does with the first operation: drop it, leave it, or
process it. -/
theorem processLoop_cons {rest : List (PendingReduce V)} (h : processLoop (p :: rest) g = some (g', sends)) :
    (g.isValid = false ∧ processLoop rest g = some (g', sends)) ∨
    (g.isValid = true ∧ g.reduceIsReady p.requiredVersion = false ∧
      g' = { g with pendingReduces := p :: rest } ∧ sends = []) ∨
    g.isValid = true ∧ g.reduceIsReady p.requiredVersion = true ∧ ∃ v g₁ more,
      reduceResult { g with lastSentVersion := p.requiredVersion } p = some (v, g₁) ∧
      processLoop rest (g₁.deliverResult p v).1 = some (g', more) ∧
      sends = (g₁.deliverResult p v).2 ++ more := by
  unfold processLoop at h
  split at h
  · rename_i hv
    exact .inl ⟨by simpa using hv, h⟩
  · rename_i hv
    replace hv : g.isValid = true := by simpa using hv
    split at h
    · rename_i hr
      cases h
      exact .inr (.inl ⟨hv, by simpa using hr, rfl, rfl⟩)
    · rename_i hr
      obtain ⟨⟨v, g₁⟩, h₁, h⟩ := Option.bind_eq_some_iff.mp h
      obtain ⟨⟨g₂, more⟩, h₂, h⟩ := Option.bind_eq_some_iff.mp h
      cases h
      exact .inr (.inr ⟨hv, by simpa using hr, v, g₁, more, h₁, h₂, rfl⟩)

theorem processLoop_rule {P : List (PendingReduce V) → ReduceGroup V → List (Send V) → Prop}
    (hdrop : ∀ p rest g sends, g.isValid = false → P (p :: rest) g sends → P rest g sends)
    (hstep : ∀ p rest g sends v g', g.isValid = true → g.reduceIsReady p.requiredVersion = true →
      reduceResult { g with lastSentVersion := p.requiredVersion } p = some (v, g') →
      P (p :: rest) g sends → P rest (g'.deliverResult p v).1 (sends ++ (g'.deliverResult p v).2)) :
    ∀ (ps : List (PendingReduce V)) (g g' : ReduceGroup V) (before sends : List (Send V)),
      processLoop ps g = some (g', sends) → P ps g before →
      ∃ rest g₁, P rest g₁ (before ++ sends) ∧ g' = { g₁ with pendingReduces := rest }
  | [], g, g', before, sends, h, hP => by
    simp only [processLoop, Option.some.injEq, Prod.mk.injEq] at h
    obtain ⟨rfl, rfl⟩ := h
    exact ⟨[], g, by rwa [List.append_nil], rfl⟩
  | p :: rest, g, g', before, sends, h, hP => by
    rcases processLoop_cons h with ⟨hv, h⟩ | ⟨-, -, rfl, rfl⟩ | ⟨hv, hr, v, g₁, more, h₁, h₂, rfl⟩
    · exact processLoop_rule hdrop hstep rest g g' before sends h (hdrop p rest g before hv hP)
    · exact ⟨p :: rest, g, by rwa [List.append_nil], rfl⟩
    · have hP' := hstep p rest g before v g₁ hv hr h₁ hP
      rw [← List.append_assoc]
      exact processLoop_rule hdrop hstep rest _ _ _ _ h₂ hP'

/-! ## The assertions hold

A buffer is only asked for a version it has. -/

theorem getBuffer_isSome {i : Fin 3} {r : VersionID} (h : (g.dataBuffers i).hasData r = true) :
    (g.getBuffer i r).isSome := by
  simpa only [getBuffer, Option.isSome_map] using FifoTagBuffer.get_isSome h

theorem reduceResult_isSome (h : g.reduceIsReady p.requiredVersion = true) : (g.reduceResult p).isSome := by
  unfold reduceIsReady at h
  unfold reduceResult
  split
  · rfl
  · rename_i hl
    rw [if_neg hl] at h
    split at h
    · rename_i hr
      obtain ⟨⟨l, g₁⟩, h₁⟩ := Option.isSome_iff_exists.mp (getBuffer_isSome h)
      obtain ⟨b, _, rfl⟩ := getBuffer_eq h₁
      simp only [h₁, Option.bind_eq_bind, Option.bind_some, if_pos hr]
      rfl
    · rename_i hr
      obtain ⟨hd₁, hd₂⟩ := Bool.and_eq_true_iff.mp h
      obtain ⟨⟨l, g₁⟩, h₁⟩ := Option.isSome_iff_exists.mp (getBuffer_isSome hd₁)
      obtain ⟨b, _, rfl⟩ := getBuffer_eq h₁
      -- taking from the left buffer leaves the right one as it was
      have hd₂' : ((Function.update g.dataBuffers 1 b) 2).hasData p.requiredVersion = true := by
        rwa [Function.update_of_ne (by decide)]
      obtain ⟨⟨r, g₂⟩, h₂⟩ := Option.isSome_iff_exists.mp
        (getBuffer_isSome (g := { g with dataBuffers := Function.update g.dataBuffers 1 b }) hd₂')
      simp only [h₁, Option.bind_eq_bind, Option.bind_some, if_neg hr, h₂]
      rfl

theorem processLoop_isSome : ∀ (ps : List (PendingReduce V)) (g : ReduceGroup V), (processLoop ps g).isSome
  | [], _ => rfl
  | p :: rest, g => by
    unfold processLoop
    split
    · exact processLoop_isSome rest g
    · split
      · rfl
      · rename_i hr
        have hready : g.reduceIsReady p.requiredVersion = true := by simpa using hr
        obtain ⟨⟨v, g₁⟩, h₁⟩ := Option.isSome_iff_exists.mp
          (reduceResult_isSome (g := { g with lastSentVersion := p.requiredVersion }) hready)
        obtain ⟨⟨g₂, more⟩, h₂⟩ := Option.isSome_iff_exists.mp
          (processLoop_isSome rest (g₁.deliverResult p v).1)
        simp [h₁, h₂]

theorem reduceImpl_isSome (g : ReduceGroup V) (isAllReduce : Bool) (op : V → V → V) (value : V) :
    (g.reduceImpl isAllReduce op value).isSome := by
  obtain ⟨x, hx⟩ := Option.isSome_iff_exists.mp (processLoop_isSome (g.pendingReduces ++
    [⟨g.lastSentVersion + 1, value, op, isAllReduce, g.submitted⟩])
    { g with
      pendingReduces := g.pendingReduces ++ [⟨g.lastSentVersion + 1, value, op, isAllReduce, g.submitted⟩]
      submitted := g.submitted + 1 })
  simp [reduceImpl, processPendingReduceOps, hx]

theorem addData_isSome [Typed V] (g : ReduceGroup V) (tag : TagID) (value : V) (version : VersionID) :
    (g.addData tag value version).isSome := by
  unfold addData
  split
  · rfl
  · split
    · rfl
    · rename_i i _
      obtain ⟨x, hx⟩ := Option.isSome_iff_exists.mp (processLoop_isSome
        (g.addDataIndex i value version).pendingReduces (g.addDataIndex i value version))
      simp [processPendingReduceOps, hx]

/-- The loop leaves a valid group at an operation that is not ready. -/
theorem processLoop_settled : ∀ (ps : List (PendingReduce V)) (g g' : ReduceGroup V) (sends : List (Send V)),
    processLoop ps g = some (g', sends) → g.isValid = true →
      ∀ p ∈ g'.pendingReduces.head?, g'.reduceIsReady p.requiredVersion = false
  | [], g, g', sends, h, _ => by
    cases h
    simp
  | p :: rest, g, g', sends, h, hv => by
    rcases processLoop_cons h with ⟨hv', -⟩ | ⟨-, hr, rfl, -⟩ | ⟨-, -, v, g₁, more, h₁, h₂, -⟩
    · rw [hv] at hv'
      cases hv'
    · intro q hq
      cases hq
      exact hr
    · refine processLoop_settled rest _ _ _ h₂ ?_
      rw [deliverResult_frame, reduceResult_frame h₁]
      exact hv

/-! ## The neighbours never change -/

theorem processLoop_tagNeighbors : ∀ (ps : List (PendingReduce V)) (g g' : ReduceGroup V) (sends : List (Send V)),
    processLoop ps g = some (g', sends) → g'.tagNeighbors = g.tagNeighbors
  | [], g, g', sends, h => by cases h; rfl
  | p :: rest, g, g', sends, h => by
    rcases processLoop_cons h with ⟨-, h⟩ | ⟨-, -, rfl, -⟩ | ⟨-, -, v, g₁, more, h₁, h₂, -⟩
    · exact processLoop_tagNeighbors rest g g' sends h
    · rfl
    · rw [processLoop_tagNeighbors rest _ _ _ h₂, deliverResult_frame, reduceResult_frame h₁]

theorem addData_tagNeighbors [Typed V] {tag : TagID} {value : V} {version : VersionID} {ok : Bool}
    (h : g.addData tag value version = some (ok, g', sends)) : g'.tagNeighbors = g.tagNeighbors := by
  unfold addData at h
  split at h
  · cases h; rfl
  · split at h
    · cases h; rfl
    · simp only [Option.bind_eq_bind, Option.bind_eq_some_iff] at h
      obtain ⟨⟨g₁, sent⟩, h₁, h⟩ := h
      cases h
      have := processLoop_tagNeighbors _ _ _ _ h₁
      exact this

theorem reduceImpl_tagNeighbors {isAllReduce : Bool} {op : V → V → V} {value : V} {w : Waiter}
    (h : g.reduceImpl isAllReduce op value = some (w, g', sends)) : g'.tagNeighbors = g.tagNeighbors := by
  simp only [reduceImpl, Option.bind_eq_bind, Option.bind_eq_some_iff] at h
  obtain ⟨⟨g₁, sent⟩, h₁, h⟩ := h
  cases h
  have := processLoop_tagNeighbors _ _ _ _ h₁
  exact this

theorem propagateDisconnection_tagNeighbors (g : ReduceGroup V) (machine : MachineID)
    (id : ReductionDisconnectID) : (g.propagateDisconnection machine id).1.tagNeighbors = g.tagNeighbors := by
  unfold propagateDisconnection
  split <;> rfl

/-! ## The buffers -/

theorem addDataIndex_fresh (g : ReduceGroup V) (i : Fin 3) (v : V) (version : VersionID)
    (h : ∀ w, (g.dataBuffers w).Fresh) : ∀ w, ((g.addDataIndex i v version).dataBuffers w).Fresh := by
  intro w
  by_cases hw : w = i
  · subst hw
    simp only [addDataIndex, Function.update_self, FifoTagBuffer.add_buffer (h w)]
    exact h w
  · simp only [addDataIndex, Function.update_of_ne hw]
    exact h w

theorem addDataIndex_self (g : ReduceGroup V) (i : Fin 3) (v : V) (version : VersionID)
    (h : (g.dataBuffers i).Fresh) :
    ((g.addDataIndex i v version).dataBuffers i).buffer = (g.dataBuffers i).buffer ++ [(v, version)] := by
  simp only [addDataIndex, Function.update_self, FifoTagBuffer.add_buffer h]

theorem addDataIndex_ne (g : ReduceGroup V) {i w : Fin 3} (v : V) (version : VersionID) (h : w ≠ i) :
    (g.addDataIndex i v version).dataBuffers w = g.dataBuffers w := Function.update_of_ne h _ _

theorem deliverResult_buffer (g : ReduceGroup V) (p : PendingReduce V) (v : V) {w : Fin 3} (hw : w ≠ 0) :
    (g.deliverResult p v).1.dataBuffers w = g.dataBuffers w := by
  unfold deliverResult
  split
  · exact addDataIndex_ne g v _ hw
  · rfl

theorem deliverResult_fresh (g : ReduceGroup V) (p : PendingReduce V) (v : V)
    (h : ∀ w, (g.dataBuffers w).Fresh) : ∀ w, ((g.deliverResult p v).1.dataBuffers w).Fresh := by
  unfold deliverResult
  split
  · exact addDataIndex_fresh g 0 v _ h
  · exact h

theorem deliverResult_stored (g : ReduceGroup V) (p : PendingReduce V) (v : V)
    (h : (g.dataBuffers 0).Fresh) (hp : g.tagNeighbors.parent = []) :
    ((g.deliverResult p v).1.dataBuffers 0).buffer = (g.dataBuffers 0).buffer ++ [(v, p.requiredVersion)] := by
  simp only [deliverResult, returnsValueOnReduce, hp, List.isEmpty_nil, if_true]
  exact addDataIndex_self g 0 v _ h

/-- A tag is looked for among the parent and the children. -/
theorem bufferFor_eq {tag : TagID} {i : Fin 3} (hi : g.tagNeighbors.tags i = tag)
    (hinj : ∀ w, g.tagNeighbors.tags w = tag → w = i) : g.bufferFor tag = some i := by
  unfold bufferFor
  cases hf : [0, 1, 2].find? fun w => decide (tag = g.tagNeighbors.tags w) with
  | none =>
    have hmem : ∀ w : Fin 3, w ∈ [0, 1, 2] := by decide
    exact absurd hi.symm (by simpa using List.find?_eq_none.mp hf i (hmem i))
  | some w =>
    have hw : tag = g.tagNeighbors.tags w := by simpa using List.find?_some hf
    rw [hinj w hw.symm]

/-- Data of a known tag and the right types is stored, and forwarded if it is
the parent's; then what is pending is processed. -/
theorem addData_eq [Typed V] {tag : TagID} {value : V} {version : VersionID} {i : Fin 3}
    (ht : types value = g.expectedTypes) (hi : g.bufferFor tag = some i) :
    g.addData tag value version = (g.addDataIndex i value version).processPendingReduceOps.map fun r =>
      (true, r.1, (if i = 0 then [Send.toChildren value version] else []) ++ r.2) := by
  simp only [addData, if_neg (not_not.mpr ht), hi]
  cases (g.addDataIndex i value version).processPendingReduceOps <;> rfl

end ReduceGroup

end Skywing.L3
