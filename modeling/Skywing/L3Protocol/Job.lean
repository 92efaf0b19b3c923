import Mathlib.Data.List.AList
import Skywing.Core.Types
import Skywing.L2Machine.TagBuffer

/-!
# Jobs

`skywing_core/job.hpp`, `job.cpp`: the part of a job that holds what it
subscribes to. Each subscribed tag has a `TagInfo` with its buffer, the
types expected on it, a connection id that changes whenever the
subscription breaks or is formed anew, and the last error.

The values of a tag are of an arbitrary type `α` whose variant indices
`types` are all that `process_data` looks at. A null buffer or a failing
assertion is `none`.
-/
namespace Skywing.L3

open L2.TagBuffer

/-- `PublishValueVariant::index()` of each component of a value. -/
class Typed (α : Type) where
  types : α → List UInt8

export Typed (types)

/-- Numbers, for concrete runs. -/
instance : Typed Nat := ⟨fun _ => []⟩

/-- mirrors skywing/skywing_core/job.hpp:477-482 -/
inductive TagInfo.Error
  | noError
  | incorrectType
  | disconnected
  deriving DecidableEq, Repr

/-- mirrors skywing/skywing_core/job.hpp:474-492 -/
structure TagInfo (α : Type) where
  buffer : Option (DiscardOldVersionTagBuffer α)
  expectedTypes : List UInt8
  connectionId : UInt16
  errorOccurred : TagInfo.Error
  deriving DecidableEq, Repr

structure Job (α : Type) where
  bufs : AList (fun _ : TagID => TagInfo α)
  lastPublishedVersion : AList (fun _ : TagID => VersionID)
  tagsProduced : AList (fun _ : TagID => List UInt8)

namespace Job

variable {α : Type}

def setInfo (j : Job α) (tag : TagID) (info : TagInfo α) : Job α :=
  { j with bufs := j.bufs.insert tag info }

@[simp] theorem setInfo_self (j : Job α) (tag : TagID) (info : TagInfo α) :
    (j.setInfo tag info).bufs.lookup tag = some info := AList.lookup_insert _

@[simp] theorem setInfo_of_ne (j : Job α) {tag t : TagID} (info : TagInfo α) (h : t ≠ tag) :
    (j.setInfo tag info).bufs.lookup t = j.bufs.lookup t := AList.lookup_insert_ne h

@[simp] theorem setInfo_lastPublishedVersion (j : Job α) (tag : TagID) (info : TagInfo α) :
    (j.setInfo tag info).lastPublishedVersion = j.lastPublishedVersion := rfl

@[simp] theorem setInfo_tagsProduced (j : Job α) (tag : TagID) (info : TagInfo α) :
    (j.setInfo tag info).tagsProduced = j.tagsProduced := rfl

/-- mirrors skywing/skywing_core/job.cpp:37-74 -/
def processData [Typed α] (j : Job α) (tag : TagID) (data : α) (version : VersionID) :
    Option (Bool × Job α) :=
  match j.bufs.lookup tag with
  | none => some (true, j)
  | some info =>
    if info.expectedTypes ≠ types data then
      some (false, j.setInfo tag { info with errorOccurred := .incorrectType })
    else
      info.buffer.map fun b => (true, j.setInfo tag { info with buffer := some (b.add data version) })

/-- mirrors skywing/skywing_core/job.cpp:100-114 -/
def markTagAsDead (j : Job α) (tag : TagID) : Job α :=
  match j.bufs.lookup tag with
  | none => j
  | some info =>
    j.setInfo tag { info with errorOccurred := .disconnected, connectionId := info.connectionId + 1 }

/-- mirrors skywing/skywing_core/job.cpp:136-142 -/
def hasData (j : Job α) (tag : TagID) : Option Bool :=
  match j.bufs.lookup tag with
  | none => some false
  | some info => info.buffer.map (·.hasData)

/-- mirrors skywing/skywing_core/job.cpp:278-285 -/
def tagHasActivePublisher (j : Job α) (tag : TagID) : Bool :=
  match j.bufs.lookup tag with
  | none => false
  | some info => info.errorOccurred == .noError

/-! ## Waiters for a value

mirrors skywing/skywing_core/job.hpp:174-201 -/

/-- What the callables of `get_waiter` capture. -/
structure Waiter where
  tag : TagID
  tagConnId : UInt16
  deriving DecidableEq, Repr

def getWaiter (j : Job α) (tag : TagID) : Option Waiter :=
  (j.bufs.lookup tag).map fun info => ⟨tag, info.connectionId⟩

def isReady (j : Job α) (w : Waiter) : Option Bool := do
  let info ← j.bufs.lookup w.tag
  let buffer ← info.buffer
  return buffer.hasData || info.errorOccurred != .noError || info.connectionId != w.tagConnId

/-- The fetched value, or `none` where the buffer has no data. -/
def getValue (j : Job α) (w : Waiter) : Option (Option α × Job α) := do
  let info ← j.bufs.lookup w.tag
  let buffer ← info.buffer
  if buffer.hasData then
    let (value, buffer') ← buffer.get
    let v ← value
    return (some v, j.setInfo w.tag { info with buffer := some buffer' })
  else return (none, j)

/-! ## Publishing and subscribing -/

/-- The version a publication gets.
mirrors skywing/skywing_core/job.cpp:116-127 -/
def publishImpl (j : Job α) (tag : TagID) : Option (VersionID × Job α) :=
  if (j.tagsProduced.lookup tag).isSome then
    let version := (j.lastPublishedVersion.lookup tag).getD tagNoData + 1
    some (version, { j with lastPublishedVersion := j.lastPublishedVersion.insert tag version })
  else none

/-- One tag of `init_or_update_subscribe`; `ptr` is the buffer passed for it.
mirrors skywing/skywing_core/job.cpp:156-174 -/
def initOrUpdateTag (j : Job α) (tag : TagID) (expectedTypes : List UInt8)
    (ptr : Option (DiscardOldVersionTagBuffer α)) : Option (Job α) :=
  match j.bufs.lookup tag with
  | none => some (j.setInfo tag ⟨ptr, expectedTypes, 0, .noError⟩)
  | some info =>
    info.buffer.map fun b =>
      j.setInfo tag { info with
        connectionId := info.connectionId + 1, buffer := some b.reset, errorOccurred := .noError }

/-- mirrors skywing/skywing_core/job.cpp:146-175 -/
def initOrUpdateSubscribe (j : Job α) :
    List (TagID × List UInt8 × Option (DiscardOldVersionTagBuffer α)) → Option (Job α)
  | [] => some j
  | (tag, expectedTypes, ptr) :: rest =>
    (j.initOrUpdateTag tag expectedTypes ptr).bind fun j' => initOrUpdateSubscribe j' rest

/-! ## What each operation does -/

theorem processData_frame [Typed α] {j j' : Job α} {tag : TagID} {data : α} {version : VersionID}
    {ok : Bool} (h : j.processData tag data version = some (ok, j')) :
    (∀ t, t ≠ tag → j'.bufs.lookup t = j.bufs.lookup t) ∧
      j'.lastPublishedVersion = j.lastPublishedVersion := by
  unfold processData at h
  split at h
  · cases h; exact ⟨fun _ _ => rfl, rfl⟩
  · split at h
    · cases h; exact ⟨fun t ht => setInfo_of_ne j _ ht, rfl⟩
    · obtain ⟨b, _, hb⟩ := Option.map_eq_some_iff.mp h
      cases hb; exact ⟨fun t ht => setInfo_of_ne j _ ht, rfl⟩

theorem processData_accept [Typed α] {j : Job α} {tag : TagID} {data : α} (version : VersionID)
    {info : TagInfo α} {b : DiscardOldVersionTagBuffer α} (hi : j.bufs.lookup tag = some info)
    (hb : info.buffer = some b) (ht : info.expectedTypes = types data) :
    j.processData tag data version =
      some (true, j.setInfo tag { info with buffer := some (b.add data version) }) := by
  simp [processData, hi, hb, ht]

theorem hasData_eq {j : Job α} {tag : TagID} {info : TagInfo α} {b : DiscardOldVersionTagBuffer α}
    (hi : j.bufs.lookup tag = some info) (hb : info.buffer = some b) : j.hasData tag = some b.hasData := by
  simp [hasData, hi, hb]

/-- While the subscription stands, a waiter is ready when there is data. -/
theorem isReady_eq {j : Job α} {w : Waiter} {info : TagInfo α} {b : DiscardOldVersionTagBuffer α}
    (hi : j.bufs.lookup w.tag = some info) (hb : info.buffer = some b)
    (he : info.errorOccurred = .noError) (hc : w.tagConnId = info.connectionId) :
    j.isReady w = some b.hasData := by
  simp [isReady, hi, hb, he, hc]

theorem getValue_eq {j : Job α} {w : Waiter} {info : TagInfo α} {b b' : DiscardOldVersionTagBuffer α}
    {v : α} (hi : j.bufs.lookup w.tag = some info) (hb : info.buffer = some b) (hd : b.hasData = true)
    (hg : b.get = some (some v, b')) :
    j.getValue w = some (some v, j.setInfo w.tag { info with buffer := some b' }) := by
  simp [getValue, hi, hb, hd, hg]

theorem publishImpl_eq {j j' : Job α} {tag : TagID} {version : VersionID}
    (h : j.publishImpl tag = some (version, j')) :
    version = (j.lastPublishedVersion.lookup tag).getD tagNoData + 1 ∧ j'.bufs = j.bufs ∧
      j'.lastPublishedVersion.lookup tag = some version := by
  unfold publishImpl at h
  split at h
  · cases h; exact ⟨rfl, rfl, AList.lookup_insert _⟩
  · cases h

end Job

end Skywing.L3
