import Mathlib.Data.List.Map2
import Skywing.Core.Maps
import Skywing.Core.Simulation
import Skywing.L4App.Iterative

/-!
# Parts of an iterative method

A processor may be made of others: `SumProcessor` of one for a mean and one
for a count, `QUACCProcessor` of one for a minimum and one for a mean
(`skywing_mid/sum_processor.hpp`, `quacc_processor.hpp`). It publishes tuples,
and each part is shown its own component of them, through `get_sub_handler`.

`View` says that one method is a view of another: of its values, of its
messages and of its state. Then each step of an agent is, in that view, the
same step of an agent that runs the other method (`Agent.map_step`), whatever
the manager's thread delivers, and so for whole runs. A part of a compound
processor is such a view (`firstPart`, `secondPart`), with messages that are
still checked against the types of the whole tuple (`Component`).

`parts_run_alone`: under either framework each part of a compound processor
goes through the states it would go through alone.
-/
namespace Skywing

open L2.TagBuffer L3

/-! ## Views of buffers and jobs -/

namespace L2.TagBuffer.DiscardOldVersionTagBuffer

variable {α β : Type*} (f : α → β)

def map (b : DiscardOldVersionTagBuffer α) : DiscardOldVersionTagBuffer β :=
  ⟨b.value.map f, b.storedVersion, b.lastFetchedVersion⟩

@[simp] theorem map_hasData (b : DiscardOldVersionTagBuffer α) : (b.map f).hasData = b.hasData := rfl

theorem map_get (b : DiscardOldVersionTagBuffer α) : (b.map f).get = b.get.map (.map (.map f) (map f)) := by
  unfold get
  rw [map_hasData]
  split <;> rfl

theorem map_add (b : DiscardOldVersionTagBuffer α) (v : α) (version : VersionID) :
    (b.add v version).map f = (b.map f).add (f v) version := by
  have hstored : (b.map f).storedVersion = b.storedVersion := rfl
  unfold add
  rw [hstored]
  split <;> rfl

end L2.TagBuffer.DiscardOldVersionTagBuffer

namespace L3

variable {α β : Type} (f : α → β)

def TagInfo.map (info : TagInfo α) : TagInfo β :=
  ⟨info.buffer.map (·.map f), info.expectedTypes, info.connectionId, info.errorOccurred⟩

namespace Job

/-- The job with another view of the values in its buffers. -/
def map (j : Job α) : Job β := ⟨j.bufs.mapVal fun _ info => info.map f, j.lastPublishedVersion, j.tagsProduced⟩

variable (j : Job α) (tag : TagID)

theorem map_lookup : (j.map f).bufs.lookup tag = (j.bufs.lookup tag).map (TagInfo.map f) := AList.lookup_mapVal _ _ _

theorem map_setInfo (info : TagInfo α) : (j.setInfo tag info).map f = (j.map f).setInfo tag (info.map f) := by
  unfold map setInfo
  rw [AList.mapVal_insert]

theorem map_tagHasActivePublisher : (j.map f).tagHasActivePublisher tag = j.tagHasActivePublisher tag := by
  unfold tagHasActivePublisher
  rw [map_lookup]
  cases j.bufs.lookup tag <;> rfl

theorem map_hasData : (j.map f).hasData tag = j.hasData tag := by
  unfold hasData
  rw [map_lookup]
  cases j.bufs.lookup tag with
  | none => rfl
  | some info =>
    show Option.map _ (info.buffer.map _) = _
    rw [Option.map_map]
    rfl

theorem map_getWaiter : (j.map f).getWaiter tag = j.getWaiter tag := by
  unfold getWaiter
  rw [map_lookup, Option.map_map]
  rfl

theorem map_isReady (w : Waiter) : (j.map f).isReady w = j.isReady w := by
  unfold isReady
  rw [map_lookup]
  cases j.bufs.lookup w.tag with
  | none => rfl
  | some info =>
    obtain ⟨buffer, expected, cid, err⟩ := info
    cases buffer <;> rfl

theorem map_getValue (w : Waiter) : (j.map f).getValue w = (j.getValue w).map (.map (.map f) (map f)) := by
  unfold getValue
  rw [map_lookup]
  cases j.bufs.lookup w.tag with
  | none => rfl
  | some info =>
    obtain ⟨buffer, expected, cid, err⟩ := info
    cases buffer with
    | none => rfl
    | some b =>
      simp only [TagInfo.map, Option.map_some, Option.bind_eq_bind, Option.bind_some,
        DiscardOldVersionTagBuffer.map_hasData]
      by_cases hd : b.hasData = true
      · simp only [hd, if_true, DiscardOldVersionTagBuffer.map_get]
        cases b.get with
        | none => rfl
        | some r =>
          obtain ⟨value, b'⟩ := r
          cases value with
          | none => rfl
          | some v =>
            simp only [Option.map_some, Option.bind_some, Prod.map_apply, Option.pure_def, map_setInfo]
            rfl
      · simp only [hd, Bool.false_eq_true, if_false]
        rfl

theorem map_markTagAsDead : (j.markTagAsDead tag).map f = (j.map f).markTagAsDead tag := by
  unfold markTagAsDead
  rw [map_lookup]
  cases j.bufs.lookup tag with
  | none => rfl
  | some info => exact map_setInfo f j tag _

theorem map_publishImpl : (j.map f).publishImpl tag = (j.publishImpl tag).map (.map id (map f)) := by
  have hprod : (j.map f).tagsProduced = j.tagsProduced := rfl
  unfold publishImpl
  rw [hprod]
  split <;> rfl

/-- A view that keeps the types keeps the type check. -/
theorem map_processData [Typed α] [Typed β] (hf : ∀ x, types (f x) = types x) (data : α) (version : VersionID) :
    (j.map f).processData tag (f data) version = (j.processData tag data version).map (.map id (map f)) := by
  unfold processData
  rw [map_lookup]
  cases j.bufs.lookup tag with
  | none => rfl
  | some info =>
    obtain ⟨buffer, expected, cid, err⟩ := info
    simp only [TagInfo.map, Option.map_some, hf]
    by_cases ht : expected ≠ types data
    · rw [if_pos ht, if_pos ht]
      simp only [Option.map_some, Prod.map_apply, map_setInfo]
      rfl
    · rw [if_neg ht, if_neg ht]
      cases buffer with
      | none => rfl
      | some b =>
        simp only [Option.map_some, Prod.map_apply, map_setInfo, TagInfo.map, DiscardOldVersionTagBuffer.map_add]
        rfl

end Job

end L3

/-! ## Views of methods -/

namespace L4.Parts

open L4.Iterative

/-- A handler whose values are transformed further.
mirrors skywing/skywing_mid/neighbor_data_handler.hpp:62-72 -/
def getSubHandler {V W : Type} (subTransformer : V → W) (h : NeighborDataHandler V) : NeighborDataHandler W :=
  ⟨h.tags, h.neighborValues.mapVal fun _ v => subTransformer v, h.updatedTags⟩

/-- `M'` with the messages of `c'` is a view of `M` with the messages of `c`. -/
structure View {V α P W β Q : Type} [Typed α] [Typed β] (c : PubSubConverter V α) (M : Method V P)
    (c' : PubSubConverter W β) (M' : Method W Q) where
  message : α → β
  value : V → W
  state : P → Q
  types : ∀ x, types (message x) = types x
  convert : ∀ v, message (c.convert v) = c'.convert (value v)
  deconvert : ∀ x, c'.deconvert (message x) = value (c.deconvert x)
  init : ∀ p, value (M.gatherInitialPublications p) = M'.gatherInitialPublications (state p)
  update : ∀ h p,
    state (M.processAllUpdates h p) = M'.processAllUpdates (getSubHandler value h) (state p)
  gather : ∀ v p,
    (M.gatherDataForPublication v p).map value state = M'.gatherDataForPublication (value v) (state p)
  policy : ∀ new old p,
    (M.publishPolicy new old p).map id state = M'.publishPolicy (value new) (value old) (state p)
  dead : ∀ dead tags i p, state (M.handleDeadNeighbor dead tags i p) = M'.handleDeadNeighbor dead tags i (state p)

namespace View

variable {V α P W β Q : Type} [Typed α] [Typed β] {c : PubSubConverter V α} {M : Method V P}
  {c' : PubSubConverter W β} {M' : Method W Q} (F : View c M c' M')

def agent (a : Agent V α P) : Agent W β Q where
  job := a.job.map F.message
  producedTag := a.producedTag
  tags := a.tags
  deadTags := a.deadTags
  neighborValues := a.neighborValues.mapVal fun _ v => F.value v
  updatedTags := a.updatedTags
  policies := F.state a.policies
  publishValues := F.value a.publishValues
  iterationCount := a.iterationCount
  shouldIterate := a.shouldIterate
  pc := a.pc
  lastStop := a.lastStop
  published := a.published.map (.map id F.message)
  processed := a.processed.map (getSubHandler F.value)

def label : Lbl α → Lbl β
  | .data tag value version => .data tag (F.message value) version
  | .dead tag => .dead tag
  | .run => .run
  | .tick => .tick
  | .stop answer => .stop answer

theorem agent_create (job : Job α) (producedTag : TagID) (tags : List TagID) (p : P) :
    F.agent (create M job producedTag tags p) = create M' (job.map F.message) producedTag tags (F.state p) := by
  have hactive : (job.map F.message).tagHasActivePublisher = job.tagHasActivePublisher :=
    funext (Job.map_tagHasActivePublisher F.message job)
  unfold agent create
  rw [hactive, F.init]
  rfl

theorem agent_submitValues (a : Agent V α P) (v : V) :
    (submitValues c a v).map F.agent = submitValues c' (F.agent a) (F.value v) := by
  unfold submitValues
  simp only [Option.bind_eq_bind, Option.pure_def, Option.map_bind]
  show _ = ((a.job.map F.message).publishImpl a.producedTag).bind _
  rw [Job.map_publishImpl]
  cases a.job.publishImpl a.producedTag with
  | none => rfl
  | some r =>
    obtain ⟨version, job⟩ := r
    simp only [Option.map_some, Option.bind_some, Function.comp_apply, Option.map_bind, Prod.map_apply, id]
    show _ = ((job.map F.message).processData a.producedTag _ version).bind _
    rw [← F.convert, Job.map_processData F.message job a.producedTag F.types]
    cases job.processData a.producedTag (c.convert v) version with
    | none => rfl
    | some q =>
      simp only [Option.map_some, Option.bind_some, agent, List.map_append, List.map_cons, List.map_nil]
      rfl

theorem agent_handleDeadNeighbor (a : Agent V α P) (tagIter : Nat) (tag : TagID) :
    F.agent (handleDeadNeighbor M a tagIter tag) = handleDeadNeighbor M' (F.agent a) tagIter tag := by
  unfold agent handleDeadNeighbor
  simp only [F.dead]

theorem agent_countStep (noData : Iterative.Pc) (a : Agent V α P) (tagIter numUpdated : Nat) :
    (countStep M noData a tagIter numUpdated).map F.agent = countStep M' noData (F.agent a) tagIter numUpdated := by
  unfold countStep
  rw [show (F.agent a).tags = a.tags from rfl]
  cases a.tags[tagIter]? with
  | none =>
    dsimp only
    split <;> rfl
  | some tag =>
    dsimp only
    have hactive : (F.agent a).job.tagHasActivePublisher tag = a.job.tagHasActivePublisher tag :=
      Job.map_tagHasActivePublisher F.message a.job tag
    have hdata : (F.agent a).job.hasData tag = a.job.hasData tag := Job.map_hasData F.message a.job tag
    rw [hactive, hdata]
    split
    · rw [Option.map_some, agent_handleDeadNeighbor]
    · rw [Option.map_map]
      rfl

theorem agent_readStep (a : Agent V α P) (tagIter : Nat) :
    (readStep c a tagIter).map F.agent = readStep c' (F.agent a) tagIter := by
  unfold readStep
  rw [show (F.agent a).tags = a.tags from rfl]
  cases a.tags[tagIter]? with
  | none => rfl
  | some tag =>
    dsimp only
    show _ = ((a.job.map F.message).hasData tag).bind _
    rw [Job.map_hasData]
    cases a.job.hasData tag with
    | none => rfl
    | some has =>
      cases has with
      | false => rfl
      | true =>
        show Option.map _ ((a.job.getWaiter tag).bind _) = ((a.job.map F.message).getWaiter tag).bind _
        rw [Job.map_getWaiter]
        cases a.job.getWaiter tag with
        | none => rfl
        | some w =>
          show Option.map _ ((a.job.getValue w).bind _) = ((a.job.map F.message).getValue w).bind _
          rw [Job.map_getValue]
          cases a.job.getValue w with
          | none => rfl
          | some r =>
            obtain ⟨value, job⟩ := r
            cases value with
            | none => rfl
            | some v =>
              simp only [Option.map_some, Option.bind_some, Option.bind_eq_bind, Prod.map_apply, Option.pure_def,
                agent, F.deconvert, AList.mapVal_insert]

theorem agent_processAllUpdates (k : Framework) (a : Agent V α P) :
    F.agent (processAllUpdates M k a) = processAllUpdates M' k (F.agent a) := by
  unfold agent processAllUpdates
  simp only [F.update, List.map_append, List.map_cons, List.map_nil]
  rfl

theorem agent_publishStep (k : Framework) (a : Agent V α P) :
    (publishStep c M k a).map F.agent = publishStep c' M' k (F.agent a) := by
  rcases hvals : M.gatherDataForPublication a.publishValues a.policies with ⟨newVals, policies⟩
  have hvals' : M'.gatherDataForPublication (F.agent a).publishValues (F.agent a).policies =
      (F.value newVals, F.state policies) := by
    rw [← Prod.map_apply, ← hvals]
    exact (F.gather _ _).symm
  cases k with
  | synchronous =>
    simp only [publishStep, hvals, hvals']
    exact F.agent_submitValues _ _
  | asynchronous =>
    rcases hpub : M.publishPolicy newVals a.publishValues policies with ⟨doPublish, policies'⟩
    have hpub' : M'.publishPolicy (F.value newVals) (F.agent a).publishValues (F.state policies) =
        (doPublish, F.state policies') := by
      have h := F.policy newVals a.publishValues policies
      rw [hpub] at h
      exact h.symm
    simp only [publishStep, hvals, hvals', hpub, hpub']
    cases doPublish with
    | false => rfl
    | true => exact F.agent_submitValues _ _

theorem agent_startRun (a : Agent V α P) : (startRun c a).map F.agent = startRun c' (F.agent a) := by
  unfold startRun
  show _ = (submitValues c' (F.agent a) (F.value a.publishValues)).map _
  rw [← agent_submitValues, Option.map_map, Option.map_map]
  rfl

theorem mapM_getWaiter (a : Agent V α P) : a.tags.mapM (F.agent a).job.getWaiter = a.tags.mapM a.job.getWaiter :=
  congrArg (fun f => a.tags.mapM f) (funext fun t => Job.map_getWaiter F.message a.job t)

theorem agent_runStep (k : Framework) (a : Agent V α P) :
    (runStep c M k a).map F.agent = runStep c' M' k (F.agent a) := by
  have hpc : (F.agent a).pc = a.pc := rfl
  unfold runStep
  rw [hpc]
  cases hp : a.pc with
  | idle | exit | stopPolicy | stopPolicyAfterWait | outerLoop | waitForUpdate => rfl
  | innerLoop =>
    show _ = if a.shouldIterate then _ else _
    dsimp only
    split
    · cases k with
      | synchronous =>
        show _ = (a.tags.mapM (F.agent a).job.getWaiter).map _
        rw [mapM_getWaiter, Option.map_map]
        rfl
      | asynchronous => rfl
    · rfl
  | isReady ws =>
    cases ws with
    | nil => rfl
    | cons w ws =>
      show _ = ((a.job.map F.message).isReady w).map _
      rw [Job.map_isReady]
      dsimp only
      rw [Option.map_map]
      rfl
  | countUpdates i n =>
    cases k with
    | synchronous => exact F.agent_countStep _ _ _ _
    | asynchronous => exact F.agent_countStep _ _ _ _
  | readUpdates i => exact F.agent_readStep _ _
  | processUpdates => exact congrArg some (F.agent_processAllUpdates k a)
  | publish => exact F.agent_publishStep k a

theorem agent_evalStopPolicy (a : Agent V α P) (answer : Bool) :
    (evalStopPolicy a answer).map F.agent = evalStopPolicy (F.agent a) answer := by
  have hpc : (F.agent a).pc = a.pc := rfl
  unfold evalStopPolicy
  rw [hpc]
  cases a.pc <;> rfl

/-- A step in the view is the view of the step. -/
theorem agent_step (k : Framework) (a : Agent V α P) (l : Lbl α) :
    (Iterative.step c M k a l).map F.agent = Iterative.step c' M' k (F.agent a) (F.label l) := by
  cases l with
  | data tag value version =>
    show Option.map _ ((a.job.processData tag value version).map _) =
      ((a.job.map F.message).processData tag (F.message value) version).map _
    rw [Job.map_processData F.message a.job tag F.types, Option.map_map, Option.map_map]
    rfl
  | dead tag =>
    show some (F.agent { a with job := a.job.markTagAsDead tag }) =
      some { F.agent a with job := (a.job.map F.message).markTagAsDead tag }
    rw [← Job.map_markTagAsDead]
    rfl
  | run =>
    show Option.map _ (if a.pc = .idle ∨ a.pc = .exit then _ else _) = if a.pc = .idle ∨ a.pc = .exit then _ else _
    split
    · exact F.agent_startRun a
    · rfl
  | tick => exact F.agent_runStep k a
  | stop answer => exact F.agent_evalStopPolicy a answer

def hom (k : Framework) : LTS.Hom (Iterative.step c M k) (Iterative.step c' M' k) := ⟨F.agent, F.label, F.agent_step k⟩

end View

namespace View

variable {V α P W β Q X γ R : Type} [Typed α] [Typed β] [Typed γ] {c : PubSubConverter V α} {M : Method V P}
  {c' : PubSubConverter W β} {M' : Method W Q} {c'' : PubSubConverter X γ} {M'' : Method X R}

theorem getSubHandler_comp (f : V → W) (g : W → X) (h : NeighborDataHandler V) :
    getSubHandler (g ∘ f) h = getSubHandler g (getSubHandler f h) := by
  unfold getSubHandler
  simp only [AList.mapVal_mapVal]
  rfl

/-- A view of a view. -/
def comp (G : View c' M' c'' M'') (F : View c M c' M') : View c M c'' M'' where
  message := G.message ∘ F.message
  value := G.value ∘ F.value
  state := G.state ∘ F.state
  types x := (G.types _).trans (F.types x)
  convert v := by rw [Function.comp_apply, F.convert, G.convert]; rfl
  deconvert x := by rw [Function.comp_apply, G.deconvert, F.deconvert]; rfl
  init p := by rw [Function.comp_apply, F.init, G.init]; rfl
  update h p := by rw [Function.comp_apply, F.update, G.update, getSubHandler_comp]; rfl
  gather v p := by
    rw [Function.comp_apply, Function.comp_apply, ← G.gather, ← F.gather]
    rfl
  policy new old p := by
    rw [Function.comp_apply, Function.comp_apply, Function.comp_apply, ← G.policy, ← F.policy]
    rfl
  dead t u i p := by rw [Function.comp_apply, F.dead, G.dead]; rfl

end View

/-! ## Compound processors -/

/-- What a processor defines. -/
structure Processor (V P : Type) where
  getInitPublishValues : P → V
  processUpdate : NeighborDataHandler V → P → P
  prepareForPublication : V → P → V × P

/-- A method with this processor, `AlwaysPublish` and policies that add no
values.
mirrors skywing/skywing_mid/publish_policies.hpp:11-23, iterative_resilience_policies.hpp:8-13 -/
def Processor.method {V P : Type} (X : Processor V P) : Method V P where
  gatherInitialPublications := X.getInitPublishValues
  processAllUpdates := X.processUpdate
  gatherDataForPublication := X.prepareForPublication
  publishPolicy _ _ p := (true, p)
  handleDeadNeighbor _ _ _ p := p

section Both
variable {V P W Q : Type}

/-- Two processors that know nothing of each other; each is given its
component of the values. -/
def both (X : Processor V P) (Y : Processor W Q) : Processor (V × W) (P × Q) where
  getInitPublishValues p := (X.getInitPublishValues p.1, Y.getInitPublishValues p.2)
  processUpdate h p := (X.processUpdate (getSubHandler Prod.fst h) p.1, Y.processUpdate (getSubHandler Prod.snd h) p.2)
  prepareForPublication v p :=
    let (v₁, p₁) := X.prepareForPublication v.1 p.1
    let (v₂, p₂) := Y.prepareForPublication v.2 p.2
    ((v₁, v₂), p₁, p₂)

/-- mirrors skywing/skywing_mid/sum_processor.hpp:24-79 -/
def sumProcessor (meanProcessor : Processor V P) (countProcessor : Processor W Q) : Processor (V × W) (P × Q) :=
  both meanProcessor countProcessor

/-- mirrors skywing/skywing_mid/quacc_processor.hpp:56-140 -/
def quaccProcessor (minProcessor : Processor V P) (meanProcessor : Processor W Q) : Processor (V × W) (P × Q) :=
  both minProcessor meanProcessor

/-- A message as one part sees it: its component, and the types of the whole
tuple, which are what the job checks. -/
structure Component (V : Type) where
  value : V
  typeIndices : List UInt8

instance {V : Type} : Typed (Component V) := ⟨Component.typeIndices⟩

def componentConverter (V : Type) (expectedTypes : List UInt8) : PubSubConverter V (Component V) :=
  ⟨fun v => ⟨v, expectedTypes⟩, Component.value, expectedTypes, fun _ => rfl, fun _ => rfl⟩

variable {α : Type} [Typed α] (c : PubSubConverter (V × W) α) (X : Processor V P) (Y : Processor W Q)

def firstPart : View c (both X Y).method (componentConverter V c.expectedTypes) X.method where
  message x := ⟨(c.deconvert x).1, types x⟩
  value := Prod.fst
  state := Prod.fst
  types _ := rfl
  convert v := by rw [c.deconvert_convert, c.types_convert]; rfl
  deconvert _ := rfl
  init _ := rfl
  update _ _ := rfl
  gather _ _ := rfl
  policy _ _ _ := rfl
  dead _ _ _ _ := rfl

def secondPart : View c (both X Y).method (componentConverter W c.expectedTypes) Y.method where
  message x := ⟨(c.deconvert x).2, types x⟩
  value := Prod.snd
  state := Prod.snd
  types _ := rfl
  convert v := by rw [c.deconvert_convert, c.types_convert]; rfl
  deconvert _ := rfl
  init _ := rfl
  update _ _ := rfl
  gather _ _ := rfl
  policy _ _ _ := rfl
  dead _ _ _ _ := rfl

/-- **Parts run alone.** Under either framework, with `AlwaysPublish` and
policies that publish no values, whatever values arrive (of whatever types),
whoever dies and whatever the stop policy answers: each part of a compound
processor goes through the states, is shown the values and publishes the
components that it would alone, and the one gets stuck where the other does. -/
theorem parts_run_alone (k : Framework) (job : Job α) (producedTag : TagID) (tags : List TagID) (p : P) (q : Q)
    (ls : List (Lbl α)) :
    (LTS.exec (Iterative.step c (both X Y).method k) (create (both X Y).method job producedTag tags (p, q)) ls).map
        (firstPart c X Y).agent =
      LTS.exec (Iterative.step (componentConverter V c.expectedTypes) X.method k)
        (create X.method (job.map (firstPart c X Y).message) producedTag tags p)
        (ls.map (firstPart c X Y).label) ∧
    (LTS.exec (Iterative.step c (both X Y).method k) (create (both X Y).method job producedTag tags (p, q)) ls).map
        (secondPart c X Y).agent =
      LTS.exec (Iterative.step (componentConverter W c.expectedTypes) Y.method k)
        (create Y.method (job.map (secondPart c X Y).message) producedTag tags q)
        (ls.map (secondPart c X Y).label) := by
  constructor
  · rw [show (firstPart c X Y).agent = ((firstPart c X Y).hom k).state from rfl, ((firstPart c X Y).hom k).exec]
    exact congrArg (LTS.exec _ · _) ((firstPart c X Y).agent_create job producedTag tags (p, q))
  · rw [show (secondPart c X Y).agent = ((secondPart c X Y).hom k).state from rfl, ((secondPart c X Y).hom k).exec]
    exact congrArg (LTS.exec _ · _) ((secondPart c X Y).agent_create job producedTag tags (p, q))

end Both

end L4.Parts

end Skywing
