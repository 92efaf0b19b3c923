import Skywing.Core.LTS
import Skywing.L3Protocol.Job

/-!
# Iterative methods

`skywing_mid/iterative_method.hpp`, `synchronous_iterative.hpp` and
`asynchronous_iterative.hpp`: one agent as a state machine. The job's thread
takes the loops of `run` in steps (`Pc` is its program point), and between
any two of them the manager's thread may deliver a value (`process_data`) or
declare a neighbour dead (`mark_tag_as_dead`). The loops of `gather_values`
and of `WaiterVec::is_ready` take the job's lock once per tag, so they are
one step per tag. Waiting changes no state: that a wait ended by a time-out
or by a notification is a matter of when the next step is taken.

The processor and the policies are an arbitrary state `P` with arbitrary
functions (`Method`); the answer of the stop policy comes with the label, so
every sequence of answers is a run. `lastStop`, `published` and `processed`
are history: nothing reads them.

`run` assigns `should_iterate_` at two places, `!stop_policy_(*this)` after
an update and `stop_policy_(*this)` after a wait. `stop_respected_iff`: a run
stops only when told, and never when told to go on, exactly when no
evaluation after a wait answers false.
-/
namespace Skywing.L4.Iterative

open L3

/-- `PubSubConverter<DataType>`: values go to their publishable form and
come back. -/
structure PubSubConverter (V α : Type) [Typed α] where
  convert : V → α
  deconvert : α → V
  expectedTypes : List UInt8
  deconvert_convert : ∀ v, deconvert (convert v) = v
  types_convert : ∀ v, types (convert v) = expectedTypes

/-- What a processor is shown; an updated tag is a pointer into `tags_`.
mirrors skywing/skywing_mid/neighbor_data_handler.hpp:49-55 -/
structure NeighborDataHandler (V : Type) where
  tags : List TagID
  neighborValues : AList (fun _ : TagID => V)
  updatedTags : List Nat

/-- The processor and the policies of a method, with their states in `P`.
`publishPolicy` is asked by `AsynchronousIterative` only. The constructor
gathers the initial publications before the policies declared after
`publish_values_` are constructed, so what one of these gives there need not
be what its object would give; any function is allowed. `handleDeadNeighbor`
is shown the dead tags, the tags and where in them the dead one was. -/
structure Method (V P : Type) where
  gatherInitialPublications : P → V
  processAllUpdates : NeighborDataHandler V → P → P
  gatherDataForPublication : V → P → V × P
  publishPolicy : V → V → P → Bool × P
  handleDeadNeighbor : List TagID → List TagID → Nat → P → P

inductive Framework
  | synchronous
  | asynchronous
  deriving DecidableEq, Repr

/-- Where `run` is. -/
inductive Pc
  /-- outside of `run` -/
  | idle
  /-- at `while (should_iterate_)`, the outer one -/
  | outerLoop
  /-- at `while (should_iterate_)`, the inner one -/
  | innerLoop
  /-- in `waitervec_->is_ready()`, with the waiters still to ask -/
  | isReady (waiters : List Job.Waiter)
  /-- in the first loop of `gather_values` -/
  | countUpdates (tagIter numUpdated : Nat)
  /-- in its second loop -/
  | readUpdates (tagIter : Nat)
  | processUpdates
  | publish
  /-- at the callback and `should_iterate_ = !stop_policy_(*this)` -/
  | stopPolicy
  /-- at `if (!should_iterate_) break` and `wait_for_update` -/
  | waitForUpdate
  /-- at `should_iterate_ = stop_policy_(*this)` -/
  | stopPolicyAfterWait
  /-- `run` has returned -/
  | exit
  deriving DecidableEq, Repr

/-- Program points outside of `wait_for_values_`, `gather_values`, the
update and the publication. -/
def Pc.betweenRounds : Pc → Bool
  | .isReady _ | .countUpdates _ _ | .readUpdates _ | .processUpdates | .publish => false
  | _ => true

structure Agent (V α P : Type) where
  job : Job α
  producedTag : TagID
  tags : List TagID
  deadTags : List TagID
  neighborValues : AList (fun _ : TagID => V)
  updatedTags : List Nat
  policies : P
  publishValues : V
  iterationCount : UInt64
  shouldIterate : Bool
  pc : Pc
  /-- the latest answer of the stop policy in this `run` -/
  lastStop : Option Bool
  /-- what `submit_values` has published, in order -/
  published : List (VersionID × α)
  /-- what the processor was shown, in order -/
  processed : List (NeighborDataHandler V)

section Agent
variable {V α P : Type} [Typed α] (c : PubSubConverter V α) (M : Method V P)

/-- mirrors skywing/skywing_mid/iterative_method.hpp:36-53,
synchronous_iterative.hpp:71-86, asynchronous_iterative.hpp:78-93 -/
def create (job : Job α) (producedTag : TagID) (tags : List TagID) (policies : P) : Agent V α P where
  job := job
  producedTag := producedTag
  tags := tags.filter job.tagHasActivePublisher
  deadTags := tags.filter fun t => !job.tagHasActivePublisher t
  neighborValues := ∅
  updatedTags := []
  policies := policies
  publishValues := M.gatherInitialPublications policies
  iterationCount := 0
  shouldIterate := false
  pc := .idle
  lastStop := none
  published := []
  processed := []

/-- Publishes under the job's next version; `Manager::publish` hands the
value to the machine's own jobs too.
mirrors skywing/skywing_mid/iterative_method.hpp:186-190,
skywing_core/manager.cpp:580-590 -/
def submitValues (a : Agent V α P) (valueToSubmit : V) : Option (Agent V α P) := do
  let data := c.convert valueToSubmit
  let (version, job) ← a.job.publishImpl a.producedTag
  let (_, job) ← job.processData a.producedTag data version
  return { a with job := job, published := a.published ++ [(version, data)] }

/-- The policy is called when the tag has been moved from and not erased yet:
an empty string is left in its place.
mirrors skywing/skywing_mid/iterative_method.hpp:62-67 -/
def handleDeadNeighbor (a : Agent V α P) (tagIter : Nat) (tag : TagID) : Agent V α P :=
  { a with
    deadTags := a.deadTags ++ [tag]
    policies := M.handleDeadNeighbor (a.deadTags ++ [tag]) (a.tags.set tagIter []) tagIter a.policies
    tags := a.tags.eraseIdx tagIter }

/-- One step of `gather_values`'s first loop; `noData` is where `run` goes
on when `gather_values` returns false.
mirrors skywing/skywing_mid/iterative_method.hpp:152-168 -/
def countStep (noData : Pc) (a : Agent V α P) (tagIter numUpdated : Nat) : Option (Agent V α P) :=
  match a.tags[tagIter]? with
  | none =>
    if numUpdated = 0 then some { a with pc := noData }
    else some { a with updatedTags := [], pc := .readUpdates 0 }
  | some tag =>
    if !a.job.tagHasActivePublisher tag then some (handleDeadNeighbor M a tagIter tag)
    else (a.job.hasData tag).map fun has =>
      { a with pc := .countUpdates (tagIter + 1) (if has then numUpdated + 1 else numUpdated) }

/-- One step of `gather_values`'s second loop.
mirrors skywing/skywing_mid/iterative_method.hpp:169-181 -/
def readStep (a : Agent V α P) (tagIter : Nat) : Option (Agent V α P) :=
  match a.tags[tagIter]? with
  | none => some { a with pc := .processUpdates }
  | some tag => do
    if ← a.job.hasData tag then
      let waiter ← a.job.getWaiter tag
      let (valueOpt, job) ← a.job.getValue waiter
      let value ← valueOpt
      return { a with
        job := job
        neighborValues := a.neighborValues.insert tag (c.deconvert value)
        updatedTags := a.updatedTags ++ [tagIter]
        pc := .readUpdates (tagIter + 1) }
    else return { a with pc := .readUpdates (tagIter + 1) }

def neighborDataHandler (a : Agent V α P) : NeighborDataHandler V :=
  ⟨a.tags, a.neighborValues, a.updatedTags⟩

/-- mirrors skywing/skywing_mid/synchronous_iterative.hpp:173-180,
asynchronous_iterative.hpp:181-190; only the synchronous one counts
iterations (synchronous_iterative.hpp:107) -/
def processAllUpdates (k : Framework) (a : Agent V α P) : Agent V α P :=
  { a with
    policies := M.processAllUpdates (neighborDataHandler a) a.policies
    processed := a.processed ++ [neighborDataHandler a]
    iterationCount := match k with
      | .synchronous => a.iterationCount + 1
      | .asynchronous => a.iterationCount
    pc := .publish }

/-- mirrors skywing/skywing_mid/synchronous_iterative.hpp:109-110,
asynchronous_iterative.hpp:113-118 -/
def publishStep (k : Framework) (a : Agent V α P) : Option (Agent V α P) :=
  let (newVals, policies) := M.gatherDataForPublication a.publishValues a.policies
  match k with
  | .synchronous =>
    submitValues c { a with policies := policies, publishValues := newVals, pc := .stopPolicy } newVals
  | .asynchronous =>
    let (doPublish, policies) := M.publishPolicy newVals a.publishValues policies
    if doPublish then
      submitValues c { a with policies := policies, publishValues := newVals, pc := .stopPolicy } newVals
    else some { a with policies := policies, pc := .stopPolicy }

/-- `run` up to the outer loop.
mirrors skywing/skywing_mid/synchronous_iterative.hpp:94-96,
asynchronous_iterative.hpp:101-103 -/
def startRun (a : Agent V α P) : Option (Agent V α P) :=
  (submitValues c a a.publishValues).map fun b =>
    { b with shouldIterate := true, lastStop := none, pc := .outerLoop }

/-- One step of `run`, other than an evaluation of the stop policy.
mirrors skywing/skywing_mid/synchronous_iterative.hpp:97-119,209-220,
asynchronous_iterative.hpp:104-127 -/
def runStep (k : Framework) (a : Agent V α P) : Option (Agent V α P) :=
  match a.pc with
  | .idle | .exit | .stopPolicy | .stopPolicyAfterWait => none
  | .outerLoop => some { a with pc := if a.shouldIterate then .innerLoop else .exit }
  | .innerLoop =>
    if a.shouldIterate then
      match k with
      | .synchronous => (a.tags.mapM a.job.getWaiter).map fun ws => { a with pc := .isReady ws }
      | .asynchronous => some { a with pc := .countUpdates 0 0 }
    else some { a with pc := .waitForUpdate }
  | .isReady [] => some { a with pc := .countUpdates 0 0 }
  | .isReady (w :: ws) => (a.job.isReady w).map fun ready =>
    { a with pc := if ready then .isReady ws else .waitForUpdate }
  | .countUpdates tagIter numUpdated =>
    -- the synchronous loop ignores the result of `gather_values`
    match k with
    | .synchronous => countStep M .processUpdates a tagIter numUpdated
    | .asynchronous => countStep M .waitForUpdate a tagIter numUpdated
  | .readUpdates tagIter => readStep c a tagIter
  | .processUpdates => some (processAllUpdates M k a)
  | .publish => publishStep c M k a
  | .waitForUpdate => some { a with pc := if a.shouldIterate then .stopPolicyAfterWait else .exit }

/-- `stop_policy_(*this)` answers `answer`: the two assignments to
`should_iterate_`.
mirrors skywing/skywing_mid/synchronous_iterative.hpp:113,118,
asynchronous_iterative.hpp:121,126 -/
def evalStopPolicy (a : Agent V α P) (answer : Bool) : Option (Agent V α P) :=
  match a.pc with
  | .stopPolicy => some { a with shouldIterate := !answer, lastStop := some answer, pc := .innerLoop }
  | .stopPolicyAfterWait => some { a with shouldIterate := answer, lastStop := some answer, pc := .outerLoop }
  | _ => none

inductive Lbl (α : Type)
  /-- the manager's thread: a value arrives -/
  | data (tag : TagID) (value : α) (version : VersionID)
  /-- the manager's thread: a neighbour has died -/
  | dead (tag : TagID)
  /-- `run` is called -/
  | run
  /-- the loop takes a step -/
  | tick
  /-- the stop policy is evaluated -/
  | stop (answer : Bool)

def step (k : Framework) (a : Agent V α P) : Lbl α → Option (Agent V α P)
  | .data tag value version =>
    (a.job.processData tag value version).map fun r => { a with job := r.2 }
  | .dead tag => some { a with job := a.job.markTagAsDead tag }
  | .run => if a.pc = .idle ∨ a.pc = .exit then startRun c a else none
  | .tick => runStep c M k a
  | .stop answer => evalStopPolicy a answer

/-- `SynchronousIterative::run`. -/
def synchronousRun : Agent V α P → List (Lbl α) → Option (Agent V α P) :=
  LTS.exec (step c M .synchronous)

/-- `AsynchronousIterative::run`. -/
def asynchronousRun : Agent V α P → List (Lbl α) → Option (Agent V α P) :=
  LTS.exec (step c M .asynchronous)

end Agent

section Control
variable {V α P : Type} (M : Method V P)

/-! ## What the flag says about the answers -/

/-- `run` has not returned unless the latest answer was true, and goes on
while it was false. -/
def StopsOnlyWhenTold (a : Agent V α P) : Prop :=
  (a.pc = .exit → a.lastStop = some true) ∧
    (a.lastStop = some false → a.shouldIterate = true ∧ a.pc ≠ .exit)

/-- Once the answer was true, no further round is begun. -/
def StopsWhenTold (a : Agent V α P) : Prop := a.lastStop = some true → a.shouldIterate = false

/-- What the flag says about the answers, as long as no answer after a wait
was false. -/
structure Inv (a : Agent V α P) : Prop where
  told : a.pc ≠ .idle → a.shouldIterate = false → a.lastStop = some true
  goOn : a.lastStop = some false → a.shouldIterate = true
  exited : a.pc = .exit → a.shouldIterate = false

theorem Inv.stopsOnlyWhenTold {a : Agent V α P} (h : Inv a) : StopsOnlyWhenTold a := by
  refine ⟨fun hx => h.told (by rw [hx]; exact nofun) (h.exited hx), fun hl => ⟨h.goOn hl, fun hx => ?_⟩⟩
  have := h.goOn hl
  rw [h.exited hx] at this
  cases this

theorem inv_create (job : Job α) (tag : TagID) (tags : List TagID) (p : P) :
    Inv (create M job tag tags p : Agent V α P) := ⟨fun h => absurd rfl h, nofun, nofun⟩

/-- A step of the loop other than an evaluation leaves the flag and the
answer alone, and leaves `run` only with the flag down. -/
structure Ticks (a b : Agent V α P) : Prop where
  shouldIterate : b.shouldIterate = a.shouldIterate
  lastStop : b.lastStop = a.lastStop
  entered : a.pc ≠ .idle
  exits : b.pc = .exit → a.shouldIterate = false

theorem countStep_ticks {noData : Pc} {a b : Agent V α P} {i n : Nat} (hp : a.pc = .countUpdates i n)
    (h : countStep M noData a i n = some b) (hn : noData ≠ .exit) : Ticks a b := by
  have he : a.pc ≠ .idle := by rw [hp]; exact nofun
  unfold countStep at h
  split at h
  · split at h
    · cases h; exact ⟨rfl, rfl, he, fun hx => absurd hx hn⟩
    · cases h; exact ⟨rfl, rfl, he, nofun⟩
  · split at h
    · cases h
      exact ⟨rfl, rfl, he, fun hx => by simp [handleDeadNeighbor, hp] at hx⟩
    · obtain ⟨has, _, rfl⟩ := Option.map_eq_some_iff.mp h
      exact ⟨rfl, rfl, he, nofun⟩

/-- Both evaluations of the stop policy lead back to a loop's head. -/
theorem evalStopPolicy_eq {a b : Agent V α P} {answer : Bool} (h : evalStopPolicy a answer = some b) :
    a.pc.betweenRounds ∧ a.pc ≠ .idle ∧ ∃ flag pc, pc.betweenRounds = true ∧ pc ≠ .idle ∧
      b = { a with shouldIterate := flag, lastStop := some answer, pc := pc } := by
  unfold evalStopPolicy at h
  split at h
  · rename_i hp
    cases h
    exact ⟨by rw [hp]; rfl, by rw [hp]; exact nofun, !answer, .innerLoop, rfl, nofun, rfl⟩
  · rename_i hp
    cases h
    exact ⟨by rw [hp]; rfl, by rw [hp]; exact nofun, answer, .outerLoop, rfl, nofun, rfl⟩
  · cases h

end Control

section Run
variable {V α P : Type} [Typed α] (c : PubSubConverter V α) (M : Method V P)

/-! ## What a step does to the loops' control -/

/-- Publishing changes the job at the agent's own tag only. -/
theorem submitValues_eq {a b : Agent V α P} {v : V} (h : submitValues c a v = some b) :
    ∃ job version, version = (a.job.lastPublishedVersion.lookup a.producedTag).getD tagNoData + 1 ∧
      b = { a with job := job, published := a.published ++ [(version, c.convert v)] } ∧
      (∀ t, t ≠ a.producedTag → job.bufs.lookup t = a.job.bufs.lookup t) ∧
      job.lastPublishedVersion.lookup a.producedTag = some version := by
  simp only [submitValues, Option.bind_eq_bind, Option.bind_eq_some_iff, Option.pure_def,
    Option.some.injEq] at h
  obtain ⟨⟨version, j⟩, hp, ⟨ok, job⟩, hd, rfl⟩ := h
  obtain ⟨hv, hb, hl⟩ := Job.publishImpl_eq hp
  obtain ⟨hf, hlv⟩ := Job.processData_frame hd
  exact ⟨job, version, hv, rfl, fun t ht => by rw [hf t ht, hb], by rw [hlv, hl]⟩

/-- An agent subscribed to its own tag gets its publication at once. -/
theorem submitValues_self {a b : Agent V α P} {v : V} (h : submitValues c a v = some b) {cid : UInt16}
    {buf : L2.TagBuffer.DiscardOldVersionTagBuffer α}
    (hi : a.job.bufs.lookup a.producedTag = some ⟨some buf, c.expectedTypes, cid, .noError⟩) :
    b.job.bufs.lookup a.producedTag = some ⟨some (buf.add (c.convert v)
      ((a.job.lastPublishedVersion.lookup a.producedTag).getD tagNoData + 1)), c.expectedTypes, cid, .noError⟩ := by
  simp only [submitValues, Option.bind_eq_bind, Option.bind_eq_some_iff, Option.pure_def,
    Option.some.injEq] at h
  obtain ⟨⟨version, j⟩, hp, ⟨ok, job⟩, hd, rfl⟩ := h
  obtain ⟨rfl, hbufs, -⟩ := Job.publishImpl_eq hp
  rw [Job.processData_accept _ (hbufs ▸ hi) rfl (c.types_convert v).symm] at hd
  cases hd
  exact Job.setInfo_self _ _ _

theorem readStep_ticks {a b : Agent V α P} {i : Nat} (hp : a.pc = .readUpdates i)
    (h : readStep c a i = some b) : Ticks a b := by
  have he : a.pc ≠ .idle := by rw [hp]; exact nofun
  unfold readStep at h
  split at h
  · cases h; exact ⟨rfl, rfl, he, nofun⟩
  · simp only [Option.bind_eq_bind, Option.bind_eq_some_iff, Option.pure_def] at h
    obtain ⟨has, _, h⟩ := h
    cases has with
    | true =>
      simp only [if_true, Option.bind_eq_some_iff, Option.some.injEq] at h
      obtain ⟨w, _, r, _, v, _, rfl⟩ := h
      exact ⟨rfl, rfl, he, nofun⟩
    | false =>
      simp only [Bool.false_eq_true, if_false, Option.some.injEq] at h
      subst h; exact ⟨rfl, rfl, he, nofun⟩

theorem publishStep_ticks (k : Framework) {a b : Agent V α P} (hp : a.pc = .publish)
    (h : publishStep c M k a = some b) : Ticks a b := by
  have he : a.pc ≠ .idle := by rw [hp]; exact nofun
  have hsub : ∀ {x : Agent V α P} {v : V}, submitValues c x v = some b →
      x.shouldIterate = a.shouldIterate → x.lastStop = a.lastStop → x.pc = .stopPolicy → Ticks a b := by
    intro x v hs h1 h2 h3
    obtain ⟨job, version, _, rfl, _⟩ := submitValues_eq c hs
    exact ⟨h1, h2, he, fun hx => by rw [h3] at hx; cases hx⟩
  cases k with
  | synchronous => exact hsub h rfl rfl rfl
  | asynchronous =>
    simp only [publishStep] at h
    split at h
    · exact hsub h rfl rfl rfl
    · cases h; exact ⟨rfl, rfl, he, nofun⟩

theorem runStep_ticks (k : Framework) {a b : Agent V α P} (h : runStep c M k a = some b) : Ticks a b := by
  have he : ∀ p, a.pc = p → p ≠ .idle → a.pc ≠ .idle := fun p hp hn => by rw [hp]; exact hn
  unfold runStep at h
  cases hp : a.pc with
  | idle | exit | stopPolicy | stopPolicyAfterWait => rw [hp] at h; cases h
  | outerLoop =>
    rw [hp] at h
    cases h
    refine ⟨rfl, rfl, he _ hp nofun, fun hx => ?_⟩
    cases hs : a.shouldIterate with
    | false => rfl
    | true => simp [hs] at hx
  | innerLoop =>
    simp only [hp] at h
    split at h
    · cases k with
      | synchronous =>
        obtain ⟨ws, _, rfl⟩ := Option.map_eq_some_iff.mp h
        exact ⟨rfl, rfl, he _ hp nofun, nofun⟩
      | asynchronous => cases h; exact ⟨rfl, rfl, he _ hp nofun, nofun⟩
    · cases h; exact ⟨rfl, rfl, he _ hp nofun, nofun⟩
  | isReady ws =>
    rw [hp] at h
    cases ws with
    | nil => cases h; exact ⟨rfl, rfl, he _ hp nofun, nofun⟩
    | cons w ws =>
      obtain ⟨ready, _, rfl⟩ := Option.map_eq_some_iff.mp h
      refine ⟨rfl, rfl, he _ hp nofun, fun hx => ?_⟩
      cases ready <;> cases hx
  | countUpdates i n =>
    simp only [hp] at h
    cases k with
    | synchronous => exact countStep_ticks M hp h nofun
    | asynchronous => exact countStep_ticks M hp h nofun
  | readUpdates i =>
    simp only [hp] at h
    exact readStep_ticks c hp h
  | processUpdates =>
    rw [hp] at h
    cases h; exact ⟨rfl, rfl, he _ hp nofun, nofun⟩
  | publish =>
    simp only [hp] at h
    exact publishStep_ticks c M k hp h
  | waitForUpdate =>
    rw [hp] at h
    cases h
    refine ⟨rfl, rfl, he _ hp nofun, fun hx => ?_⟩
    cases hs : a.shouldIterate with
    | false => rfl
    | true => simp [hs] at hx

/-! ## Stopping when told -/

/-- In the run `ls` of `a₀`, label `n` evaluates the stop policy after a
wait for data that was missing, and the answer is `answer`. -/
def AnswersAfterWait (k : Framework) (a₀ : Agent V α P) (ls : List (Lbl α)) (n : Nat) (answer : Bool) :
    Prop :=
  ∃ u, LTS.Visits (step c M k) a₀ ls n u ∧ u.pc = .stopPolicyAfterWait ∧ ls[n]? = some (.stop answer)

/-- Only an evaluation after a wait can break the invariant, and only by
answering false. -/
theorem inv_step (k : Framework) {a b : Agent V α P} {l : Lbl α} (hI : Inv a) (h : step c M k a l = some b)
    (hw : a.pc = .stopPolicyAfterWait → ∀ answer, l = .stop answer → answer = true) : Inv b := by
  cases l with
  | data tag value version =>
    obtain ⟨r, _, rfl⟩ := Option.map_eq_some_iff.mp h
    exact ⟨hI.told, hI.goOn, hI.exited⟩
  | dead tag => cases h; exact ⟨hI.told, hI.goOn, hI.exited⟩
  | run =>
    simp only [step] at h
    split at h
    · obtain ⟨r, _, rfl⟩ := Option.map_eq_some_iff.mp h
      exact ⟨nofun, nofun, nofun⟩
    · cases h
  | tick =>
    have ht := runStep_ticks c M k h
    refine ⟨fun _ hs => ?_, fun hl => ?_, fun hx => ?_⟩
    · rw [ht.lastStop]; exact hI.told ht.entered (ht.shouldIterate ▸ hs)
    · rw [ht.shouldIterate]; exact hI.goOn (ht.lastStop ▸ hl)
    · rw [ht.shouldIterate]; exact ht.exits hx
  | stop answer =>
    simp only [step, evalStopPolicy] at h
    split at h
    · cases h
      cases answer with
      | true => exact ⟨fun _ _ => rfl, nofun, nofun⟩
      | false => exact ⟨nofun, fun _ => rfl, nofun⟩
    · rename_i hp
      have ha := hw hp answer rfl
      subst ha
      cases h
      exact ⟨nofun, fun _ => rfl, nofun⟩
    · cases h

/-- As long as nothing is answered after a wait, a true answer has the flag
down. -/
theorem stopsWhenTold_step (k : Framework) {a b : Agent V α P} {l : Lbl α} (hI : StopsWhenTold a)
    (h : step c M k a l = some b) (hw : a.pc = .stopPolicyAfterWait → ∀ answer, l ≠ .stop answer) :
    StopsWhenTold b := by
  cases l with
  | data tag value version =>
    obtain ⟨r, _, rfl⟩ := Option.map_eq_some_iff.mp h
    exact hI
  | dead tag => cases h; exact hI
  | run =>
    simp only [step] at h
    split at h
    · obtain ⟨r, _, rfl⟩ := Option.map_eq_some_iff.mp h
      exact nofun
    · cases h
  | tick =>
    have ht := runStep_ticks c M k h
    intro hl
    rw [ht.shouldIterate]; exact hI (ht.lastStop ▸ hl)
  | stop answer =>
    simp only [step, evalStopPolicy] at h
    split at h
    · cases h
      cases answer with
      | true => exact fun _ => rfl
      | false => exact nofun
    · rename_i hp; exact absurd rfl (hw hp answer)
    · cases h

/-- An answer after a wait has the flag follow it instead of its negation. -/
theorem visits_answer {k : Framework} {a₀ : Agent V α P} {ls : List (Lbl α)} {n : Nat} {answer : Bool}
    (h : AnswersAfterWait c M k a₀ ls n answer) : ∃ u, LTS.Visits (step c M k) a₀ ls (n + 1) u ∧
      u.lastStop = some answer ∧ u.shouldIterate = answer := by
  obtain ⟨u, hu, hp, hl⟩ := h
  refine ⟨{ u with shouldIterate := answer, lastStop := some answer, pc := .outerLoop }, ?_, rfl, rfl⟩
  rw [LTS.visits_succ hu hl]
  simp [step, evalStopPolicy, hp]

/-- **Stopping is right exactly away from the second evaluation.** For every
processor, every policies and every run of either framework: `run` stops
only when told and goes on when told to, in every state it goes through, if
and only if no evaluation after a wait answers false; and it moreover stops
whenever told to if and only if there is no evaluation after a wait. -/
theorem stop_respected_iff (k : Framework) (job : Job α) (producedTag : TagID) (tags : List TagID) (p : P)
    (ls : List (Lbl α)) :
    ((∀ n u, LTS.Visits (step c M k) (create M job producedTag tags p) ls n u → StopsOnlyWhenTold u) ↔
      ∀ n, ¬ AnswersAfterWait c M k (create M job producedTag tags p) ls n false) ∧
    ((∀ n u, LTS.Visits (step c M k) (create M job producedTag tags p) ls n u →
        StopsOnlyWhenTold u ∧ StopsWhenTold u) ↔
      ∀ n answer, ¬ AnswersAfterWait c M k (create M job producedTag tags p) ls n answer) := by
  have honly : (∀ n, ¬ AnswersAfterWait c M k (create M job producedTag tags p) ls n false) →
      ∀ n u, LTS.Visits (step c M k) (create M job producedTag tags p) ls n u → Inv u := by
    intro hno
    refine LTS.visits_induction (inv_create M job producedTag tags p) fun n t l u ht hl hs hI => ?_
    refine inv_step c M k hI hs fun hp answer hl' => ?_
    cases answer with
    | true => rfl
    | false => exact absurd ⟨t, ht, hp, hl' ▸ hl⟩ (hno n)
  refine ⟨⟨fun hall n hn => ?_, fun hno n u hu => (honly hno n u hu).stopsOnlyWhenTold⟩,
    ⟨fun hall n answer hn => ?_, fun hno n u hu => ⟨(honly (fun n => hno n false) n u hu).stopsOnlyWhenTold, ?_⟩⟩⟩
  · obtain ⟨u, hu, hl, hs⟩ := visits_answer c M hn
    have := ((hall _ u hu).2 hl).1
    rw [hs] at this
    cases this
  · obtain ⟨u, hu, hl, hs⟩ := visits_answer c M hn
    cases answer with
    | true =>
      have := (hall _ u hu).2 hl
      rw [hs] at this
      cases this
    | false =>
      have := ((hall _ u hu).1.2 hl).1
      rw [hs] at this
      cases this
  · refine LTS.visits_induction (P := StopsWhenTold) (fun h => by cases h) (fun m t l v ht hl hs hI => ?_) n u hu
    exact stopsWhenTold_step c M k hI hs fun hp answer hl' => hno m answer ⟨t, ht, hp, hl' ▸ hl⟩

/-! ## The rounds of the synchronous loop -/

/-- Everything a step of `SynchronousIterative::run` can do. -/
inductive SyncStep (a : Agent V α P) : Agent V α P → Prop
  | control (pc : Pc) : a.pc.betweenRounds → pc.betweenRounds → pc ≠ .idle → SyncStep a { a with pc := pc }
  | makeWaiters (ws : List Job.Waiter) : a.pc.betweenRounds → a.tags.mapM a.job.getWaiter = some ws →
      SyncStep a { a with pc := .isReady ws }
  | timeOut (ws : List Job.Waiter) : a.pc = .isReady ws → SyncStep a { a with pc := .waitForUpdate }
  | oneReady (w : Job.Waiter) (ws : List Job.Waiter) : a.pc = .isReady (w :: ws) →
      a.job.isReady w = some true → SyncStep a { a with pc := .isReady ws }
  | allReady : a.pc = .isReady [] → SyncStep a { a with pc := .countUpdates 0 0 }
  | dead (i n : Nat) (tag : TagID) : a.pc = .countUpdates i n → a.tags[i]? = some tag →
      a.job.tagHasActivePublisher tag = false → SyncStep a (handleDeadNeighbor M a i tag)
  | count (i n : Nat) (tag : TagID) (has : Bool) : a.pc = .countUpdates i n → a.tags[i]? = some tag →
      a.job.hasData tag = some has →
      SyncStep a { a with pc := .countUpdates (i + 1) (if has then n + 1 else n) }
  | noUpdates (i : Nat) : a.pc = .countUpdates i 0 → a.tags[i]? = none →
      SyncStep a { a with pc := .processUpdates }
  | counted (i n : Nat) : a.pc = .countUpdates i n → n ≠ 0 → a.tags[i]? = none →
      SyncStep a { a with updatedTags := [], pc := .readUpdates 0 }
  | pass (i : Nat) (tag : TagID) : a.pc = .readUpdates i → a.tags[i]? = some tag →
      a.job.hasData tag = some false → SyncStep a { a with pc := .readUpdates (i + 1) }
  | read (i : Nat) (tag : TagID) (w : Job.Waiter) (value : α) (job : Job α) :
      a.pc = .readUpdates i → a.tags[i]? = some tag → a.job.hasData tag = some true →
      a.job.getWaiter tag = some w → a.job.getValue w = some (some value, job) →
      SyncStep a { a with
        job := job
        neighborValues := a.neighborValues.insert tag (c.deconvert value)
        updatedTags := a.updatedTags ++ [i]
        pc := .readUpdates (i + 1) }
  | allRead (i : Nat) : a.pc = .readUpdates i → a.tags[i]? = none →
      SyncStep a { a with pc := .processUpdates }
  | process : a.pc = .processUpdates → SyncStep a (processAllUpdates M .synchronous a)
  | publish (v : V) (policies : P) (b : Agent V α P) : a.pc = .publish →
      submitValues c { a with policies := policies, publishValues := v, pc := .stopPolicy } v = some b →
      SyncStep a b

omit [Typed α] in
/-- What a step of `gather_values`'s first loop does. -/
theorem countStep_cases {noData : Pc} {a b : Agent V α P} {i n : Nat} (h : countStep M noData a i n = some b) :
    (a.tags[i]? = none ∧
      (n = 0 ∧ b = { a with pc := noData } ∨ n ≠ 0 ∧ b = { a with updatedTags := [], pc := .readUpdates 0 })) ∨
    ∃ tag, a.tags[i]? = some tag ∧
      (a.job.tagHasActivePublisher tag = false ∧ b = handleDeadNeighbor M a i tag ∨
        ∃ has, a.job.hasData tag = some has ∧
          b = { a with pc := .countUpdates (i + 1) (if has then n + 1 else n) }) := by
  unfold countStep at h
  split at h
  · rename_i ht
    split at h
    · rename_i hn
      cases h; exact .inl ⟨ht, .inl ⟨hn, rfl⟩⟩
    · rename_i hn
      cases h; exact .inl ⟨ht, .inr ⟨hn, rfl⟩⟩
  · rename_i tag ht
    split at h
    · rename_i hact
      cases h; exact .inr ⟨tag, ht, .inl ⟨by simpa using hact, rfl⟩⟩
    · obtain ⟨has, hd, rfl⟩ := Option.map_eq_some_iff.mp h
      exact .inr ⟨tag, ht, .inr ⟨has, hd, rfl⟩⟩

/-- What a step of its second loop does. -/
theorem readStep_cases {a b : Agent V α P} {i : Nat} (h : readStep c a i = some b) :
    (a.tags[i]? = none ∧ b = { a with pc := .processUpdates }) ∨
    ∃ tag, a.tags[i]? = some tag ∧
      (a.job.hasData tag = some false ∧ b = { a with pc := .readUpdates (i + 1) } ∨
        ∃ w value job, a.job.hasData tag = some true ∧ a.job.getWaiter tag = some w ∧
          a.job.getValue w = some (some value, job) ∧
          b = { a with
            job := job
            neighborValues := a.neighborValues.insert tag (c.deconvert value)
            updatedTags := a.updatedTags ++ [i]
            pc := .readUpdates (i + 1) }) := by
  unfold readStep at h
  split at h
  · rename_i ht
    cases h; exact .inl ⟨ht, rfl⟩
  · rename_i tag ht
    simp only [Option.bind_eq_bind, Option.bind_eq_some_iff, Option.pure_def] at h
    obtain ⟨has, hd, h⟩ := h
    cases has with
    | true =>
      simp only [if_true, Option.bind_eq_some_iff, Option.some.injEq] at h
      obtain ⟨w, hw, ⟨vo, job⟩, hr, v, hv, rfl⟩ := h
      cases hv
      exact .inr ⟨tag, ht, .inr ⟨w, _, job, hd, hw, hr, rfl⟩⟩
    | false =>
      simp only [Bool.false_eq_true, if_false, Option.some.injEq] at h
      subst h; exact .inr ⟨tag, ht, .inl ⟨hd, rfl⟩⟩

theorem syncStep_count {a b : Agent V α P} {i n : Nat} (hp : a.pc = .countUpdates i n)
    (h : countStep M .processUpdates a i n = some b) : SyncStep c M a b := by
  obtain ⟨ht, ⟨rfl, rfl⟩ | ⟨hn, rfl⟩⟩ | ⟨tag, ht, ⟨hact, rfl⟩ | ⟨has, hd, rfl⟩⟩ := countStep_cases M h
  · exact .noUpdates i hp ht
  · exact .counted i n hp hn ht
  · exact .dead i n tag hp ht hact
  · exact .count i n tag has hp ht hd

theorem syncStep_read {a b : Agent V α P} {i : Nat} (hp : a.pc = .readUpdates i)
    (h : readStep c a i = some b) : SyncStep c M a b := by
  obtain ⟨ht, rfl⟩ | ⟨tag, ht, ⟨hd, rfl⟩ | ⟨w, value, job, hd, hw, hr, rfl⟩⟩ := readStep_cases c h
  · exact .allRead i hp ht
  · exact .pass i tag hp ht hd
  · exact .read i tag w value job hp ht hd hw hr

theorem syncStep_of_runStep {a b : Agent V α P} (h : runStep c M .synchronous a = some b) :
    SyncStep c M a b := by
  unfold runStep at h
  cases hp : a.pc with
  | idle | exit | stopPolicy | stopPolicyAfterWait => rw [hp] at h; cases h
  | outerLoop =>
    rw [hp] at h
    cases h
    exact .control _ (by rw [hp]; rfl) (by cases a.shouldIterate <;> rfl) (by cases a.shouldIterate <;> exact nofun)
  | innerLoop =>
    simp only [hp] at h
    split at h
    · obtain ⟨ws, hws, rfl⟩ := Option.map_eq_some_iff.mp h
      exact .makeWaiters ws (by rw [hp]; rfl) hws
    · cases h; exact .control _ (by rw [hp]; rfl) rfl nofun
  | isReady ws =>
    rw [hp] at h
    cases ws with
    | nil => cases h; exact .allReady hp
    | cons w ws =>
      obtain ⟨ready, hr, rfl⟩ := Option.map_eq_some_iff.mp h
      cases ready with
      | true => exact .oneReady w ws hp hr
      | false => exact .timeOut _ hp
  | countUpdates i n =>
    simp only [hp] at h
    exact syncStep_count c M hp h
  | readUpdates i =>
    simp only [hp] at h
    exact syncStep_read c M hp h
  | processUpdates =>
    rw [hp] at h
    cases h; exact .process hp
  | publish =>
    simp only [hp] at h
    exact .publish _ _ _ hp h
  | waitForUpdate =>
    rw [hp] at h
    cases h
    exact .control _ (by rw [hp]; rfl) (by cases a.shouldIterate <;> rfl) (by cases a.shouldIterate <;> exact nofun)

/-! ## The rounds of the asynchronous loop -/

/-- Everything a step of `AsynchronousIterative::run` can do. -/
inductive AsyncStep (a : Agent V α P) : Agent V α P → Prop
  | control (pc : Pc) : a.pc.betweenRounds → pc.betweenRounds → pc ≠ .idle → a.pc ≠ .idle →
      AsyncStep a { a with pc := pc }
  | gather : a.pc.betweenRounds → a.pc ≠ .idle → AsyncStep a { a with pc := .countUpdates 0 0 }
  | dead (i n : Nat) (tag : TagID) : a.pc = .countUpdates i n → a.tags[i]? = some tag →
      a.job.tagHasActivePublisher tag = false → AsyncStep a (handleDeadNeighbor M a i tag)
  | count (i n : Nat) (tag : TagID) (has : Bool) : a.pc = .countUpdates i n → a.tags[i]? = some tag →
      a.job.hasData tag = some has →
      AsyncStep a { a with pc := .countUpdates (i + 1) (if has then n + 1 else n) }
  | noUpdates (i : Nat) : a.pc = .countUpdates i 0 → a.tags[i]? = none →
      AsyncStep a { a with pc := .waitForUpdate }
  | counted (i n : Nat) : a.pc = .countUpdates i n → n ≠ 0 → a.tags[i]? = none →
      AsyncStep a { a with updatedTags := [], pc := .readUpdates 0 }
  | pass (i : Nat) (tag : TagID) : a.pc = .readUpdates i → a.tags[i]? = some tag →
      a.job.hasData tag = some false → AsyncStep a { a with pc := .readUpdates (i + 1) }
  | read (i : Nat) (tag : TagID) (w : Job.Waiter) (value : α) (job : Job α) :
      a.pc = .readUpdates i → a.tags[i]? = some tag → a.job.hasData tag = some true →
      a.job.getWaiter tag = some w → a.job.getValue w = some (some value, job) →
      AsyncStep a { a with
        job := job
        neighborValues := a.neighborValues.insert tag (c.deconvert value)
        updatedTags := a.updatedTags ++ [i]
        pc := .readUpdates (i + 1) }
  | allRead (i : Nat) : a.pc = .readUpdates i → a.tags[i]? = none →
      AsyncStep a { a with pc := .processUpdates }
  | process : a.pc = .processUpdates → AsyncStep a (processAllUpdates M .asynchronous a)
  | publish (b : Agent V α P) : a.pc = .publish → publishStep c M .asynchronous a = some b → AsyncStep a b
  /-- it makes no waiters: nothing leads here -/
  | isReady (ws : List Job.Waiter) (pc : Pc) : a.pc = .isReady ws → AsyncStep a { a with pc := pc }

theorem asyncStep_of_runStep {a b : Agent V α P} (h : runStep c M .asynchronous a = some b) :
    AsyncStep c M a b := by
  unfold runStep at h
  cases hp : a.pc with
  | idle | exit | stopPolicy | stopPolicyAfterWait => rw [hp] at h; cases h
  | outerLoop =>
    rw [hp] at h
    cases h
    exact .control _ (by rw [hp]; rfl) (by cases a.shouldIterate <;> rfl) (by cases a.shouldIterate <;> exact nofun)
      (by rw [hp]; exact nofun)
  | innerLoop =>
    simp only [hp] at h
    split at h
    · cases h; exact .gather (by rw [hp]; rfl) (by rw [hp]; exact nofun)
    · cases h; exact .control _ (by rw [hp]; rfl) rfl nofun (by rw [hp]; exact nofun)
  | isReady ws =>
    rw [hp] at h
    cases ws with
    | nil => cases h; exact .isReady _ _ hp
    | cons w ws =>
      obtain ⟨ready, -, rfl⟩ := Option.map_eq_some_iff.mp h
      exact .isReady _ _ hp
  | countUpdates i n =>
    simp only [hp] at h
    obtain ⟨ht, ⟨rfl, rfl⟩ | ⟨hn, rfl⟩⟩ | ⟨tag, ht, ⟨hact, rfl⟩ | ⟨has, hd, rfl⟩⟩ := countStep_cases M h
    · exact .noUpdates i hp ht
    · exact .counted i n hp hn ht
    · exact .dead i n tag hp ht hact
    · exact .count i n tag has hp ht hd
  | readUpdates i =>
    simp only [hp] at h
    obtain ⟨ht, rfl⟩ | ⟨tag, ht, ⟨hd, rfl⟩ | ⟨w, value, job, hd, hw, hr, rfl⟩⟩ := readStep_cases c h
    · exact .allRead i hp ht
    · exact .pass i tag hp ht hd
    · exact .read i tag w value job hp ht hd hw hr
  | processUpdates =>
    rw [hp] at h
    cases h; exact .process hp
  | publish =>
    simp only [hp] at h
    exact .publish _ hp h
  | waitForUpdate =>
    rw [hp] at h
    cases h
    exact .control _ (by rw [hp]; rfl) (by cases a.shouldIterate <;> rfl) (by cases a.shouldIterate <;> exact nofun)
      (by rw [hp]; exact nofun)

end Run

/-! ## A neighbour that is slow to publish -/

def plainConverter : PubSubConverter Nat Nat :=
  ⟨id, id, [], fun _ => rfl, fun _ => rfl⟩

/-- Publishes 0 for ever. -/
def plainMethod : Method Nat Unit where
  gatherInitialPublications _ := 0
  processAllUpdates _ _ := ()
  gatherDataForPublication _ _ := (0, ())
  publishPolicy _ _ _ := (true, ())
  handleDeadNeighbor _ _ _ _ := ()

/-- Publishes "pa" and is subscribed to "pb", from which nothing has come. -/
def waitingAgent : Agent Nat Nat Unit :=
  let job : Job Nat := ⟨∅, ∅, (∅ : AList fun _ : TagID => List UInt8).insert ['p', 'a'] []⟩
  create plainMethod (job.setInfo ['p', 'b'] ⟨some {}, [], 0, .noError⟩) ['p', 'a'] [['p', 'b']] ()

/-- One round without data, and the answer false after the wait. -/
def slowRun : Framework → List (Lbl Nat)
  | .synchronous => .run :: List.replicate 4 .tick ++ [.stop false, .tick]
  | .asynchronous => .run :: List.replicate 5 .tick ++ [.stop false, .tick]

/-- Both methods return although the policy says to go on. -/
theorem stops_against_policy :
    (∃ n u, LTS.Visits (step plainConverter plainMethod .synchronous) waitingAgent (slowRun .synchronous) n u ∧
      ¬ StopsOnlyWhenTold u) ∧
    ∃ n u, LTS.Visits (step plainConverter plainMethod .asynchronous) waitingAgent (slowRun .asynchronous) n u ∧
      ¬ StopsOnlyWhenTold u := by
  have hstop : ∀ u : Agent Nat Nat Unit, u.pc = .exit → u.lastStop = some false → ¬ StopsOnlyWhenTold u :=
    fun u hx hl hs => (hs.2 hl).2 hx
  exact ⟨⟨7, _, rfl, hstop _ rfl rfl⟩, 8, _, rfl, hstop _ rfl rfl⟩

end Skywing.L4.Iterative
