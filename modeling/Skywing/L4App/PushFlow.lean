import Mathlib.Algebra.BigOperators.Group.List.Basic
import Mathlib.Algebra.BigOperators.Ring.List
import Mathlib.Algebra.Order.Ring.Rat
import Mathlib.Tactic.NormNum
import Mathlib.Tactic.Ring
import Skywing.Core.LTS
import Skywing.Core.Maps
import Skywing.Core.Types

/-!
# Push-flow keeps a consensus

`skywing_mid/push_flow_processor.hpp`. An agent keeps for each neighbour a
flow, in two maps: its numerator and its denominator. It publishes both maps;
who reads them takes its own entry, negated, as its flow to the publisher. The
current value is `my_weight_ * my_val_` less the flows over `my_weight_` less
the flows.

Agents that all have the value `v` should have it for ever: each numerator is
`v` times its denominator. The maps keep to that in every run, whatever is
read, lost or stale (`Proportional`). The constructor sets the current
numerator to `my_val_` and not to `my_weight_ * my_val_`, which the first
`process_update` puts right (`processUpdate_values`).

Results:
* `consensus_iff`: the consensus is kept in every state exactly where `v` is 0
  or all weights are 1.
* `no_consensus`: one agent with the weight 2.
-/
namespace Skywing.L4.PushFlow

/-- mirrors skywing/skywing_mid/push_flow_processor.hpp:12 -/
inductive UpdateType
  | original
  | all
  deriving DecidableEq

variable {ι : Type*}

/-- Numerators and denominators.
mirrors skywing/skywing_mid/push_flow_processor.hpp:42-43 -/
abbrev ValueType (ι : Type*) := (AList fun _ : ι => ℚ) × AList fun _ : ι => ℚ

/-- mirrors skywing/skywing_mid/push_flow_processor.hpp:133-141 -/
structure PushFlowProcessor (ι : Type*) where
  myVal : ℚ
  myWeight : ℚ
  currNum : ℚ
  currDenom : ℚ
  fijNum : AList fun _ : ι => ℚ
  fijDenom : AList fun _ : ι => ℚ
  informationCount : UInt64

/-- mirrors skywing/skywing_mid/push_flow_processor.hpp:45-55 -/
def create (myVal myWeight : ℚ) : PushFlowProcessor ι where
  myVal := myVal
  myWeight := myWeight
  currNum := myVal
  currDenom := myWeight
  fijNum := ∅
  fijDenom := ∅
  informationCount := 0

/-- mirrors skywing/skywing_mid/push_flow_processor.hpp:57-60 -/
def getInitPublishValues (p : PushFlowProcessor ι) : ValueType ι := (p.fijNum, p.fijDenom)

/-- mirrors skywing/skywing_mid/push_flow_processor.hpp:92 -/
def getValue (p : PushFlowProcessor ι) : ℚ := p.currNum / p.currDenom

variable [DecidableEq ι]

/-- mirrors skywing/skywing_mid/push_flow_processor.hpp:99-107 -/
def getIfPresentOrDefault (flows : AList fun _ : ι => ℚ) (myId : ι) : ℚ := (flows.lookup myId).getD 0

/-- The body of the loop of `process_update`.
mirrors skywing/skywing_mid/push_flow_processor.hpp:67-78 -/
def processTag (myId : ι) (p : PushFlowProcessor ι) (u : ι × ValueType ι) : PushFlowProcessor ι :=
  if u.1 = myId then p
  else
    { p with
      fijNum := p.fijNum.insert u.1 (-getIfPresentOrDefault u.2.1 myId)
      fijDenom := p.fijDenom.insert u.1 (-getIfPresentOrDefault u.2.2 myId)
      informationCount := p.informationCount + 1 }

/-- mirrors skywing/skywing_mid/push_flow_processor.hpp:62-84 -/
def processUpdate (myId : ι) (p : PushFlowProcessor ι) (updated : List (ι × ValueType ι)) : PushFlowProcessor ι :=
  let p := updated.foldl (processTag myId) p
  { p with
    currNum := p.fijNum.entries.foldl (fun curr e => curr - e.2) (p.myWeight * p.myVal)
    currDenom := p.fijDenom.entries.foldl (fun curr e => curr - e.2) p.myWeight }

/-- `operator[]` of a map and an assignment to it. -/
def addTo (flows : AList fun _ : ι => ℚ) (key : ι) (x : ℚ) : AList fun _ : ι => ℚ :=
  flows.insert key ((flows.lookup key).getD 0 + x)

/-- `choice` is the neighbour drawn.
mirrors skywing/skywing_mid/push_flow_processor.hpp:109-131 -/
def updateFijToSend (updateType : UpdateType) (choice : ℕ) (p : PushFlowProcessor ι) : PushFlowProcessor ι :=
  if p.fijNum.entries.length = 0 then p
  else
    match updateType with
    | .all =>
      { p with
        fijNum := p.fijNum.mapVal fun _ x => x + p.currNum / (1 + p.fijNum.entries.length)
        fijDenom := p.fijDenom.mapVal fun _ x => x + p.currDenom / (1 + p.fijDenom.entries.length) }
    | .original =>
      match p.fijNum.entries[choice % p.fijNum.entries.length]? with
      | none => p
      | some e =>
        { p with
          fijNum := addTo p.fijNum e.1 (p.currNum / 2)
          fijDenom := addTo p.fijDenom e.1 (p.currDenom / 2) }

/-- The processor after `prepare_for_publication`, which returns its maps.
mirrors skywing/skywing_mid/push_flow_processor.hpp:86-90 -/
def prepareForPublication (updateType : UpdateType) (choice : ℕ) (p : PushFlowProcessor ι) :
    PushFlowProcessor ι × ValueType ι :=
  let p := updateFijToSend updateType choice p
  (p, p.fijNum, p.fijDenom)

/-! ## The network -/

/-- `pubs i`: everything `i` has published. -/
structure Net (ι : Type*) where
  proc : ι → PushFlowProcessor ι
  pubs : ι → List (ValueType ι)

/-- mirrors skywing/skywing_mid/asynchronous_iterative.hpp:101-127 -/
inductive Lbl (ι : Type*)
  /-- `run` begins and submits the initial values -/
  | start (i : ι)
  /-- what was prepared is published, or it is not -/
  | prepare (i : ι) (choice : ℕ) (published : Bool)
  /-- one `process_update` of `i`, given for each updated tag the index of
  the publication it finds there -/
  | update (i : ι) (fresh : List (ι × ℕ))

def init (value : ℚ) (weight : ι → ℚ) : Net ι where
  proc i := create value (weight i)
  pubs _ := []

/-- Any publication of a neighbour may be found, also an old one, and any may
be missed. -/
def fetch (nbrs : ι → ι → Bool) (s : Net ι) (i : ι) : List (ι × ℕ) → Option (List (ι × ValueType ι))
  | [] => some []
  | (j, k) :: rest =>
    if nbrs i j then
      match (s.pubs j)[k]?, fetch nbrs s i rest with
      | some v, some vs => some ((j, v) :: vs)
      | _, _ => none
    else none

def step (updateType : UpdateType) (nbrs : ι → ι → Bool) (s : Net ι) : Lbl ι → Option (Net ι)
  | .start i => some { s with pubs := Function.update s.pubs i (s.pubs i ++ [getInitPublishValues (s.proc i)]) }
  | .prepare i choice published =>
    let (p, v) := prepareForPublication updateType choice (s.proc i)
    some {
      proc := Function.update s.proc i p
      pubs := if published then Function.update s.pubs i (s.pubs i ++ [v]) else s.pubs }
  | .update i fresh =>
    (fetch nbrs s i fresh).map fun vs => { s with proc := Function.update s.proc i (processUpdate i (s.proc i) vs) }

def lts (updateType : UpdateType) (nbrs : ι → ι → Bool) (value : ℚ) (weight : ι → ℚ) : LTS (Net ι) (Lbl ι) :=
  LTS.ofFn (· = init value weight) (step updateType nbrs)

/-! ## Proportional maps -/

/-- The same keys, and each numerator is `v` times its denominator. -/
def Proportional (v : ℚ) (nums denoms : AList fun _ : ι => ℚ) : Prop :=
  ∀ k, nums.lookup k = (denoms.lookup k).map (v * ·)

structure Consensus (v : ℚ) (p : PushFlowProcessor ι) : Prop where
  flows : Proportional v p.fijNum p.fijDenom
  curr : p.currNum = v * p.currDenom
  value : p.currDenom ≠ 0 → getValue p = v

variable {v : ℚ} {nums denoms : AList fun _ : ι => ℚ} {p : PushFlowProcessor ι}

namespace Proportional

theorem insert (h : Proportional v nums denoms) (key : ι) (x : ℚ) :
    Proportional v (nums.insert key (v * x)) (denoms.insert key x) := by
  intro k
  by_cases hk : k = key
  · subst hk
    simp
  · simp [hk, h k]

theorem getD (h : Proportional v nums denoms) (key : ι) :
    (nums.lookup key).getD 0 = v * (denoms.lookup key).getD 0 := by
  rw [h key]
  cases denoms.lookup key <;> simp

theorem mapVal_add (h : Proportional v nums denoms) (x : ℚ) :
    Proportional v (nums.mapVal fun _ y => y + v * x) (denoms.mapVal fun _ y => y + x) := by
  intro k
  rw [AList.lookup_mapVal, AList.lookup_mapVal, h k]
  cases denoms.lookup k <;> simp [mul_add]

/-- The entries of the two maps, in some order. -/
theorem perm (h : Proportional v nums denoms) : nums.entries.Perm (denoms.mapVal fun _ y => v * y).entries := by
  refine List.lookup_ext nums.nodupKeys (AList.nodupKeys _) fun k y => ?_
  have hk : nums.lookup k = (denoms.mapVal fun _ y => v * y).lookup k := by rw [AList.lookup_mapVal, h k]
  show y ∈ nums.lookup k ↔ y ∈ (denoms.mapVal fun _ y => v * y).lookup k
  rw [hk]

theorem length_eq (h : Proportional v nums denoms) : nums.entries.length = denoms.entries.length := by
  rw [h.perm.length_eq, AList.mapVal, List.length_map]

end Proportional

omit [DecidableEq ι] in
theorem foldl_sub (l : List (Σ _ : ι, ℚ)) (x : ℚ) : l.foldl (fun curr e => curr - e.2) x = x - (l.map (·.2)).sum := by
  induction l generalizing x with
  | nil => simp
  | cons e l ih =>
    rw [List.foldl_cons, ih, List.map_cons, List.sum_cons]
    ring

theorem Proportional.sum (h : Proportional v nums denoms) :
    (nums.entries.map (·.2)).sum = v * (denoms.entries.map (·.2)).sum := by
  rw [(h.perm.map _).sum_eq, AList.mapVal, List.map_map, ← List.sum_map_mul_left]
  rfl

/-! ## One processor -/

theorem processTag_flows (myId : ι) (h : Proportional v p.fijNum p.fijDenom) {u : ι × ValueType ι}
    (hu : Proportional v u.2.1 u.2.2) :
    Proportional v (processTag myId p u).fijNum (processTag myId p u).fijDenom := by
  unfold processTag
  split
  · exact h
  · have hneg : -getIfPresentOrDefault u.2.1 myId = v * -getIfPresentOrDefault u.2.2 myId := by
      unfold getIfPresentOrDefault
      rw [hu.getD]
      ring
    dsimp only
    rw [hneg]
    exact h.insert u.1 _

theorem processTags_flows (myId : ι) : ∀ (us : List (ι × ValueType ι)) (p : PushFlowProcessor ι),
    Proportional v p.fijNum p.fijDenom → (∀ u ∈ us, Proportional v u.2.1 u.2.2) →
    Proportional v (us.foldl (processTag myId) p).fijNum (us.foldl (processTag myId) p).fijDenom ∧
      (us.foldl (processTag myId) p).myVal = p.myVal
  | [], p, h, _ => ⟨h, rfl⟩
  | u :: us, p, h, hus => by
    have h₁ := processTag_flows myId h (hus u List.mem_cons_self)
    obtain ⟨h₂, hval⟩ := processTags_flows myId us (processTag myId p u) h₁ fun w hw =>
      hus w (List.mem_cons_of_mem u hw)
    refine ⟨h₂, hval.trans ?_⟩
    unfold processTag
    split <;> rfl

/-- An update recomputes the current value, whatever it was. -/
theorem processUpdate_values (myId : ι) {us : List (ι × ValueType ι)} (h : Proportional v p.fijNum p.fijDenom)
    (hval : p.myVal = v) (hus : ∀ u ∈ us, Proportional v u.2.1 u.2.2) :
    Proportional v (processUpdate myId p us).fijNum (processUpdate myId p us).fijDenom ∧
      (processUpdate myId p us).currNum = v * (processUpdate myId p us).currDenom ∧
      (processUpdate myId p us).myVal = v := by
  obtain ⟨hflows, hval'⟩ := processTags_flows myId us p h hus
  refine ⟨hflows, ?_, hval'.trans hval⟩
  unfold processUpdate
  dsimp only
  rw [foldl_sub, foldl_sub, hflows.sum, hval', hval]
  ring

theorem addTo_flows (h : Proportional v nums denoms) (key : ι) (x : ℚ) :
    Proportional v (addTo nums key (v * x)) (addTo denoms key x) := by
  unfold addTo
  rw [h.getD, ← mul_add]
  exact h.insert key _

theorem updateFijToSend_flows (updateType : UpdateType) (choice : ℕ) (h : Proportional v p.fijNum p.fijDenom)
    (hcurr : p.currNum = v * p.currDenom) :
    Proportional v (updateFijToSend updateType choice p).fijNum (updateFijToSend updateType choice p).fijDenom := by
  unfold updateFijToSend
  split
  · exact h
  cases updateType with
  | all =>
    dsimp only
    rw [hcurr, h.length_eq, mul_div_assoc]
    exact h.mapVal_add _
  | original =>
    dsimp only
    split
    · exact h
    · dsimp only
      rw [hcurr, mul_div_assoc]
      exact addTo_flows h _ _

theorem updateFijToSend_frame (updateType : UpdateType) (choice : ℕ) (p : PushFlowProcessor ι) :
    (updateFijToSend updateType choice p).currNum = p.currNum ∧
      (updateFijToSend updateType choice p).currDenom = p.currDenom ∧
      (updateFijToSend updateType choice p).myVal = p.myVal := by
  unfold updateFijToSend
  split
  · exact ⟨rfl, rfl, rfl⟩
  cases updateType with
  | all => exact ⟨rfl, rfl, rfl⟩
  | original =>
    dsimp only
    split <;> exact ⟨rfl, rfl, rfl⟩

/-! ## Runs -/

structure Inv (v : ℚ) (s : Net ι) : Prop where
  flows : ∀ i, Proportional v (s.proc i).fijNum (s.proc i).fijDenom
  curr : ∀ i, (s.proc i).currNum = v * (s.proc i).currDenom
  myVal : ∀ i, (s.proc i).myVal = v
  pubs : ∀ i, ∀ msg ∈ s.pubs i, Proportional v msg.1 msg.2

omit [DecidableEq ι] in
theorem fetch_mem {nbrs : ι → ι → Bool} {s : Net ι} {i : ι} : ∀ {fresh : List (ι × ℕ)} {vs : List (ι × ValueType ι)},
    fetch nbrs s i fresh = some vs → ∀ u ∈ vs, u.2 ∈ s.pubs u.1
  | [], vs, h, u, hu => by
    cases h
    cases hu
  | (j, k) :: rest, vs, h, u, hu => by
    rw [fetch] at h
    split at h
    · split at h
      · rename_i w ws hw hrest
        cases h
        rcases List.mem_cons.mp hu with rfl | hu
        · exact List.mem_of_getElem? hw
        · exact fetch_mem hrest u hu
      · cases h
    · cases h

/-- One processor has moved. -/
theorem Inv.move {s : Net ι} (h : Inv v s) (i : ι) {p : PushFlowProcessor ι}
    (hflows : Proportional v p.fijNum p.fijDenom)
    (hcurr : p.currNum = v * p.currDenom) (hval : p.myVal = v) {pubs : ι → List (ValueType ι)}
    (hpubs : ∀ j, ∀ m ∈ pubs j, Proportional v m.1 m.2) : Inv v ⟨Function.update s.proc i p, pubs⟩ := by
  refine ⟨fun j => ?_, fun j => ?_, fun j => ?_, hpubs⟩
  all_goals
    by_cases hji : j = i
    · subst hji
      simp [hflows, hcurr, hval]
    · simp [hji, h.flows j, h.curr j, h.myVal j]

theorem inv_step {updateType : UpdateType} {nbrs : ι → ι → Bool} {s t : Net ι} {l : Lbl ι} (hI : Inv v s)
    (h : step updateType nbrs s l = some t) : Inv v t := by
  cases l with
  | start i =>
    cases h
    exact ⟨hI.flows, hI.curr, hI.myVal, forall_mem_log hI.pubs (hI.flows i)⟩
  | prepare i choice published =>
    cases h
    have hflows := updateFijToSend_flows updateType choice (hI.flows i) (hI.curr i)
    obtain ⟨hnum, hdenom, hval⟩ := updateFijToSend_frame updateType choice (s.proc i)
    refine hI.move i hflows (by rw [hnum, hdenom, hI.curr i]) (hval.trans (hI.myVal i)) ?_
    cases published with
    | false => exact hI.pubs
    | true => exact forall_mem_log hI.pubs hflows
  | update i fresh =>
    obtain ⟨vs, hvs, rfl⟩ := Option.map_eq_some_iff.mp h
    obtain ⟨hflows, hcurr, hval⟩ := processUpdate_values i (hI.flows i) (hI.myVal i)
      fun u hu => hI.pubs u.1 u.2 (fetch_mem hvs u hu)
    exact hI.move i hflows hcurr hval hI.pubs

theorem inv_inductive {updateType : UpdateType} {nbrs : ι → ι → Bool} {weight : ι → ℚ}
    (hw : v = 0 ∨ ∀ i, weight i = 1) : (lts updateType nbrs v weight).Inductive (Inv v) where
  init := by
    rintro s rfl
    refine ⟨fun _ _ => rfl, fun i => ?_, fun _ => rfl, fun _ _ h => nomatch h⟩
    show v = v * weight i
    rcases hw with rfl | hw
    · rw [zero_mul]
    · rw [hw i, mul_one]
  step := fun _ _ _ hI h => inv_step hI h

theorem Inv.consensus {s : Net ι} (h : Inv v s) (i : ι) : Consensus v (s.proc i) :=
  ⟨h.flows i, h.curr i, fun hd => by rw [getValue, h.curr i, mul_div_cancel_right₀ v hd]⟩

/-- **Push-flow keeps a consensus where all weights are 1 or the value is 0**,
and nowhere else: before its first update an agent is off by its weight. -/
theorem consensus_iff (updateType : UpdateType) (nbrs : ι → ι → Bool) (v : ℚ) (weight : ι → ℚ) :
    (∀ s, (lts updateType nbrs v weight).Reachable s → ∀ i, Consensus v (s.proc i)) ↔
      v = 0 ∨ ∀ i, weight i = 1 := by
  constructor
  · intro h
    have hinit := h (init v weight) (.init rfl)
    by_cases hv : v = 0
    · exact .inl hv
    · refine .inr fun i => ?_
      have hcurr : v = v * weight i := (hinit i).curr
      exact mul_left_cancel₀ hv (by rw [← hcurr, mul_one])
  · intro hw s hs i
    exact ((inv_inductive hw).reachable s hs).consensus i

theorem no_consensus : ∃ s, (lts .all (fun _ _ => true) 3 (fun _ : Unit => 2)).Reachable s ∧
    ¬ Consensus 3 (s.proc ()) := by
  refine ⟨init 3 fun _ => 2, .init rfl, fun h => ?_⟩
  have hcurr : (3 : ℚ) = 3 * 2 := h.curr
  exact absurd hcurr (by norm_num)

end Skywing.L4.PushFlow
