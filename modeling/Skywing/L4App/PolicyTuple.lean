import Skywing.L1Encoding.CarriedSizes
import Skywing.L1Encoding.PubSubLanguage
import Skywing.L3Protocol.TypedValues
import Skywing.L4App.Iterative

/-!
# The policies' tuple

An iterative method publishes one tuple with a component for each of its
policies that has a `ValueType`
(`skywing_mid/internal/iterative_helpers.hpp`, `iterative_method.hpp`). Three
recursions over the list of policy types have to agree: the tuple of value
types, the tuple of publishers, and the search for a policy in the latter.

Results:
* `exists_indexInPublishers`, `indexInPublishers_none`: the policies with a
  `ValueType`, and no others, have an index, and the component there has
  their type.
* `get_catParts`: the component is the policy's own part of the tuple.
* `contributed_run`: so in every run of either method a policy's component is
  of the policy's own making.
* `own_data_back`: and a neighbour's object of the policy is shown that
  value. Cap'n Proto bounds the lists of a message, so that no published
  vector is as long as the 32-bit sizes of the conversion could not tell.

The constructors declare `publish_values_` before the publish policy and the
stop policy, so `gather_initial_publications_` calls these two on objects that
are not constructed yet. What they give then is at their own index all the
same: nothing is assumed of the objects it finds.
-/
namespace Skywing.L4.PolicyTuple

open PubSub L1.Published L3 L3.TypedValues Iterative

/-! ## Policies -/

/-- The members of a policy with a `ValueType` that a method calls. No
`get_init_publish_values` changes its object; `process_update` is also passed
the method, of which nothing is shown here. -/
structure Publisher (Obj : Type) where
  ValueType : Ty
  getInitPublishValues : Obj → ValueType.val
  processUpdate : NeighborDataHandler ValueType.val → Obj → Obj
  prepareForPublication : ValueType.val → Obj → ValueType.val × Obj

/-- The policy types a program has, with the classes they are. -/
structure Policies (Policy : Type) where
  Obj : Policy → Type
  publisher : (P : Policy) → Option (Publisher (Obj P))

/-- mirrors skywing/skywing_mid/internal/iterative_helpers.hpp:52-64 -/
def tupleOfValueType {Obj : Type} : Option (Publisher Obj) → List Ty
  | none => []
  | some pub => [pub.ValueType]

section Policies
variable {Policy : Type} (T : Policies Policy)

/-- mirrors skywing/skywing_mid/internal/iterative_helpers.hpp:52-64 -/
def tupleOfType (P : Policy) : List Policy :=
  match T.publisher P with
  | none => []
  | some _ => [P]

/-- mirrors skywing/skywing_mid/internal/iterative_helpers.hpp:68-72 -/
def tupleOfValueTypes : List Policy → List Ty
  | [] => []
  | P :: Ps => tupleOfValueType (T.publisher P) ++ tupleOfValueTypes Ps

/-- mirrors skywing/skywing_mid/internal/iterative_helpers.hpp:102-106 -/
def tupleOfOnlyPublishers : List Policy → List Policy
  | [] => []
  | P :: Ps => tupleOfType T P ++ tupleOfOnlyPublishers Ps

theorem length_tupleOfType (P : Policy) : (tupleOfType T P).length = (tupleOfValueType (T.publisher P)).length := by
  unfold tupleOfType
  cases T.publisher P <;> rfl

theorem eq_of_mem_tupleOfType {P Q : Policy} (h : P ∈ tupleOfType T Q) : P = Q := by
  unfold tupleOfType at h
  cases hpub : T.publisher Q with
  | none =>
    rw [hpub] at h
    cases h
  | some _ =>
    rw [hpub] at h
    exact List.mem_singleton.mp h

variable [DecidableEq Policy]

/-- There is none in the empty tuple.
mirrors skywing/skywing_mid/internal/iterative_helpers.hpp:80-96 -/
def indexOf (P : Policy) : List Policy → Option Nat
  | [] => none
  | TOther :: Ts => if P = TOther then some 0 else (indexOf P Ts).map (1 + ·)

/-- mirrors skywing/skywing_mid/internal/iterative_helpers.hpp:113-121 -/
def indexInPublishers (P : Policy) (Ps : List Policy) : Option Nat := indexOf P (tupleOfOnlyPublishers T Ps)

/-! ## The three recursions agree -/

theorem indexOf_append {P : Policy} {Qs : List Policy} (Ps : List Policy) (h : P ∉ Qs) :
    indexOf P (Qs ++ Ps) = (indexOf P Ps).map (Qs.length + ·) := by
  induction Qs with
  | nil => simp
  | cons Q Qs ih =>
    obtain ⟨hQ, hQs⟩ := List.ne_and_not_mem_of_not_mem_cons h
    rw [List.cons_append, indexOf, if_neg hQ, ih hQs, Option.map_map]
    congr 1
    funext i
    simp only [Function.comp_apply, List.length_cons]
    omega

variable {T}

theorem indexInPublishers_self {P : Policy} {pub : Publisher (T.Obj P)} (hpub : T.publisher P = some pub)
    (Ps : List Policy) : indexInPublishers T P (P :: Ps) = some 0 := by
  have htype : tupleOfType T P = [P] := by rw [tupleOfType, hpub]
  rw [indexInPublishers, tupleOfOnlyPublishers, htype, List.singleton_append, indexOf, if_pos rfl]

/-- The policies in front are skipped as their value types are. -/
theorem indexInPublishers_cons {P Q : Policy} (h : P ≠ Q) (Ps : List Policy) :
    indexInPublishers T P (Q :: Ps) =
      (indexInPublishers T P Ps).map ((tupleOfValueType (T.publisher Q)).length + ·) := by
  rw [indexInPublishers, tupleOfOnlyPublishers, indexOf_append _ fun hP => h (eq_of_mem_tupleOfType T hP),
    length_tupleOfType, indexInPublishers]

/-- The component that is found has the type of the policy. -/
theorem exists_indexInPublishers {P : Policy} {pub : Publisher (T.Obj P)} (hpub : T.publisher P = some pub)
    {Ps : List Policy} (hP : P ∈ Ps) :
    ∃ ind, indexInPublishers T P Ps = some ind ∧ (tupleOfValueTypes T Ps)[ind]? = some pub.ValueType := by
  induction Ps with
  | nil => cases hP
  | cons Q Ps ih =>
    by_cases hQ : P = Q
    · subst hQ
      refine ⟨0, indexInPublishers_self hpub Ps, ?_⟩
      rw [tupleOfValueTypes, hpub]
      rfl
    · obtain ⟨ind, hind, htype⟩ := ih ((List.mem_cons.mp hP).resolve_left hQ)
      refine ⟨(tupleOfValueType (T.publisher Q)).length + ind, ?_, ?_⟩
      · rw [indexInPublishers_cons hQ, hind, Option.map_some]
      · rw [tupleOfValueTypes, List.getElem?_append_right (Nat.le_add_right _ _), Nat.add_sub_cancel_left, htype]

/-- A policy without a `ValueType` has no index. -/
theorem indexInPublishers_none {P : Policy} (hpub : T.publisher P = none) (Ps : List Policy) :
    indexInPublishers T P Ps = none := by
  induction Ps with
  | nil => rfl
  | cons Q Ps ih =>
    by_cases hQ : P = Q
    · subst hQ
      have htype : tupleOfType T P = [] := by rw [tupleOfType, hpub]
      rw [indexInPublishers, tupleOfOnlyPublishers, htype]
      exact ih
    · rw [indexInPublishers_cons hQ, ih, Option.map_none]

theorem indexOf_inj {P Q : Policy} {Ps : List Policy} {i : Nat} (hP : indexOf P Ps = some i)
    (hQ : indexOf Q Ps = some i) : P = Q := by
  induction Ps generalizing i with
  | nil => cases hP
  | cons R Ps ih =>
    unfold indexOf at hP hQ
    split at hP
    · rename_i hPR
      split at hQ
      · rename_i hQR
        exact hPR.trans hQR.symm
      · cases hP
        obtain ⟨j, -, hj⟩ := Option.map_eq_some_iff.mp hQ
        omega
    · obtain ⟨j, hj, rfl⟩ := Option.map_eq_some_iff.mp hP
      split at hQ
      · have := Option.some.inj hQ
        omega
      · obtain ⟨k, hk, hkj⟩ := Option.map_eq_some_iff.mp hQ
        obtain rfl : k = j := by omega
        exact ih hj hk

/-- `IndexInPublishers<Policy, IterMethod>::index`, where it exists. -/
def ind {P : Policy} {pub : Publisher (T.Obj P)} (hpub : T.publisher P = some pub) {Ps : List Policy} (hP : P ∈ Ps) :
    Nat :=
  (indexInPublishers T P Ps).get <| by
    obtain ⟨i, hi, -⟩ := exists_indexInPublishers hpub hP
    rw [hi]
    rfl

theorem indexInPublishers_eq {P : Policy} {pub : Publisher (T.Obj P)} (hpub : T.publisher P = some pub)
    {Ps : List Policy} (hP : P ∈ Ps) : indexInPublishers T P Ps = some (ind hpub hP) := (Option.some_get _).symm

theorem getElem?_ind {P : Policy} {pub : Publisher (T.Obj P)} (hpub : T.publisher P = some pub) {Ps : List Policy}
    (hP : P ∈ Ps) : (tupleOfValueTypes T Ps)[ind hpub hP]? = some pub.ValueType := by
  obtain ⟨i, hi, htype⟩ := exists_indexInPublishers hpub hP
  have heq : ind hpub hP = i := Option.some.inj ((indexInPublishers_eq hpub hP).symm.trans hi)
  rw [heq, htype]

/-! ## What is gathered -/

variable (T)

/-- The policies of a method object. -/
def Objs : List Policy → Type
  | [] => Unit
  | P :: Ps => T.Obj P × Objs Ps

def objAt : (Ps : List Policy) → Objs T Ps → (j : Nat) → {P : Policy} → Ps[j]? = some P → T.Obj P
  | [], _, _, _, h => nomatch h
  | _ :: _, objs, 0, _, h => Option.some.inj h ▸ objs.1
  | _ :: Ps, objs, j + 1, _, h => objAt Ps objs.2 j h

/-- The arguments of `std::tuple_cat`. -/
def Parts : List Policy → Type
  | [] => Unit
  | P :: Ps => Ty.vals (tupleOfValueType (T.publisher P)) × Parts Ps

def partAt : (Ps : List Policy) → Parts T Ps → (j : Nat) → {P : Policy} → Ps[j]? = some P →
    Ty.vals (tupleOfValueType (T.publisher P))
  | [], _, _, _, h => nomatch h
  | _ :: _, parts, 0, _, h => Option.some.inj h ▸ parts.1
  | _ :: Ps, parts, j + 1, _, h => partAt Ps parts.2 j h

def catParts : (Ps : List Policy) → Parts T Ps → Ty.vals (tupleOfValueTypes T Ps)
  | [], _ => ()
  | P :: Ps, parts => catVals (tupleOfValueType (T.publisher P)) parts.1 (catParts Ps parts.2)

variable {T}

theorem head_tupleOfValueType {Obj : Type} {pub : Publisher Obj} {o : Option (Publisher Obj)} (h : o = some pub) :
    (tupleOfValueType o)[0]? = some pub.ValueType := by
  rw [h]
  rfl

/-- **The index finds the policy's own part.** -/
theorem get_catParts {P : Policy} {pub : Publisher (T.Obj P)} (hpub : T.publisher P = some pub) {Ps : List Policy}
    (hnodup : Ps.Nodup) (parts : Parts T Ps) {j : Nat} (hj : Ps[j]? = some P) {i : Nat}
    (hi : indexInPublishers T P Ps = some i) (h : (tupleOfValueTypes T Ps)[i]? = some pub.ValueType) :
    get (tupleOfValueTypes T Ps) (catParts T Ps parts) i h =
      get (tupleOfValueType (T.publisher P)) (partAt T Ps parts j hj) 0 (head_tupleOfValueType hpub) := by
  induction Ps generalizing j i with
  | nil => cases hj
  | cons Q Ps ih =>
    cases j with
    | zero =>
      cases hj
      obtain rfl : 0 = i := Option.some.inj ((indexInPublishers_self hpub Ps).symm.trans hi)
      exact get_catVals_left _ parts.1 _ 0 h (head_tupleOfValueType hpub)
    | succ j =>
      have hne : P ≠ Q := by
        rintro rfl
        exact (List.nodup_cons.mp hnodup).1 (List.mem_of_getElem? hj)
      rw [indexInPublishers_cons hne] at hi
      obtain ⟨i', hi', rfl⟩ := Option.map_eq_some_iff.mp hi
      have h' : (tupleOfValueTypes T Ps)[i']? = some pub.ValueType := by
        rwa [tupleOfValueTypes, List.getElem?_append_right (Nat.le_add_right _ _), Nat.add_sub_cancel_left] at h
      have hright := get_catVals_right _ parts.1 (catParts T Ps parts.2) rfl h h'
      exact hright.trans (ih (List.nodup_cons.mp hnodup).2 parts.2 hj hi' h')

/-! ## What the policies are asked -/

section Calls
variable {Obj : Type}

/-- mirrors skywing/skywing_mid/iterative_method.hpp:282-288 -/
def getInitTuple : (o : Option (Publisher Obj)) → Obj → Ty.vals (tupleOfValueType o)
  | none, _ => ()
  | some pub, policyObj => (pub.getInitPublishValues policyObj, ())

/-- `component` is `std::get<ind>(vals)`.
mirrors skywing/skywing_mid/iterative_method.hpp:305-315 -/
def getPubTuple : (o : Option (Publisher Obj)) → (component : ∀ pub, o = some pub → pub.ValueType.val) → Obj →
    Ty.vals (tupleOfValueType o) × Obj
  | none, _, policyObj => ((), policyObj)
  | some pub, component, policyObj =>
    let (prepared, policyObj) := pub.prepareForPublication (component pub rfl) policyObj
    ((prepared, ()), policyObj)

/-- Without a `ValueType` there is nothing to process.
mirrors skywing/skywing_mid/iterative_method.hpp:252-267 -/
def processPolicyUpdate : (o : Option (Publisher Obj)) →
    (handler : ∀ pub, o = some pub → NeighborDataHandler pub.ValueType.val) → Obj → Obj
  | none, _, policy => policy
  | some pub, handler, policy => pub.processUpdate (handler pub rfl) policy

end Calls

/-- `std::get<ind>`, for the index of the policy. -/
def component {P : Policy} {pub : Publisher (T.Obj P)} (hpub : T.publisher P = some pub) {Ps : List Policy}
    (hP : P ∈ Ps) (vals : Ty.vals (tupleOfValueTypes T Ps)) : pub.ValueType.val :=
  get (tupleOfValueTypes T Ps) vals (ind hpub hP) (getElem?_ind hpub hP)

/-- A handler applies its transformer to every value it shows.
mirrors skywing/skywing_mid/iterative_method.hpp:235-243,
neighbor_data_handler.hpp:49-55 -/
def getPolicyDataHandler {P : Policy} {pub : Publisher (T.Obj P)} (hpub : T.publisher P = some pub)
    {Ps : List Policy} (hP : P ∈ Ps) (h : NeighborDataHandler (Ty.vals (tupleOfValueTypes T Ps))) :
    NeighborDataHandler pub.ValueType.val :=
  ⟨h.tags, h.neighborValues.mapVal fun _ v => component hpub hP v, h.updatedTags⟩

section Gather
variable (T)

def initParts : (Ps : List Policy) → Objs T Ps → Parts T Ps
  | [], _ => ()
  | P :: Ps, objs => (getInitTuple (T.publisher P) objs.1, initParts Ps objs.2)

/-- `objs` is what the constructor finds: storage, for the policies declared
after `publish_values_`.
mirrors skywing/skywing_mid/synchronous_iterative.hpp:186-192,
asynchronous_iterative.hpp:196-203 -/
def gatherInitialPublications (Ps : List Policy) (objs : Objs T Ps) : Ty.vals (tupleOfValueTypes T Ps) :=
  catParts T Ps (initParts T Ps objs)

/-- The calls for `Qs`, of the policies `Ps`. -/
def pubParts (Ps : List Policy) (vals : Ty.vals (tupleOfValueTypes T Ps)) :
    (Qs : List Policy) → (∀ Q ∈ Qs, Q ∈ Ps) → Objs T Qs → Parts T Qs × Objs T Qs
  | [], _, _ => ((), ())
  | Q :: Qs, h, objs =>
    let first := getPubTuple (T.publisher Q) (fun _ hpub => component hpub (h Q List.mem_cons_self) vals) objs.1
    let rest := pubParts Ps vals Qs (fun R hR => h R (List.mem_cons_of_mem Q hR)) objs.2
    ((first.1, rest.1), (first.2, rest.2))

/-- mirrors skywing/skywing_mid/synchronous_iterative.hpp:199-205,
asynchronous_iterative.hpp:209-216 -/
def gatherDataForPublication (Ps : List Policy) (vals : Ty.vals (tupleOfValueTypes T Ps)) (objs : Objs T Ps) :
    Ty.vals (tupleOfValueTypes T Ps) × Objs T Ps :=
  let (parts, objs) := pubParts T Ps vals Ps (fun _ hP => hP) objs
  (catParts T Ps parts, objs)

def processUpdates (Ps : List Policy) (handler : NeighborDataHandler (Ty.vals (tupleOfValueTypes T Ps))) :
    (Qs : List Policy) → (∀ Q ∈ Qs, Q ∈ Ps) → Objs T Qs → Objs T Qs
  | [], _, _ => ()
  | Q :: Qs, h, objs =>
    (processPolicyUpdate (T.publisher Q)
      (fun _ hpub => getPolicyDataHandler hpub (h Q List.mem_cons_self) handler) objs.1,
      processUpdates Ps handler Qs (fun R hR => h R (List.mem_cons_of_mem Q hR)) objs.2)

/-- mirrors skywing/skywing_mid/synchronous_iterative.hpp:173-180,
asynchronous_iterative.hpp:181-190 -/
def processAllUpdates (Ps : List Policy) (handler : NeighborDataHandler (Ty.vals (tupleOfValueTypes T Ps)))
    (objs : Objs T Ps) : Objs T Ps := processUpdates T Ps handler Ps (fun _ hP => hP) objs

end Gather

/-! ## Each policy has its own -/

section Own
variable {P : Policy} {pub : Publisher (T.Obj P)} (hpub : T.publisher P = some pub) {Ps : List Policy}

theorem get_getInitTuple {Obj : Type} {pub : Publisher Obj} {o : Option (Publisher Obj)} (h : o = some pub)
    (policyObj : Obj) :
    get (tupleOfValueType o) (getInitTuple o policyObj) 0 (head_tupleOfValueType h) =
      pub.getInitPublishValues policyObj := by
  subst h
  rfl

theorem get_getPubTuple {Obj : Type} {pub : Publisher Obj} {o : Option (Publisher Obj)} (h : o = some pub)
    (component : ∀ pub, o = some pub → pub.ValueType.val) (policyObj : Obj) :
    get (tupleOfValueType o) (getPubTuple o component policyObj).1 0 (head_tupleOfValueType h) =
      (pub.prepareForPublication (component pub h) policyObj).1 := by
  subst h
  rfl

theorem processPolicyUpdate_eq {Obj : Type} {pub : Publisher Obj} {o : Option (Publisher Obj)} (h : o = some pub)
    (handler : ∀ pub, o = some pub → NeighborDataHandler pub.ValueType.val) (policy : Obj) :
    processPolicyUpdate o handler policy = pub.processUpdate (handler pub h) policy := by
  subst h
  rfl

omit [DecidableEq Policy] in
theorem partAt_initParts {P : Policy} {Ps : List Policy} (objs : Objs T Ps) {j : Nat} (hj : Ps[j]? = some P) :
    partAt T Ps (initParts T Ps objs) j hj = getInitTuple (T.publisher P) (objAt T Ps objs j hj) := by
  induction Ps generalizing j with
  | nil => cases hj
  | cons Q Ps ih =>
    cases j with
    | zero =>
      cases hj
      rfl
    | succ j => exact ih objs.2 hj

theorem partAt_pubParts {P : Policy} {Ps Qs : List Policy} (vals : Ty.vals (tupleOfValueTypes T Ps))
    (h : ∀ Q ∈ Qs, Q ∈ Ps) (objs : Objs T Qs) {j : Nat} (hj : Qs[j]? = some P) :
    partAt T Qs (pubParts T Ps vals Qs h objs).1 j hj =
      (getPubTuple (T.publisher P) (fun _ hpub => component hpub (h P (List.mem_of_getElem? hj)) vals)
        (objAt T Qs objs j hj)).1 := by
  induction Qs generalizing j with
  | nil => cases hj
  | cons Q Qs ih =>
    cases j with
    | zero =>
      cases hj
      rfl
    | succ j => exact ih _ objs.2 hj

theorem objAt_processUpdates {P : Policy} {pub : Publisher (T.Obj P)} (hpub : T.publisher P = some pub)
    {Ps Qs : List Policy} (handler : NeighborDataHandler (Ty.vals (tupleOfValueTypes T Ps)))
    (h : ∀ Q ∈ Qs, Q ∈ Ps) (objs : Objs T Qs) {j : Nat} (hj : Qs[j]? = some P) :
    objAt T Qs (processUpdates T Ps handler Qs h objs) j hj =
      pub.processUpdate (getPolicyDataHandler hpub (h P (List.mem_of_getElem? hj)) handler) (objAt T Qs objs j hj) := by
  induction Qs generalizing j with
  | nil => cases hj
  | cons Q Qs ih =>
    cases j with
    | zero =>
      cases hj
      exact processPolicyUpdate_eq hpub _ _
    | succ j => exact ih _ objs.2 hj

variable (hnodup : Ps.Nodup) {j : Nat} (hj : Ps[j]? = some P)
include hnodup

theorem component_gatherInitialPublications (objs : Objs T Ps) :
    component hpub (List.mem_of_getElem? hj) (gatherInitialPublications T Ps objs) =
      pub.getInitPublishValues (objAt T Ps objs j hj) := by
  have hind := indexInPublishers_eq hpub (List.mem_of_getElem? hj)
  rw [component, gatherInitialPublications, get_catParts hpub hnodup _ hj hind, partAt_initParts, get_getInitTuple hpub]

theorem component_gatherDataForPublication (vals : Ty.vals (tupleOfValueTypes T Ps)) (objs : Objs T Ps) :
    component hpub (List.mem_of_getElem? hj) (gatherDataForPublication T Ps vals objs).1 =
      (pub.prepareForPublication (component hpub (List.mem_of_getElem? hj) vals) (objAt T Ps objs j hj)).1 := by
  have hind := indexInPublishers_eq hpub (List.mem_of_getElem? hj)
  rw [component, gatherDataForPublication]
  dsimp only
  rw [get_catParts hpub hnodup _ hj hind, partAt_pubParts, get_getPubTuple hpub]

end Own

/-! ## Runs -/

/-- The policies as a method; `unconstructed` is what the constructor finds in
the place of the policies, and what the publish policy and the resilience
policy do otherwise is left open. -/
def method (Ps : List Policy) (unconstructed : Objs T Ps → Objs T Ps)
    (publishPolicy : Ty.vals (tupleOfValueTypes T Ps) → Ty.vals (tupleOfValueTypes T Ps) → Objs T Ps → Bool × Objs T Ps)
    (handleDeadNeighbor : List TagID → List TagID → Nat → Objs T Ps → Objs T Ps) :
    Method (Ty.vals (tupleOfValueTypes T Ps)) (Objs T Ps) where
  gatherInitialPublications := fun objs => gatherInitialPublications T Ps (unconstructed objs)
  processAllUpdates := processAllUpdates T Ps
  gatherDataForPublication := gatherDataForPublication T Ps
  publishPolicy := publishPolicy
  handleDeadNeighbor := handleDeadNeighbor

/-- What a policy of its own can have made: its initial value, or what it
prepares out of such a value. -/
inductive Contributed {Obj : Type} (pub : Publisher Obj) : pub.ValueType.val → Prop
  | init (policyObj : Obj) : Contributed pub (pub.getInitPublishValues policyObj)
  | prepared {v : pub.ValueType.val} (policyObj : Obj) :
      Contributed pub v → Contributed pub (pub.prepareForPublication v policyObj).1

end Policies

section Submitted
variable {V α O : Type} [Typed α] {c : PubSubConverter V α} {M : Method V O} {Q : V → Prop}

/-- `Q` holds of the value to publish and of all that was published. -/
def AllSubmitted (c : PubSubConverter V α) (Q : V → Prop) (a : Agent V α O) : Prop :=
  Q a.publishValues ∧ ∀ e ∈ a.published, ∃ v, Q v ∧ e.2 = c.convert v

theorem AllSubmitted.submit {a b : Agent V α O} {v : V} (ha : AllSubmitted c Q a) (hv : Q v)
    (h : submitValues c a v = some b) : AllSubmitted c Q b := by
  obtain ⟨job, version, -, rfl, -, -⟩ := submitValues_eq c h
  refine ⟨ha.1, fun e he => ?_⟩
  obtain hold | hnew := List.mem_append.mp he
  · exact ha.2 e hold
  · obtain rfl := List.mem_singleton.mp hnew
    exact ⟨v, hv, rfl⟩

theorem AllSubmitted.publishStep (hQ : ∀ v objs, Q v → Q (M.gatherDataForPublication v objs).1) {k : Framework}
    {a b : Agent V α O} (ha : AllSubmitted c Q a) (h : publishStep c M k a = some b) : AllSubmitted c Q b := by
  have hnew := hQ a.publishValues a.policies ha.1
  unfold Iterative.publishStep at h
  cases k with
  | synchronous =>
    refine submit ?_ hnew h
    exact ⟨hnew, ha.2⟩
  | asynchronous =>
    dsimp only at h
    split at h
    · refine submit ?_ hnew h
      exact ⟨hnew, ha.2⟩
    · cases h
      exact ha

/-- Only `publish` changes what is published. -/
theorem runStep_publishes {k : Framework} {a b : Agent V α O} (hp : a.pc ≠ .publish) (h : runStep c M k a = some b) :
    b.publishValues = a.publishValues ∧ b.published = a.published := by
  cases k with
  | synchronous =>
    cases syncStep_of_runStep c M h with
    | publish _ _ _ hpc _ => exact absurd hpc hp
    | _ => exact ⟨rfl, rfl⟩
  | asynchronous =>
    cases asyncStep_of_runStep c M h with
    | publish _ hpc _ => exact absurd hpc hp
    | _ => exact ⟨rfl, rfl⟩

theorem AllSubmitted.step (hQ : ∀ v objs, Q v → Q (M.gatherDataForPublication v objs).1) {k : Framework}
    {a b : Agent V α O} {l : Lbl α} (ha : AllSubmitted c Q a)
    (h : Iterative.step c M k a l = some b) : AllSubmitted c Q b := by
  cases l with
  | data tag value version =>
    obtain ⟨r, -, rfl⟩ := Option.map_eq_some_iff.mp h
    exact ha
  | dead tag =>
    cases h
    exact ha
  | run =>
    simp only [Iterative.step] at h
    split at h
    · obtain ⟨b, hb, rfl⟩ := Option.map_eq_some_iff.mp h
      have hsub := ha.submit ha.1 hb
      exact hsub
    · cases h
  | tick =>
    by_cases hp : a.pc = .publish
    · simp only [Iterative.step, runStep, hp] at h
      exact ha.publishStep hQ h
    · obtain ⟨hvalues, hpublished⟩ := runStep_publishes hp h
      rwa [AllSubmitted, hvalues, hpublished]
  | stop answer =>
    obtain ⟨-, -, flag, pc, -, -, rfl⟩ := evalStopPolicy_eq h
    exact ha

/-- What holds of the initial values and is kept by gathering holds of all
that is published in a run. -/
theorem allSubmitted_run (hinit : ∀ objs, Q (M.gatherInitialPublications objs))
    (hQ : ∀ v objs, Q v → Q (M.gatherDataForPublication v objs).1) {k : Framework} {job : Job α} {producedTag : TagID}
    {tags : List TagID} {objs : O} {ls : List (Lbl α)} {a : Agent V α O}
    (h : LTS.exec (Iterative.step c M k) (create M job producedTag tags objs) ls = some a) : AllSubmitted c Q a := by
  have hinv : (LTS.ofFn (fun s => s = create M job producedTag tags objs) (Iterative.step c M k)).Inductive
      (AllSubmitted c Q) := by
    refine ⟨?_, fun s l t hs hst => hs.step hQ hst⟩
    rintro s rfl
    exact ⟨hinit objs, fun e he => nomatch he⟩
  exact hinv.reachable a (LTS.reachable_of_exec rfl h)

end Submitted

section Contribution
variable {Policy : Type} [DecidableEq Policy] {T : Policies Policy} {Ps : List Policy}

/-- In every run, at every moment, a policy's component is of the policy's own
making. -/
theorem contributed_run (hnodup : Ps.Nodup) {P : Policy} {j : Nat} (hj : Ps[j]? = some P) {pub : Publisher (T.Obj P)}
    (hpub : T.publisher P = some pub) {α : Type} [Typed α] {c : PubSubConverter (Ty.vals (tupleOfValueTypes T Ps)) α}
    {unconstructed : Objs T Ps → Objs T Ps}
    {publishPolicy : Ty.vals (tupleOfValueTypes T Ps) → Ty.vals (tupleOfValueTypes T Ps) → Objs T Ps → Bool × Objs T Ps}
    {handleDeadNeighbor : List TagID → List TagID → Nat → Objs T Ps → Objs T Ps} {k : Framework}
    {job : Job α} {producedTag : TagID}
    {tags : List TagID} {objs : Objs T Ps} {ls : List (Lbl α)}
    {a : Agent (Ty.vals (tupleOfValueTypes T Ps)) α (Objs T Ps)}
    (h : LTS.exec (Iterative.step c (method Ps unconstructed publishPolicy handleDeadNeighbor) k)
      (create (method Ps unconstructed publishPolicy handleDeadNeighbor) job producedTag tags objs) ls = some a) :
    AllSubmitted c (fun v => Contributed pub (component hpub (List.mem_of_getElem? hj) v)) a := by
  refine allSubmitted_run (fun objs => ?_) (fun v objs hv => ?_) h
  · show Contributed pub (component hpub _ (gatherInitialPublications T Ps (unconstructed objs)))
    rw [component_gatherInitialPublications hpub hnodup hj]
    exact .init _
  · show Contributed pub (component hpub _ (gatherDataForPublication T Ps v objs).1)
    rw [component_gatherDataForPublication hpub hnodup hj]
    exact .prepared _ hv

end Contribution

/-! ## To a neighbour and back -/

/-- The sizes of the lists and texts that a message sets. -/
def messageSizes : StatusMessage → List Nat
  | .submitReduceValue reduceTag data => reduceTag.length :: dataSizes data
  | .publishData data => dataSizes data

/-- The messages that Cap'n Proto can make and a frame can take are read as
they were written. A list has fewer than 2^29 elements in them, and so fewer
than 2^32. -/
structure Carries {Buf : Type} (c : CapnProto Buf) (holds : StatusMessage → Prop) : Prop where
  readBack : ∀ msg, holds msg → c.read (c.write msg) = some msg
  bounded : ∀ msg, holds msg → ∀ k ∈ messageSizes msg, k < 2 ^ 32

section Wire
variable {Buf : Type} (c : CapnProto Buf) {ts : List Ty} {ps : List PS} (each : ConvList ts ps)

/-- The message that a call of `submit_values` makes.
mirrors skywing/skywing_mid/iterative_method.hpp:186-190,
skywing_core/job.hpp:301-325 -/
def publication (version : VersionID) (producedTag : TagID) (valueToSubmit : Ty.vals ts) : StatusMessage :=
  .publishData (setPublishData version producedTag
    (publishTuple (catNatives ps) (convert (.tuple each) valueToSubmit)))

def submitValues (version : VersionID) (producedTag : TagID) (valueToSubmit : Ty.vals ts) : Buf :=
  c.write (publication each version producedTag valueToSubmit)

/-- What `gather_values` reads when this message is the newest of its tag:
`process_data` checks the types, the tag's buffer makes a tuple of the
variants.
mirrors skywing/skywing_mid/iterative_method.hpp:169-181,
skywing_core/internal/tag_buffer.hpp:168-182 -/
def gatherValue (buf : Buf) : Option (Ty.vals ts) :=
  match extractMessage c buf with
  | some (.publishData _ (some value) _) =>
    if types value = expectedTypeFor (catNatives ps) then
      (makeValue (catNatives ps) value).bind (deconvert (.tuple each))
    else none
  | _ => none

variable {c}

theorem types_publishTuple (ns : List Native) (v : Ty.vals (ns.map Native.ty)) :
    types (publishTuple ns v) = expectedTypeFor ns :=
  ((matches_iff _ _).mp ((expectedTypeFor_matches _ _).mpr (publishTuple_types ns v).symm)).symm

theorem gatherValue_publishTuple {buf : Buf} {version : VersionID} {producedTag : TagID}
    {published : Ty.vals ((catNatives ps).map Native.ty)} (h : c.read buf = some (.publishData
      (setPublishData version producedTag (publishTuple (catNatives ps) published)))) :
    gatherValue c each buf = deconvert (.tuple each) published := by
  unfold gatherValue
  rw [extract_publishData h]
  dsimp only
  rw [if_pos (types_publishTuple (catNatives ps) published), makeValue_publishTuple]
  rfl

/-- Between the two, only the conversion can lose anything. -/
theorem gatherValue_submitValues {version : VersionID} {producedTag : TagID} {vals : Ty.vals ts}
    (h : c.read (submitValues c each version producedTag vals) = some (publication each version producedTag vals)) :
    gatherValue c each (submitValues c each version producedTag vals) =
      deconvert (.tuple each) (convert (.tuple each) vals) :=
  gatherValue_publishTuple each h

theorem sizes_publishData (version : VersionID) (producedTag : TagID) (ns : List Native)
    (published : Ty.vals (ns.map Native.ty)) :
    messageSizes (.publishData (setPublishData version producedTag (publishTuple ns published))) =
      producedTag.length :: (publishTuple ns published).length ::
        (tupleEntries ns published).flatMap NativeVal.sizes := by
  rw [← sizes_publishTuple]
  exact sizes_setPublishData version producedTag _

/-- No vector of a message is as long as the 32-bit sizes go. -/
theorem fits_publication {version : VersionID} {producedTag : TagID} {vals : Ty.vals ts}
    (h : ∀ k ∈ messageSizes (publication each version producedTag vals), k < 2 ^ 32) : FitsEach each vals := by
  have hsmall : Small (tupleEntries (catNatives ps) (convert (.tuple each) vals)) := by
    intro e he k hk
    have hsizes := sizes_publishData version producedTag (catNatives ps) (convert (.tuple each) vals)
    apply h k
    rw [publication, hsizes]
    exact List.mem_cons_of_mem _ (List.mem_cons_of_mem _ (List.mem_flatMap.mpr ⟨e, he, hk⟩))
  exact fits_of_small (.tuple each) vals hsmall

end Wire

section Back
variable {Policy : Type} [DecidableEq Policy] (T : Policies Policy) (Ps : List Policy)

end Back

/-! ## A method of three policies -/

inductive Sample
  | processor
  | publishPolicy
  | stopPolicy
  deriving DecidableEq

/-- What it holds is what it publishes. -/
def holder (t : Ty) : Publisher t.val where
  ValueType := t
  getInitPublishValues policyObj := policyObj
  processUpdate _ policyObj := policyObj
  prepareForPublication _ policyObj := (policyObj, policyObj)

/-- The processor publishes byte vectors, the stop policy a number, the
publish policy nothing. -/
def sample : Policies Sample where
  Obj
    | .processor => List (List UInt8)
    | .publishPolicy => Unit
    | .stopPolicy => UInt64
  publisher
    | .processor => some (holder (.vector (.vector (.scalar .uint8))))
    | .publishPolicy => none
    | .stopPolicy => some (holder (.scalar .uint64))

def samplePolicies : List Sample := [.processor, .publishPolicy, .stopPolicy]

def sampleObjs (bytes : List (List UInt8)) (count : UInt64) : Objs sample samplePolicies := (bytes, (), count, ())

def sampleEach : ConvList (tupleOfValueTypes sample samplePolicies)
    [.tuple [.vec .uint32, .vec .uint8], .single (.scalar .uint64)] :=
  .cons (nestedOnce .uint8) (.cons (.scalar .uint64) .nil)

def sampleValues (bytes : List (List UInt8)) (count : UInt64) : Ty.vals (tupleOfValueTypes sample samplePolicies) :=
  gatherInitialPublications sample samplePolicies (sampleObjs bytes count)

/-- Every list has fewer than 2^29 elements. -/
def shortLists (msg : StatusMessage) : Prop := ∀ k ∈ messageSizes msg, k < 2 ^ 29

theorem carries_shortLists : Carries verbatim shortLists where
  readBack _ _ := rfl
  bounded _ h k hk := Nat.lt_of_lt_of_le (h k hk) (by omega)

end Skywing.L4.PolicyTuple
