import Skywing.Core.LTS
import Skywing.L3Protocol.ReduceGroup
import Skywing.L3Protocol.ReduceTree

/-!
# The rounds of a reduce group

The participants of one group over the tree of `create_reduce_group_init`,
one machine each, with a FIFO link in each direction between a participant
and its parent. A participant submits operations, the `k`-th one of each with
the same operation; the oldest message of a link is handed to `add_data`.
Nothing is lost and nobody disconnects. Submissions and deliveries come in
any order.

History: `subs` are the values a participant has submitted, `produced` the
results it has sent to its parent or, at the root, put into
`data_buffers_[0]`.

A submission is given the version after `last_sent_version_`, so an operation
submitted while another is pending gets that one's version again. At the root
that is harmless, since an older version only asks for less. Elsewhere the
parent gets the same version twice and may wait for a newer one for ever.
`rounds`: in every run in which the participants other than the root submit
only with nothing pending, the `k`-th result of the root is the tree
combination of the `k`-th submissions, and with no message in flight there
are as many results as the participant with the fewest has submissions.
`round_missed` is a run of four participants without.
-/
namespace Skywing.L5.ReduceRounds

open L2.TagBuffer L3 L3.ReduceGroup L3.GroupTags

/-- What the participants agree on. The values of a group have one type, so
the same variant indices. -/
structure Group (V : Type) [Typed V] extends GroupTags where
  groupId : TagID
  expectedTypes : List UInt8
  types_eq : ∀ v : V, types v = expectedTypes
  op : Nat → V → V → V

structure St (V : Type) where
  group : TagID → ReduceGroup V
  /-- in flight from a participant to its parent -/
  up : TagID → List (V × VersionID)
  /-- in flight to a participant from its parent -/
  down : TagID → List (V × VersionID)
  subs : TagID → List V
  produced : TagID → List V

inductive Lbl (V : Type)
  | submit (x : TagID) (isAllReduce : Bool) (value : V)
  | toParent (x : TagID)
  | fromParent (x : TagID)

variable {V : Type} [Typed V] (T : Group V)

def start : St V where
  group x := create (T.neighbors x) T.groupId x T.expectedTypes
  up _ := []
  down _ := []
  subs _ := []
  produced _ := []

/-- A message of `x` carries the tag `x` produces.
mirrors skywing/skywing_core/manager.cpp:1124-1152 -/
def St.send (s : St V) (x : TagID) : Send V → St V
  | .toParent value version _ =>
    { s with
      up := Function.update s.up x (s.up x ++ [(value, version)])
      produced := Function.update s.produced x (s.produced x ++ [value]) }
  | .toChildren value version =>
    { s with down := fun c =>
        if c ≠ [] ∧ (c = (T.neighbors x).leftChild ∨ c = (T.neighbors x).rightChild) then
          s.down c ++ [(value, version)]
        else s.down c }
  | .result value _ _ => { s with produced := Function.update s.produced x (s.produced x ++ [value]) }
  | .disconnection _ _ => s

def St.setGroup (s : St V) (x : TagID) (g : ReduceGroup V) : St V :=
  { s with group := Function.update s.group x g }

/-- The group of `x` has become `g` and sent `sends`. -/
def St.act (s : St V) (x : TagID) (g : ReduceGroup V) (sends : List (Send V)) : St V :=
  sends.foldl (fun s a => s.send T x a) (s.setGroup x g)

def step (s : St V) : Lbl V → Option (St V)
  | .submit x isAllReduce value =>
    if x ∈ T.tags then do
      let (_, g, sends) ← (s.group x).reduceImpl isAllReduce (T.op (s.subs x).length) value
      return { s with subs := Function.update s.subs x (s.subs x ++ [value]) }.act T x g sends
    else none
  | .toParent x =>
    match s.up x with
    | [] => none
    | (value, version) :: rest => do
      let p := (T.neighbors x).parent
      let (_, g, sends) ← (s.group p).addData x value version
      return { s with up := Function.update s.up x rest }.act T p g sends
  | .fromParent x =>
    match s.down x with
    | [] => none
    | (value, version) :: rest => do
      let (_, g, sends) ← (s.group x).addData (T.neighbors x).parent value version
      return { s with down := Function.update s.down x rest }.act T x g sends

def lts : LTS (St V) (Lbl V) := LTS.ofFn (· = start T) (step T)

/-! ## What is asked for -/

/-- `v` is the tree combination of the `k`-th submissions at and below `x`. -/
inductive Combines (s : St V) (k : Nat) : TagID → V → Prop
  | leaf {x : TagID} {own : V} : (T.neighbors x).leftChild = [] → (s.subs x)[k]? = some own →
      Combines s k x own
  | one {x : TagID} {own left : V} : (T.neighbors x).leftChild ≠ [] → (T.neighbors x).rightChild = [] →
      (s.subs x)[k]? = some own → Combines s k (T.neighbors x).leftChild left →
      Combines s k x (T.op k left own)
  | two {x : TagID} {own left right : V} : (T.neighbors x).leftChild ≠ [] →
      (T.neighbors x).rightChild ≠ [] → (s.subs x)[k]? = some own →
      Combines s k (T.neighbors x).leftChild left → Combines s k (T.neighbors x).rightChild right →
      Combines s k x (T.op k (T.op k left own) right)

def Quiet (s : St V) : Prop := ∀ x ∈ T.tags, s.up x = [] ∧ s.down x = []

structure Rounds (s : St V) : Prop where
  /-- what the root has put into `data_buffers_[0]` is there -/
  stored : ((s.group T.root).dataBuffers 0).buffer.map Prod.fst = s.produced T.root
  value : ∀ k v, (s.produced T.root)[k]? = some v → Combines T s k T.root v
  count : Quiet T s → (T.tags.map fun x => (s.subs x).length).min? = some (s.produced T.root).length

/-- A participant other than the root submits only with nothing pending. -/
def Cond (s : St V) : Lbl V → Prop
  | .submit x _ _ => (s.group x).returnsValueOnReduce = true ∨ (s.group x).pendingReduces = []
  | .toParent _ | .fromParent _ => True

/-! ## Versions -/

/-- The version the `k`-th operation may require: at the root nothing newer
than the `k`-th version, elsewhere exactly it. -/
def VersionOk (isRoot : Bool) (k : Nat) (r : VersionID) : Prop :=
  if isRoot then r.toNat ≤ k else r = versionAt (k + 1)

theorem VersionOk.le {isRoot : Bool} {k : Nat} {r : VersionID} (h : VersionOk isRoot k r) (hk : k < 2 ^ 32) :
    r.toNat ≤ k := by
  unfold VersionOk at h
  split at h
  · exact h
  · rw [h, versionAt_toNat (by omega) (by omega)]
    omega

theorem VersionOk.next {isRoot : Bool} {k : Nat} {r : VersionID} (h : VersionOk isRoot k r)
    (hk : k + 1 < 2 ^ 32) : VersionOk isRoot (k + 1) (r + 1) := by
  cases isRoot with
  | true =>
    simp only [VersionOk, if_true] at h ⊢
    rw [UInt32.toNat_add]
    simp
    omega
  | false =>
    simp only [VersionOk, Bool.false_eq_true, if_false] at h ⊢
    rw [h, versionAt_add_one]

/-- At the root a later operation may require the same version. -/
theorem VersionOk.mono {isRoot : Bool} {k n : Nat} {r : VersionID} (h : VersionOk isRoot k r) (hkn : k ≤ n)
    (hsame : isRoot = true ∨ k = n) : VersionOk isRoot n r := by
  rcases hsame with rfl | rfl
  · simp only [VersionOk, if_true] at h ⊢
    omega
  · exact h

/-- The operations `k`, `k + 1`, … with the values `vs`, as they wait in
`pending_reduces_`. -/
inductive Waits (op : Nat → V → V → V) (isRoot : Bool) : Nat → List V → List (PendingReduce V) → Prop
  | nil (k : Nat) : Waits op isRoot k [] []
  | cons {k : Nat} {v : V} {vs : List V} {p : PendingReduce V} {ps : List (PendingReduce V)} :
      p.value = v → p.operation = op k → VersionOk isRoot k p.requiredVersion →
      Waits op isRoot (k + 1) vs ps → Waits op isRoot k (v :: vs) (p :: ps)

omit [Typed V] in
theorem Waits.cons_inv {op : Nat → V → V → V} {isRoot : Bool} {k : Nat} {vs : List V} {p : PendingReduce V}
    {ps : List (PendingReduce V)} (h : Waits op isRoot k vs (p :: ps)) : ∃ ws, vs = p.value :: ws ∧
      p.operation = op k ∧ VersionOk isRoot k p.requiredVersion ∧ Waits op isRoot (k + 1) ws ps := by
  cases h with
  | cons hv hop hr hrest => exact ⟨_, by rw [hv], hop, hr, hrest⟩

omit [Typed V] in
theorem Waits.snoc {op : Nat → V → V → V} {isRoot : Bool} {k n : Nat} {vs : List V}
    {ps : List (PendingReduce V)} (h : Waits op isRoot k vs ps) {p : PendingReduce V}
    (hn : n = k + vs.length) (hop : p.operation = op n) (hr : VersionOk isRoot n p.requiredVersion) :
    Waits op isRoot k (vs ++ [p.value]) (ps ++ [p]) := by
  induction h with
  | nil k => exact .cons rfl (by rw [hop, hn]; rfl) (by rw [hn] at hr; exact hr) (.nil _)
  | cons h₁ h₂ h₃ _ ih =>
    refine .cons h₁ h₂ h₃ (ih ?_)
    simp only [List.length_cons] at hn
    omega

/-! ## The invariant -/

/-- `v` is computed from the `k`-th submission of `x` and the `k`-th values of
its children. -/
def Computed (s : St V) (x : TagID) (k : Nat) (v : V) : Prop :=
  ∃ own, (s.subs x)[k]? = some own ∧
    if (T.neighbors x).leftChild = [] then v = own
    else ∃ left, (s.produced (T.neighbors x).leftChild)[k]? = some left ∧
      if (T.neighbors x).rightChild = [] then v = T.op k left own
      else ∃ right, (s.produced (T.neighbors x).rightChild)[k]? = some right ∧
        v = T.op k (T.op k left own) right

/-- A participant's own operations. -/
structure Node (s : St V) (x : TagID) : Prop where
  neighbors : (s.group x).tagNeighbors = T.neighbors x
  expected : (s.group x).expectedTypes = T.expectedTypes
  valid : (s.group x).isValid = true
  fresh : ∀ w, ((s.group x).dataBuffers w).Fresh
  le : (s.produced x).length ≤ (s.subs x).length
  waits : Waits T.op (T.neighbors x).parent.isEmpty (s.produced x).length
    ((s.subs x).drop (s.produced x).length) (s.group x).pendingReduces
  last : VersionOk (T.neighbors x).parent.isEmpty (s.produced x).length ((s.group x).lastSentVersion + 1)

/-- What a participant has yet to take of a child's values is in its buffer
or on the way. -/
structure Edge (s : St V) (x : TagID) (w : Fin 3) : Prop where
  le : (s.produced x).length ≤ (s.produced ((T.neighbors x).tags w)).length
  queue : ((s.group x).dataBuffers w).buffer ++ s.up ((T.neighbors x).tags w) =
    stamped (s.produced x).length ((s.produced ((T.neighbors x).tags w)).drop (s.produced x).length)

structure Core (s : St V) : Prop where
  node : ∀ x ∈ T.tags, Node T s x
  edge : ∀ x ∈ T.tags, ∀ w, w ≠ 0 → (T.neighbors x).tags w ≠ [] → Edge T s x w
  computed : ∀ x ∈ T.tags, ∀ k v, (s.produced x)[k]? = some v → Computed T s x k v
  stored : ((s.group T.root).dataBuffers 0).buffer.map Prod.fst = s.produced T.root
  up : ∀ x, s.up x ≠ [] → x ∈ T.tags ∧ (T.neighbors x).parent ≠ []
  down : ∀ x, s.down x ≠ [] → x ∈ T.tags ∧ (T.neighbors x).parent ≠ []

/-- Nothing that is pending could be processed. -/
def Settled (s : St V) (x : TagID) : Prop :=
  ∀ p ∈ (s.group x).pendingReduces.head?, (s.group x).reduceIsReady p.requiredVersion = false

def Bounded (s : St V) : Prop := ∀ x ∈ T.tags, (s.subs x).length < 2 ^ 32 - 1

/-! ## Sending -/

variable {T} {s t : St V}

theorem send_setGroup (s : St V) (x y : TagID) (g : ReduceGroup V) (a : Send V) :
    (s.setGroup y g).send T x a = (s.send T x a).setGroup y g := by
  cases a <;> rfl

omit [Typed V] in
theorem setGroup_self (s : St V) (x : TagID) (g : ReduceGroup V) : (s.setGroup x g).group x = g :=
  Function.update_self _ _ _

omit [Typed V] in
theorem setGroup_ne (s : St V) {x y : TagID} (g : ReduceGroup V) (h : y ≠ x) :
    (s.setGroup x g).group y = s.group y := Function.update_of_ne h _ _

omit [Typed V] in
theorem setGroup_setGroup (s : St V) (x : TagID) (g g' : ReduceGroup V) :
    (s.setGroup x g).setGroup x g' = s.setGroup x g' := by
  simp only [St.setGroup, Function.update_idem]

theorem act_setGroup (s : St V) (x : TagID) (g : ReduceGroup V) (sends : List (Send V)) :
    s.act T x g sends = (sends.foldl (fun s a => s.send T x a) s).setGroup x g := by
  unfold St.act
  induction sends generalizing s with
  | nil => rfl
  | cons a sends ih => rw [List.foldl_cons, List.foldl_cons, send_setGroup, ih]

/-- What is sent in two parts is sent in one. -/
theorem act_append (s : St V) (x : TagID) (g g' : ReduceGroup V) (as bs : List (Send V)) :
    s.act T x g' (as ++ bs) = (s.act T x g as).act T x g' bs := by
  rw [act_setGroup s x g as, St.act, St.act, List.foldl_append, setGroup_setGroup]
  congr 1
  exact act_setGroup s x g' as

theorem act_group (s : St V) (x : TagID) (g : ReduceGroup V) (sends : List (Send V)) :
    (s.act T x g sends).group = Function.update s.group x g := by
  rw [act_setGroup]
  have : (sends.foldl (fun s a => s.send T x a) s).group = s.group := by
    induction sends generalizing s with
    | nil => rfl
    | cons a sends ih =>
      rw [List.foldl_cons, ih]
      cases a <;> rfl
  rw [St.setGroup, this]

theorem act_subs (s : St V) (x : TagID) (g : ReduceGroup V) (sends : List (Send V)) :
    (s.act T x g sends).subs = s.subs := by
  rw [act_setGroup]
  induction sends generalizing s with
  | nil => rfl
  | cons a sends ih =>
    rw [List.foldl_cons, ih]
    cases a <;> rfl

/-- What changes when `x` has computed `v`. -/
structure Advanced (T : Group V) (s t : St V) (x : TagID) (g : ReduceGroup V) (v : V) (r : VersionID) :
    Prop where
  group : t.group = Function.update s.group x g
  subs : t.subs = s.subs
  produced : t.produced = Function.update s.produced x (s.produced x ++ [v])
  up : t.up = if (T.neighbors x).parent = [] then s.up else Function.update s.up x (s.up x ++ [(v, r)])
  down : ∀ c, t.down c = s.down c ∨ c ≠ [] ∧ ∃ w, w ≠ 0 ∧ (T.neighbors x).tags w = c

theorem send_down (s : St V) (x : TagID) (v : V) (r : VersionID) (c : TagID) :
    (s.send T x (.toChildren v r)).down c = s.down c ∨
      c ≠ [] ∧ ∃ w, w ≠ 0 ∧ (T.neighbors x).tags w = c := by
  simp only [St.send]
  split
  · rename_i hc
    rcases hc.2 with h | h
    · exact .inr ⟨hc.1, 1, by decide, h.symm⟩
    · exact .inr ⟨hc.1, 2, by decide, h.symm⟩
  · exact .inl rfl

theorem advanced_act (s : St V) (x : TagID) (p : PendingReduce V) (g g' : ReduceGroup V) (v : V)
    (hn : g.tagNeighbors = T.neighbors x) :
    Advanced T s (s.act T x g' (g.deliverResult p v).2) x g' v p.requiredVersion := by
  have hsends : (g.deliverResult p v).2 = if (T.neighbors x).parent = [] then
      .result v p.requiredVersion p.seq ::
        if p.isAllReduce then [.toChildren v p.requiredVersion] else []
      else [.toParent v p.requiredVersion p.seq] := by
    simp only [deliverResult, returnsValueOnReduce, hn, List.isEmpty_iff]
    split <;> rfl
  refine ⟨act_group s x g' _, act_subs s x g' _, ?_, ?_, ?_⟩ <;> rw [hsends]
  · split
    · cases p.isAllReduce <;> rfl
    · rfl
  · split
    · cases p.isAllReduce <;> rfl
    · rfl
  · intro c
    split
    · cases p.isAllReduce with
      | false => exact .inl rfl
      | true =>
        exact send_down ((s.setGroup x g').send T x (.result v p.requiredVersion p.seq)) x v p.requiredVersion c
    · exact .inl rfl

/-- What processing the next operation of `x` needs and takes: the values of
the children are the next ones, and the group is ready for the operation
after. -/
structure Takes (T : Group V) (s : St V) (x : TagID) (g : ReduceGroup V) (v : V) (r : VersionID) : Prop where
  neighbors : g.tagNeighbors = T.neighbors x
  expected : g.expectedTypes = T.expectedTypes
  valid : g.isValid = true
  fresh : ∀ w, (g.dataBuffers w).Fresh
  lt : (s.produced x).length < (s.subs x).length
  waits : Waits T.op (T.neighbors x).parent.isEmpty ((s.produced x).length + 1)
    ((s.subs x).drop ((s.produced x).length + 1)) g.pendingReduces
  last : VersionOk (T.neighbors x).parent.isEmpty ((s.produced x).length + 1) (g.lastSentVersion + 1)
  version : VersionOk (T.neighbors x).parent.isEmpty (s.produced x).length r
  edge : ∀ w, w ≠ 0 → (T.neighbors x).tags w ≠ [] →
    (s.produced x).length + 1 ≤ (s.produced ((T.neighbors x).tags w)).length ∧
    (g.dataBuffers w).buffer ++ s.up ((T.neighbors x).tags w) = stamped ((s.produced x).length + 1)
      ((s.produced ((T.neighbors x).tags w)).drop ((s.produced x).length + 1))
  computed : Computed T s x (s.produced x).length v
  stored : (T.neighbors x).parent = [] →
    (g.dataBuffers 0).buffer.map Prod.fst = ((s.group x).dataBuffers 0).buffer.map Prod.fst ++ [v]

/-- Values once computed stay so while more is produced and submitted. -/
theorem Computed.mono {x : TagID} {k : Nat} {v : V} (h : Computed T s x k v)
    (hsubs : ∀ y (k : Nat) v, (s.subs y)[k]? = some v → (t.subs y)[k]? = some v)
    (hprod : ∀ y (k : Nat) v, (s.produced y)[k]? = some v → (t.produced y)[k]? = some v) : Computed T t x k v := by
  obtain ⟨own, hown, h⟩ := h
  refine ⟨own, hsubs _ _ _ hown, ?_⟩
  split at h
  · rename_i hl
    rw [if_pos hl]
    exact h
  · rename_i hl
    rw [if_neg hl]
    obtain ⟨left, hleft, h⟩ := h
    refine ⟨left, hprod _ _ _ hleft, ?_⟩
    split at h
    · rename_i hr
      rw [if_pos hr]
      exact h
    · rename_i hr
      rw [if_neg hr]
      obtain ⟨right, hright, h⟩ := h
      exact ⟨right, hprod _ _ _ hright, h⟩

section Advance

variable {x : TagID} {g : ReduceGroup V} {v : V} {r : VersionID}

theorem Advanced.produced_self (ha : Advanced T s t x g v r) : t.produced x = s.produced x ++ [v] := by
  rw [ha.produced, Function.update_self]

theorem Advanced.produced_ne (ha : Advanced T s t x g v r) {y : TagID} (hy : y ≠ x) :
    t.produced y = s.produced y := by
  rw [ha.produced, Function.update_of_ne hy]

theorem Advanced.group_self (ha : Advanced T s t x g v r) : t.group x = g := by
  rw [ha.group, Function.update_self]

theorem Advanced.group_ne (ha : Advanced T s t x g v r) {y : TagID} (hy : y ≠ x) :
    t.group y = s.group y := by
  rw [ha.group, Function.update_of_ne hy]

theorem Advanced.up_self (ha : Advanced T s t x g v r) (hp : (T.neighbors x).parent ≠ []) :
    t.up x = s.up x ++ [(v, r)] := by
  rw [ha.up, if_neg hp, Function.update_self]

theorem Advanced.up_ne (ha : Advanced T s t x g v r) {y : TagID} (hy : y ≠ x) : t.up y = s.up y := by
  rw [ha.up]
  split
  · rfl
  · rw [Function.update_of_ne hy]

theorem Advanced.computed (ha : Advanced T s t x g v r) {y : TagID} {k : Nat} {a : V}
    (h : Computed T s y k a) : Computed T t y k a := by
  refine h.mono (fun z k b hb => by rw [ha.subs]; exact hb) ?_
  intro z k b hb
  by_cases hz : z = x
  · subst hz
    rw [ha.produced_self]
    exact List.getElem?_append_left (List.getElem?_eq_some_iff.mp hb).1 ▸ hb
  · rw [ha.produced_ne hz]
    exact hb

theorem Advanced.node (ha : Advanced T s t x g v r) (ht : Takes T s x g v r) : Node T t x := by
  have hlen : (t.produced x).length = (s.produced x).length + 1 := by
    rw [ha.produced_self, List.length_append, List.length_singleton]
  constructor
  · rw [ha.group_self]; exact ht.neighbors
  · rw [ha.group_self]; exact ht.expected
  · rw [ha.group_self]; exact ht.valid
  · rw [ha.group_self]; exact ht.fresh
  · rw [hlen, ha.subs]; exact ht.lt
  · rw [hlen, ha.subs, ha.group_self]; exact ht.waits
  · rw [hlen, ha.group_self]; exact ht.last

theorem Advanced.node_ne (ha : Advanced T s t x g v r) {y : TagID} (hy : y ≠ x) (h : Node T s y) :
    Node T t y := by
  constructor
  · rw [ha.group_ne hy]; exact h.neighbors
  · rw [ha.group_ne hy]; exact h.expected
  · rw [ha.group_ne hy]; exact h.valid
  · rw [ha.group_ne hy]; exact h.fresh
  · rw [ha.produced_ne hy, ha.subs]; exact h.le
  · rw [ha.produced_ne hy, ha.subs, ha.group_ne hy]; exact h.waits
  · rw [ha.produced_ne hy, ha.group_ne hy]; exact h.last

/-- The new value joins what the parent has yet to take. -/
theorem Advanced.edge_parent (ha : Advanced T s t x g v r) (ht : Takes T s x g v r) {y : TagID} {w : Fin 3}
    (hy : y ≠ x) (hc : (T.neighbors y).tags w = x) (hp : (T.neighbors x).parent ≠ [])
    (h : Edge T s y w) : Edge T t y w := by
  obtain ⟨hle, hq⟩ := h
  rw [hc] at hle hq
  have hr : r = versionAt ((s.produced x).length + 1) := by
    have hv := ht.version
    rwa [VersionOk, if_neg (by simpa using hp)] at hv
  constructor
  · rw [hc, ha.produced_ne hy, ha.produced_self, List.length_append]
    omega
  · rw [hc, ha.produced_ne hy, ha.produced_self, ha.group_ne hy, ha.up_self hp, ← List.append_assoc, hq,
      List.drop_append_of_le_length hle, stamped_append, List.length_drop, Nat.add_sub_cancel' hle, hr]
    rfl

theorem Advanced.edge (ha : Advanced T s t x g v r) (ht : Takes T s x g v r) (hx : x ∈ T.tags) {y : TagID}
    (hy : y ∈ T.tags) {w : Fin 3} (hw : w ≠ 0) (hne : (T.neighbors y).tags w ≠ []) (h : Edge T s y w) :
    Edge T t y w := by
  by_cases hyx : y = x
  · subst hyx
    have hc : (T.neighbors y).tags w ≠ y := fun he => by
      have := rank_child_gt hw hne
      rw [he] at this
      exact lt_irrefl _ this
    obtain ⟨hle, hq⟩ := ht.edge w hw hne
    constructor
    · rw [ha.produced_self, ha.produced_ne hc, List.length_append]
      exact hle
    · rw [ha.produced_self, ha.produced_ne hc, ha.group_self, ha.up_ne hc, List.length_append]
      exact hq
  · by_cases hc : (T.neighbors y).tags w = x
    · have hparent := (child_iff_parent hy hx).mp ⟨w, hw, hc⟩
      exact ha.edge_parent ht hyx hc (hparent ▸ ne_nil hy) h
    · obtain ⟨hle, hq⟩ := h
      constructor
      · rw [ha.produced_ne hyx, ha.produced_ne hc]
        exact hle
      · rw [ha.produced_ne hyx, ha.produced_ne hc, ha.group_ne hyx, ha.up_ne hc]
        exact hq

/-- One operation of `x` is processed. -/
theorem Core.advance (h : Core T s) (hx : x ∈ T.tags) (ha : Advanced T s t x g v r) (ht : Takes T s x g v r) :
    Core T t where
  node := by
    intro y hy
    by_cases hyx : y = x
    · subst hyx
      exact ha.node ht
    · exact ha.node_ne hyx (h.node y hy)
  edge := fun y hy w hw hne => ha.edge ht hx hy hw hne (h.edge y hy w hw hne)
  computed := by
    intro y hy k a hk
    by_cases hyx : y = x
    · subst hyx
      rw [ha.produced_self] at hk
      rcases Nat.lt_or_ge k (s.produced y).length with hlt | hge
      · rw [List.getElem?_append_left hlt] at hk
        exact ha.computed (h.computed y hy k a hk)
      · rw [List.getElem?_append_right hge] at hk
        rw [List.getElem?_singleton] at hk
        split at hk
        · rename_i hk0
          cases hk
          have hkd : k = (s.produced y).length := by omega
          subst hkd
          exact ha.computed ht.computed
        · cases hk
    · rw [ha.produced_ne hyx] at hk
      exact ha.computed (h.computed y hy k a hk)
  stored := by
    by_cases hroot : T.root = x
    · have hp := (parent_eq_nil_iff hx).mpr hroot.symm
      have hstored := h.stored
      rw [hroot] at hstored
      rw [hroot, ha.produced_self, ha.group_self, ht.stored hp, hstored]
    · rw [ha.group_ne hroot, ha.produced_ne hroot]
      exact h.stored
  up := by
    intro y hne
    by_cases hyx : y = x
    · subst hyx
      refine ⟨hx, fun hp => ?_⟩
      rw [ha.up, if_pos hp] at hne
      exact (h.up y hne).2 hp
    · rw [ha.up_ne hyx] at hne
      exact h.up y hne
  down := by
    intro c hne
    rcases ha.down c with hsame | ⟨hc, w, hw, rfl⟩
    · rw [hsame] at hne
      exact h.down c hne
    · have hmem := neighbor_mem hc
      have hparent := (child_iff_parent hx hmem).mp ⟨w, hw, rfl⟩
      exact ⟨hmem, by rw [hparent]; exact ne_nil hx⟩

end Advance

/-! ## Processing one operation -/

section Process

variable {x : TagID} {g g' : ReduceGroup V} {p : PendingReduce V} {rest : List (PendingReduce V)} {v : V}

/-- What the next value of a child leaves behind. -/
def TakenFrom (T : Group V) (s : St V) (x : TagID) (w : Fin 3) (b : FifoTagBuffer V) : Prop :=
  (s.produced x).length + 1 ≤ (s.produced ((T.neighbors x).tags w)).length ∧
    b.buffer ++ s.up ((T.neighbors x).tags w) = stamped ((s.produced x).length + 1)
      ((s.produced ((T.neighbors x).tags w)).drop ((s.produced x).length + 1)) ∧ b.Fresh

theorem Edge.take {w : Fin 3} {r : VersionID} (h : Edge T s x w) (hr : r.toNat ≤ (s.produced x).length)
    (hd : (s.produced x).length + 1 < 2 ^ 32) (hf : ((s.group x).dataBuffers w).Fresh)
    (hdata : ((s.group x).dataBuffers w).hasData r = true) :
    ∃ a b, (s.produced ((T.neighbors x).tags w))[(s.produced x).length]? = some a ∧
      ((s.group x).dataBuffers w).get r = some (a, b) ∧ TakenFrom T s x w b := by
  obtain ⟨a, b, ha, hg, hq, hfresh⟩ := take_stamped h.queue hr hd hdata
  have hlt := (List.getElem?_eq_some_iff.mp ha).1
  exact ⟨a, b, ha, hg, hlt, hq, hfresh hf⟩

/-- The children's next values are taken, and combined with the value of the
operation. -/
theorem Core.reduceResult (h : Core T s) (hx : x ∈ T.tags)
    (hg : s.group x = { g with pendingReduces := p :: rest })
    (hr : p.requiredVersion.toNat ≤ (s.produced x).length) (hd : (s.produced x).length + 1 < 2 ^ 32)
    (hop : p.operation = T.op (s.produced x).length)
    (hown : (s.subs x)[(s.produced x).length]? = some p.value)
    (hready : g.reduceIsReady p.requiredVersion = true)
    (hres : ReduceGroup.reduceResult { g with lastSentVersion := p.requiredVersion } p = some (v, g')) :
    (∀ w, w ≠ 0 → (T.neighbors x).tags w ≠ [] → TakenFrom T s x w (g'.dataBuffers w)) ∧
      g'.dataBuffers 0 = g.dataBuffers 0 ∧ (∀ w, (g'.dataBuffers w).Fresh) ∧
      Computed T s x (s.produced x).length v := by
  have hnode := h.node x hx
  have hnb : g.tagNeighbors = T.neighbors x := by rw [← hnode.neighbors, hg]
  have hfresh : ∀ w, (g.dataBuffers w).Fresh := by
    have := hnode.fresh
    rwa [hg] at this
  have htake : ∀ w, w ≠ 0 → (T.neighbors x).tags w ≠ [] → ∀ a b,
      (g.dataBuffers w).get p.requiredVersion = some (a, b) → (g.dataBuffers w).hasData p.requiredVersion = true →
      (s.produced ((T.neighbors x).tags w))[(s.produced x).length]? = some a ∧ TakenFrom T s x w b := by
    intro w hw hne a b hget hdata
    have he := (h.edge x hx w hw hne).take hr hd (hnode.fresh w)
    rw [hg] at he
    obtain ⟨a', b', ha, hget', htaken⟩ := he hdata
    rw [hget] at hget'
    cases hget'
    exact ⟨ha, htaken⟩
  have hpos : ∀ w : Fin 3, w ≠ 0 → w = 1 ∨ w = 2 := by decide
  unfold reduceIsReady at hready
  simp only [hnb, List.isEmpty_iff] at hready
  rcases reduceResult_cases hres with ⟨hl, rfl, rfl⟩ | ⟨hl, hr', a, b, hget, rfl, rfl⟩ |
      ⟨hl, hr', a, b, c, d, hget₁, hget₂, rfl, rfl⟩
  all_goals simp only [hnb] at hl
  · refine ⟨?_, rfl, hfresh, p.value, hown, by rw [if_pos hl]⟩
    intro w hw hne
    rcases hpos w hw with rfl | rfl
    · exact absurd hl hne
    · exact absurd (left_of_right hl) hne
  · simp only [hnb] at hr'
    rw [if_neg hl, if_pos hr'] at hready
    obtain ⟨ha, htaken⟩ := htake 1 (by decide) hl a b hget hready
    refine ⟨?_, rfl, ?_, p.value, hown, ?_⟩
    · intro w hw hne
      rcases hpos w hw with rfl | rfl
      · exact htaken
      · exact absurd hr' hne
    · intro w
      simp only [Function.update_apply]
      split
      · exact htaken.2.2
      · exact hfresh w
    · rw [if_neg hl]
      exact ⟨a, ha, by rw [if_pos hr', hop]⟩
  · simp only [hnb] at hr'
    rw [if_neg hl, if_neg hr', Bool.and_eq_true] at hready
    obtain ⟨ha, htaken₁⟩ := htake 1 (by decide) hl a b hget₁ hready.1
    obtain ⟨hc, htaken₂⟩ := htake 2 (by decide) hr' c d hget₂ hready.2
    refine ⟨?_, rfl, ?_, p.value, hown, ?_⟩
    · intro w hw hne
      rcases hpos w hw with rfl | rfl
      · exact htaken₁
      · exact htaken₂
    · intro w
      simp only [Function.update_apply]
      split
      · exact htaken₂.2.2
      · split
        · exact htaken₁.2.2
        · exact hfresh w
    · rw [if_neg hl]
      refine ⟨a, ha, ?_⟩
      rw [if_neg hr']
      exact ⟨c, hc, by rw [hop]⟩

/-- The first operation of `x` is processed. -/
theorem Core.step (h : Core T s) (hb : Bounded T s) (hx : x ∈ T.tags)
    (hg : s.group x = { g with pendingReduces := p :: rest })
    (hready : g.reduceIsReady p.requiredVersion = true)
    (hres : ReduceGroup.reduceResult { g with lastSentVersion := p.requiredVersion } p = some (v, g')) :
    Core T (s.act T x { (g'.deliverResult p v).1 with pendingReduces := rest } (g'.deliverResult p v).2) := by
  have hnode := h.node x hx
  have hwaits := hnode.waits
  have hexpected := hnode.expected
  have hvalid := hnode.valid
  rw [hg] at hwaits hexpected hvalid
  obtain ⟨ws, hws, hop, hr, hrest⟩ := hwaits.cons_inv
  have hown : (s.subs x)[(s.produced x).length]? = some p.value := by
    rw [← List.head?_drop, hws]
    rfl
  have htail : ws = (s.subs x).drop ((s.produced x).length + 1) := by
    rw [← List.tail_drop, hws]
    rfl
  have hlt := (List.getElem?_eq_some_iff.mp hown).1
  have hbound := hb x hx
  obtain ⟨htaken, h0, hfresh, hcomp⟩ :=
    h.reduceResult hx hg (hr.le (by omega)) (by omega) hop hown hready hres
  have hframe := reduceResult_frame hres
  have hn : g'.tagNeighbors = T.neighbors x := by
    rw [hframe, ← hnode.neighbors, hg]
  have hlast : g'.lastSentVersion = p.requiredVersion := by rw [hframe]
  have hstored : (s.group x).dataBuffers 0 = g'.dataBuffers 0 := by rw [hg, h0]
  have hdel := deliverResult_frame g' p v
  refine h.advance hx (advanced_act s x p g' _ v hn) ⟨?_, ?_, ?_, ?_, hlt, htail ▸ hrest, ?_, hr, ?_, hcomp, ?_⟩
  · rw [hdel]; exact hn
  · rw [hdel, hframe]; exact hexpected
  · rw [hdel, hframe]; exact hvalid
  · exact deliverResult_fresh g' p v hfresh
  · rw [hdel]
    simp only
    rw [hlast]
    exact hr.next (by omega)
  · intro w hw hne
    obtain ⟨hle, hq, -⟩ := htaken w hw hne
    simp only [deliverResult_buffer g' p v hw]
    exact ⟨hle, hq⟩
  · intro hp
    simp only
    rw [deliverResult_stored g' p v (hfresh 0) (by rw [hn]; exact hp), List.map_append, hstored]
    rfl

end Process

theorem act_of_setGroup (s : St V) (x : TagID) (g g' : ReduceGroup V) (sends : List (Send V)) :
    (s.setGroup x g).act T x g' sends = s.act T x g' sends := by
  unfold St.act
  rw [setGroup_setGroup]

structure Inv (T : Group V) (s : St V) : Prop where
  core : Core T s
  settled : ∀ x ∈ T.tags, Settled s x

/-- All that can be processed at `x` is. -/
theorem Core.process {x : TagID} {g' : ReduceGroup V} {sends : List (Send V)} (h : Core T s)
    (hs : ∀ y ∈ T.tags, y ≠ x → Settled s y) (hb : Bounded T s) (hx : x ∈ T.tags)
    (hproc : (s.group x).processPendingReduceOps = some (g', sends)) : Inv T (s.act T x g' sends) where
  core := by
    have hrule := processLoop_rule
      (P := fun rest g sends => Core T (s.act T x { g with pendingReduces := rest } sends))
      ?_ ?_ _ _ _ [] _ hproc ?_
    · obtain ⟨rest, g₁, hcore, rfl⟩ := hrule
      exact hcore
    · intro p rest g sends hinvalid hcore
      have hvalid := (hcore.node x hx).valid
      rw [act_group, Function.update_self] at hvalid
      exact absurd (hvalid.symm.trans hinvalid) (by decide)
    · intro p rest g sends v g' _ hready hres hcore
      rw [act_append s x { g with pendingReduces := p :: rest }]
      refine hcore.step ?_ hx ?_ hready hres
      · intro y hy
        rw [act_subs]
        exact hb y hy
      · rw [act_group, Function.update_self]
    · have hself : s.act T x (s.group x) [] = s := by
        simp only [St.act, St.setGroup, List.foldl_nil, Function.update_eq_self]
      exact hself.symm ▸ h
  settled := by
    intro y hy
    unfold Settled
    rw [act_group]
    by_cases hyx : y = x
    · subst hyx
      rw [Function.update_self]
      exact processLoop_settled _ _ _ _ hproc (h.node y hx).valid
    · rw [Function.update_of_ne hyx]
      exact hs y hy hyx

/-! ## The steps -/

section Steps

variable {x : TagID}

/-- A group whose buffers alone have changed. -/
theorem Node.setBuffers (h : Node T s x) {f : Fin 3 → FifoTagBuffer V}
    (hg : t.group x = { s.group x with dataBuffers := f }) (hf : ∀ w, (f w).Fresh) (hsubs : t.subs = s.subs)
    (hprod : t.produced = s.produced) : Node T t x := by
  constructor
  · rw [hg]; exact h.neighbors
  · rw [hg]; exact h.expected
  · rw [hg]; exact h.valid
  · rw [hg]; exact hf
  · rw [hsubs, hprod]; exact h.le
  · rw [hg, hsubs, hprod]; exact h.waits
  · rw [hg, hprod]; exact h.last

/-- A node that keeps its group, and its history. -/
theorem Node.congr (h : Node T s x) (hg : t.group x = s.group x) (hsubs : t.subs x = s.subs x)
    (hprod : t.produced x = s.produced x) : Node T t x := by
  constructor
  · rw [hg]; exact h.neighbors
  · rw [hg]; exact h.expected
  · rw [hg]; exact h.valid
  · rw [hg]; exact h.fresh
  · rw [hsubs, hprod]; exact h.le
  · rw [hg, hsubs, hprod]; exact h.waits
  · rw [hg, hprod]; exact h.last

/-- A new operation has the version it may require: nothing else is pending,
or this is the root. -/
theorem Node.submit (h : Node T s x) (op : V → V → V) (isAllReduce : Bool) (value : V)
    (hop : op = T.op (s.subs x).length)
    (hc : (s.group x).returnsValueOnReduce = true ∨ (s.group x).pendingReduces = []) (seq : Nat) :
    Waits T.op (T.neighbors x).parent.isEmpty (s.produced x).length
      ((s.subs x ++ [value]).drop (s.produced x).length)
      ((s.group x).pendingReduces ++ [⟨(s.group x).lastSentVersion + 1, value, op, isAllReduce, seq⟩]) := by
  have hle := h.le
  rw [List.drop_append_of_le_length hle]
  refine h.waits.snoc (n := (s.subs x).length)
    (p := ⟨(s.group x).lastSentVersion + 1, value, op, isAllReduce, seq⟩) ?_ hop ?_
  · rw [List.length_drop]
    omega
  · refine h.last.mono hle ?_
    rcases hc with hroot | hnil
    · left
      rw [← h.neighbors]
      exact hroot
    · right
      have hwaits := h.waits
      rw [hnil] at hwaits
      cases hd : (s.subs x).drop (s.produced x).length with
      | nil => exact le_antisymm hle (List.drop_eq_nil_iff.mp hd)
      | cons v vs => rw [hd] at hwaits; cases hwaits

/-- The state in which the new operation waits. -/
def submitted (T : Group V) (s : St V) (x : TagID) (isAllReduce : Bool) (value : V) : St V :=
  ({ s with subs := Function.update s.subs x (s.subs x ++ [value]) } : St V).setGroup x
    { s.group x with
      pendingReduces := (s.group x).pendingReduces ++ [⟨(s.group x).lastSentVersion + 1, value,
        T.op (s.subs x).length, isAllReduce, (s.group x).submitted⟩]
      submitted := (s.group x).submitted + 1 }

theorem submitted_core (h : Core T s) (hx : x ∈ T.tags) (isAllReduce : Bool) (value : V)
    (hc : (s.group x).returnsValueOnReduce = true ∨ (s.group x).pendingReduces = []) :
    Core T (submitted T s x isAllReduce value) := by
  have hbuf : ∀ y, ((submitted T s x isAllReduce value).group y).dataBuffers = (s.group y).dataBuffers := by
    intro y
    by_cases hyx : y = x
    · subst hyx
      rw [submitted, setGroup_self]
    · rw [submitted, setGroup_ne _ _ hyx]
  refine ⟨?_, ?_, ?_, ?_, h.up, h.down⟩
  · intro y hy
    have hnode := h.node y hy
    by_cases hyx : y = x
    · subst hyx
      have hgroup : (submitted T s y isAllReduce value).group y = _ := setGroup_self _ _ _
      have hsubs : (submitted T s y isAllReduce value).subs y = s.subs y ++ [value] := Function.update_self _ _ _
      constructor
      · rw [hgroup]; exact hnode.neighbors
      · rw [hgroup]; exact hnode.expected
      · rw [hgroup]; exact hnode.valid
      · rw [hgroup]; exact hnode.fresh
      · rw [hsubs, List.length_append]
        exact Nat.le_add_right_of_le hnode.le
      · rw [hgroup, hsubs]
        exact hnode.submit _ isAllReduce value rfl hc _
      · rw [hgroup]; exact hnode.last
    · exact hnode.congr (setGroup_ne _ _ hyx) (Function.update_of_ne hyx _ _) rfl
  · intro y hy w hw hne
    obtain ⟨hle, hq⟩ := h.edge y hy w hw hne
    exact ⟨hle, by rw [hbuf]; exact hq⟩
  · intro y hy k v hk
    refine (h.computed y hy k v hk).mono ?_ fun _ _ _ hb => hb
    intro z k v hv
    by_cases hzx : z = x
    · subst hzx
      have hsubs : (submitted T s z isAllReduce value).subs z = s.subs z ++ [value] := Function.update_self _ _ _
      rw [hsubs, List.getElem?_append_left (List.getElem?_eq_some_iff.mp hv).1]
      exact hv
    · have hsubs : (submitted T s x isAllReduce value).subs z = s.subs z := Function.update_of_ne hzx _ _
      rw [hsubs]
      exact hv
  · rw [hbuf]
    exact h.stored

/-- The state in which the parent has put the oldest value of `x` into a
buffer. -/
def taken (T : Group V) (s : St V) (x : TagID) (w : Fin 3) (value : V) (version : VersionID)
    (rest : List (V × VersionID)) : St V :=
  ({ s with up := Function.update s.up x rest } : St V).setGroup (T.neighbors x).parent
    ((s.group (T.neighbors x).parent).addDataIndex w value version)

theorem taken_core (h : Core T s) {value : V} {version : VersionID} {rest : List (V × VersionID)} {w : Fin 3}
    (hup : s.up x = (value, version) :: rest) (hw : w ≠ 0)
    (hc : (T.neighbors (T.neighbors x).parent).tags w = x) : Core T (taken T s x w value version rest) := by
  obtain ⟨hx, hp⟩ := h.up x (by rw [hup]; exact List.cons_ne_nil _ _)
  have hpm : (T.neighbors x).parent ∈ T.tags := neighbor_mem hp
  have hfresh := (h.node _ hpm).fresh
  obtain ⟨p, hpdef⟩ : ∃ p, (T.neighbors x).parent = p := ⟨_, rfl⟩
  rw [hpdef] at hc hpm hfresh
  have hself : (taken T s x w value version rest).group p = (s.group p).addDataIndex w value version := by
    rw [taken, hpdef, setGroup_self]
  have hne : ∀ y, y ≠ p → (taken T s x w value version rest).group y = s.group y := by
    intro y hy
    rw [taken, hpdef, setGroup_ne _ _ hy]
  have hbuf : ∀ y w', ¬(y = p ∧ w' = w) →
      ((taken T s x w value version rest).group y).dataBuffers w' = (s.group y).dataBuffers w' := by
    intro y w' hyw
    by_cases hyp : y = p
    · subst hyp
      rw [hself]
      exact addDataIndex_ne _ _ _ fun he => hyw ⟨rfl, he⟩
    · rw [hne y hyp]
  refine ⟨?_, ?_, ?_, ?_, ?_, h.down⟩
  · intro y hy
    by_cases hyp : y = p
    · subst hyp
      exact (h.node y hy).setBuffers hself (addDataIndex_fresh _ _ _ _ hfresh) rfl rfl
    · exact (h.node y hy).congr (hne y hyp) rfl rfl
  · intro y hy w' hw' hcne
    obtain ⟨hle, hq⟩ := h.edge y hy w' hw' hcne
    refine ⟨hle, ?_⟩
    by_cases hcx : (T.neighbors y).tags w' = x
    · -- the child is `x`, so this is its parent's buffer for it
      have hyp : y = p := ((child_iff_parent hy hx).mp ⟨w', hw', hcx⟩).symm.trans hpdef
      subst hyp
      have hww : w' = w := neighbor_inj (hcx.trans hc.symm) hcne
      subst hww
      have hpop : (taken T s x w' value version rest).up x = rest := Function.update_self _ _ _
      rw [hcx, hup] at hq
      rw [hself, addDataIndex_self _ _ _ _ (hfresh w'), hcx, hpop, List.append_assoc]
      exact hq
    · have hkeep : (taken T s x w value version rest).up ((T.neighbors y).tags w') =
          s.up ((T.neighbors y).tags w') := Function.update_of_ne hcx _ _
      rw [hkeep, hbuf y w']
      · exact hq
      · intro hex
        obtain ⟨rfl, rfl⟩ := hex
        exact hcx hc
  · intro y hy k v hk
    exact (h.computed y hy k v hk).mono (fun _ _ _ hb => hb) fun _ _ _ hb => hb
  · rw [hbuf]
    · exact h.stored
    · intro hex
      obtain ⟨-, h0⟩ := hex
      exact hw h0.symm
  · intro y hy
    by_cases hyx : y = x
    · subst hyx
      exact ⟨hx, hp⟩
    · have hkeep : (taken T s x w value version rest).up y = s.up y := Function.update_of_ne hyx _ _
      rw [hkeep] at hy
      exact h.up y hy

/-- The state in which `x` has stored a result from its parent and passed it
on. -/
def forwarded (T : Group V) (s : St V) (x : TagID) (value : V) (version : VersionID)
    (rest : List (V × VersionID)) : St V :=
  ({ s with down := Function.update s.down x rest } : St V).act T x
    ((s.group x).addDataIndex 0 value version) [.toChildren value version]

theorem forwarded_core (h : Core T s) {value : V} {version : VersionID} {rest : List (V × VersionID)}
    (hdown : s.down x = (value, version) :: rest) : Core T (forwarded T s x value version rest) := by
  obtain ⟨hx, hp⟩ := h.down x (by rw [hdown]; exact List.cons_ne_nil _ _)
  have hself : (forwarded T s x value version rest).group x = (s.group x).addDataIndex 0 value version := by
    rw [forwarded, act_group, Function.update_self]
  have hne : ∀ y, y ≠ x → (forwarded T s x value version rest).group y = s.group y := by
    intro y hy
    rw [forwarded, act_group, Function.update_of_ne hy]
  refine ⟨?_, ?_, ?_, ?_, h.up, ?_⟩
  · intro y hy
    by_cases hyx : y = x
    · subst hyx
      exact (h.node y hy).setBuffers hself (addDataIndex_fresh _ _ _ _ (h.node y hy).fresh) rfl rfl
    · exact (h.node y hy).congr (hne y hyx) rfl rfl
  · intro y hy w hw hcne
    obtain ⟨hle, hq⟩ := h.edge y hy w hw hcne
    refine ⟨hle, ?_⟩
    by_cases hyx : y = x
    · subst hyx
      rw [hself, addDataIndex_ne _ _ _ hw]
      exact hq
    · rw [hne y hyx]
      exact hq
  · intro y hy k v hk
    exact (h.computed y hy k v hk).mono (fun _ _ _ hb => hb) fun _ _ _ hb => hb
  · have hroot : T.root ≠ x := fun he => hp ((parent_eq_nil_iff hx).mpr he.symm)
    rw [hne _ hroot]
    exact h.stored
  · intro c hcne
    have hcases : (forwarded T s x value version rest).down c = Function.update s.down x rest c ∨ _ :=
      send_down (({ s with down := Function.update s.down x rest } : St V).setGroup x
        ((s.group x).addDataIndex 0 value version)) x value version c
    rcases hcases with hkeep | ⟨hc, w, hw, rfl⟩
    · rw [hkeep] at hcne
      by_cases hcx : c = x
      · subst hcx
        exact ⟨hx, hp⟩
      · rw [Function.update_of_ne hcx] at hcne
        exact h.down c hcne
    · have hmem := neighbor_mem hc
      have hparent := (child_iff_parent hx hmem).mp ⟨w, hw, rfl⟩
      exact ⟨hmem, by rw [hparent]; exact ne_nil hx⟩

/-! ### Each step is one of these, and processing -/

theorem submit_cases {isAllReduce : Bool} {value : V} (hst : step T s (.submit x isAllReduce value) = some t) :
    x ∈ T.tags ∧ ∃ g sends,
      ((submitted T s x isAllReduce value).group x).processPendingReduceOps = some (g, sends) ∧
      t = (submitted T s x isAllReduce value).act T x g sends := by
  simp only [step] at hst
  split at hst
  · rename_i hx
    obtain ⟨⟨w, g, sends⟩, hr, hst⟩ := Option.bind_eq_some_iff.mp hst
    obtain ⟨⟨g', sends'⟩, hp, hr⟩ := Option.bind_eq_some_iff.mp hr
    cases hr
    cases hst
    refine ⟨hx, g, sends, ?_, (act_of_setGroup _ _ _ _ _).symm⟩
    rw [submitted, setGroup_self]
    exact hp
  · cases hst

theorem toParent_cases (h : Core T s) (hst : step T s (.toParent x) = some t) :
    ∃ w value version rest g sends, s.up x = (value, version) :: rest ∧ w ≠ 0 ∧
      (T.neighbors (T.neighbors x).parent).tags w = x ∧ (T.neighbors x).parent ∈ T.tags ∧
      ((taken T s x w value version rest).group (T.neighbors x).parent).processPendingReduceOps =
        some (g, sends) ∧
      t = (taken T s x w value version rest).act T (T.neighbors x).parent g sends := by
  simp only [step] at hst
  split at hst
  · cases hst
  · rename_i value version rest hup
    obtain ⟨hx, hp⟩ := h.up x (by rw [hup]; exact List.cons_ne_nil _ _)
    have hpm : (T.neighbors x).parent ∈ T.tags := neighbor_mem hp
    have hnode := h.node _ hpm
    obtain ⟨w, hw, hc⟩ := (child_iff_parent hpm hx).mpr rfl
    have hbuf : (s.group (T.neighbors x).parent).bufferFor x = some w := by
      refine bufferFor_eq (by rw [hnode.neighbors]; exact hc) ?_
      intro w' hw'
      rw [hnode.neighbors] at hw'
      exact neighbor_inj (hw'.trans hc.symm) (by rw [hw']; exact ne_nil hx)
    obtain ⟨⟨ok, g, sends⟩, hr, hst⟩ := Option.bind_eq_some_iff.mp hst
    rw [addData_eq (by rw [hnode.expected, T.types_eq]) hbuf] at hr
    obtain ⟨⟨g', sends'⟩, hproc, hr⟩ := Option.map_eq_some_iff.mp hr
    rw [if_neg hw] at hr
    cases hr
    cases hst
    refine ⟨w, value, version, rest, _, sends', hup, hw, hc, hpm, ?_, (act_of_setGroup _ _ _ _ _).symm⟩
    rw [taken, setGroup_self]
    exact hproc

theorem fromParent_cases (h : Core T s) (hst : step T s (.fromParent x) = some t) :
    ∃ value version rest g sends, s.down x = (value, version) :: rest ∧ x ∈ T.tags ∧
      ((forwarded T s x value version rest).group x).processPendingReduceOps = some (g, sends) ∧
      t = (forwarded T s x value version rest).act T x g sends := by
  simp only [step] at hst
  split at hst
  · cases hst
  · rename_i value version rest hdown
    obtain ⟨hx, hp⟩ := h.down x (by rw [hdown]; exact List.cons_ne_nil _ _)
    have hnode := h.node _ hx
    have hbuf : (s.group x).bufferFor (T.neighbors x).parent = some 0 := by
      refine bufferFor_eq (by rw [hnode.neighbors]; rfl) ?_
      intro w' hw'
      rw [hnode.neighbors] at hw'
      exact neighbor_inj hw' (by rw [hw']; exact hp)
    obtain ⟨⟨ok, g, sends⟩, hr, hst⟩ := Option.bind_eq_some_iff.mp hst
    rw [addData_eq (by rw [hnode.expected, T.types_eq]) hbuf] at hr
    obtain ⟨⟨g', sends'⟩, hproc, hr⟩ := Option.map_eq_some_iff.mp hr
    cases hr
    cases hst
    refine ⟨value, version, rest, _, sends', hdown, hx, ?_, act_append _ _ _ _ _ _⟩
    rw [forwarded, act_group, Function.update_self]
    exact hproc

/-- No assertion of a participant fails. -/
theorem step_isSome (l : Lbl V) (hl : match l with
    | .submit x _ _ => x ∈ T.tags
    | .toParent x => s.up x ≠ []
    | .fromParent x => s.down x ≠ []) : (step T s l).isSome := by
  cases l with
  | submit x isAllReduce value =>
    obtain ⟨r, hr⟩ := Option.isSome_iff_exists.mp
      (reduceImpl_isSome (s.group x) isAllReduce (T.op (s.subs x).length) value)
    simp only [step, if_pos hl, hr]
    rfl
  | toParent x =>
    obtain ⟨⟨value, version⟩, rest, hup⟩ := List.exists_cons_of_ne_nil hl
    obtain ⟨r, hr⟩ := Option.isSome_iff_exists.mp
      (addData_isSome (s.group (T.neighbors x).parent) x value version)
    simp only [step, hup, hr]
    rfl
  | fromParent x =>
    obtain ⟨⟨value, version⟩, rest, hdown⟩ := List.exists_cons_of_ne_nil hl
    obtain ⟨r, hr⟩ := Option.isSome_iff_exists.mp
      (addData_isSome (s.group x) (T.neighbors x).parent value version)
    simp only [step, hdown, hr]
    rfl

theorem inv_step {l : Lbl V} (h : Inv T s) (hb : Bounded T t) (hst : step T s l = some t) (hc : Cond s l) :
    Inv T t := by
  cases l with
  | submit x isAllReduce value =>
    obtain ⟨hx, g, sends, hproc, rfl⟩ := submit_cases hst
    refine (submitted_core h.core hx isAllReduce value hc).process ?_ ?_ hx hproc
    · intro y hy hyx
      have hgroup : (submitted T s x isAllReduce value).group y = s.group y := setGroup_ne _ _ hyx
      unfold Settled
      rw [hgroup]
      exact h.settled y hy
    · intro y hy
      rw [← act_subs]
      exact hb y hy
  | toParent x =>
    obtain ⟨w, value, version, rest, g, sends, hup, hw, hch, hpm, hproc, rfl⟩ := toParent_cases h.core hst
    refine (taken_core h.core hup hw hch).process ?_ ?_ hpm hproc
    · intro y hy hyp
      have hgroup : (taken T s x w value version rest).group y = s.group y := setGroup_ne _ _ hyp
      unfold Settled
      rw [hgroup]
      exact h.settled y hy
    · intro y hy
      rw [← act_subs]
      exact hb y hy
  | fromParent x =>
    obtain ⟨value, version, rest, g, sends, hdown, hx, hproc, rfl⟩ := fromParent_cases h.core hst
    refine (forwarded_core h.core hdown).process ?_ ?_ hx hproc
    · intro y hy hyx
      have hgroup : (forwarded T s x value version rest).group y = s.group y := by
        rw [forwarded, act_group, Function.update_of_ne hyx]
      unfold Settled
      rw [hgroup]
      exact h.settled y hy
    · intro y hy
      rw [← act_subs]
      exact hb y hy

end Steps

/-! ## The result -/

section Result

/-- Submissions are never taken back. -/
theorem step_subs {l : Lbl V} (hst : step T s l = some t) (y : TagID) :
    (s.subs y).length ≤ (t.subs y).length := by
  cases l with
  | submit x isAllReduce value =>
    obtain ⟨-, g, sends, -, rfl⟩ := submit_cases hst
    rw [act_subs]
    by_cases hyx : y = x
    · subst hyx
      have hsubs : (submitted T s y isAllReduce value).subs y = s.subs y ++ [value] := Function.update_self _ _ _
      rw [hsubs, List.length_append]
      exact Nat.le_add_right _ _
    · have hsubs : (submitted T s x isAllReduce value).subs y = s.subs y := Function.update_of_ne hyx _ _
      rw [hsubs]
  | toParent x | fromParent x =>
    simp only [step] at hst
    split at hst
    · cases hst
    · obtain ⟨⟨ok, g, sends⟩, -, hst⟩ := Option.bind_eq_some_iff.mp hst
      cases hst
      rw [act_subs]

theorem inv_start : Inv T (start T) := by
  refine ⟨⟨?_, ?_, ?_, rfl, fun x hx => absurd rfl hx, fun x hx => absurd rfl hx⟩, ?_⟩
  · intro x hx
    refine ⟨rfl, rfl, rfl, fun w => rfl, le_rfl, .nil 0, ?_⟩
    show VersionOk _ 0 (tagNoData + 1)
    unfold VersionOk
    split
    · exact Nat.zero_le _
    · rfl
  · intro x hx w hw hne
    exact ⟨le_rfl, rfl⟩
  · intro x hx k v hk
    cases hk
  · intro x hx p hp
    cases hp

theorem inv_inductive : ((lts T).restrict Cond).Inductive fun s => Bounded T s → Inv T s where
  init := by
    rintro s rfl -
    exact inv_start
  step := by
    rintro s l t hs ⟨hst, hc⟩ hb
    have hb' : Bounded T s := fun y hy => lt_of_le_of_lt (step_subs hst y) (hb y hy)
    exact inv_step (hs hb') hb hst hc

/-! ### The values -/

theorem Core.combines (h : Core T s) {k : Nat} : ∀ (n : Nat) (x : TagID) (v : V),
    (binTree T.tags).length - T.rank x ≤ n → x ∈ T.tags → (s.produced x)[k]? = some v → Combines T s k x v := by
  intro n
  induction n with
  | zero =>
    intro x v hn hx
    have := rank_lt hx
    omega
  | succ n ih =>
    intro x v hn hx hv
    have hchild : ∀ w a, w ≠ 0 → (T.neighbors x).tags w ≠ [] →
        (s.produced ((T.neighbors x).tags w))[k]? = some a → Combines T s k ((T.neighbors x).tags w) a := by
      intro w a hw hne ha
      have := rank_child_gt hw hne
      exact ih _ a (by omega) (neighbor_mem hne) ha
    obtain ⟨own, hown, hval⟩ := h.computed x hx k v hv
    split at hval
    · rename_i hl
      subst hval
      exact .leaf hl hown
    · rename_i hl
      obtain ⟨left, hleft, hval⟩ := hval
      have hcl := hchild 1 left (by decide) hl hleft
      split at hval
      · rename_i hr
        subst hval
        exact .one hl hr hown hcl
      · rename_i hr
        obtain ⟨right, hright, rfl⟩ := hval
        exact .two hl hr hown hcl (hchild 2 right (by decide) hr hright)

/-! ### The number of results -/

/-- With no message in flight a participant has processed all it was given,
or waits for a child that has produced no more. -/
theorem Inv.quiet (h : Inv T s) (hb : Bounded T s) (hq : Quiet T s) {x : TagID} (hx : x ∈ T.tags) :
    (s.produced x).length = (s.subs x).length ∨ ∃ w, w ≠ 0 ∧ (T.neighbors x).tags w ≠ [] ∧
      (s.produced ((T.neighbors x).tags w)).length = (s.produced x).length := by
  have hnode := h.core.node x hx
  have hle := hnode.le
  have hwaits := hnode.waits
  have hbx := hb x hx
  have hset := h.settled x hx
  cases hp : (s.group x).pendingReduces with
  | nil =>
    rw [hp] at hwaits
    left
    cases hd : (s.subs x).drop (s.produced x).length with
    | nil => exact le_antisymm hle (List.drop_eq_nil_iff.mp hd)
    | cons v vs => rw [hd] at hwaits; cases hwaits
  | cons p ps =>
    right
    rw [hp] at hwaits
    obtain ⟨ws, hws, -, hr, -⟩ := hwaits.cons_inv
    have hlt : (s.produced x).length < (s.subs x).length := by
      by_contra hge
      rw [List.drop_eq_nil_iff.mpr (by omega)] at hws
      cases hws
    have hready := hset p (by rw [hp]; rfl)
    have hempty : ∀ w, w ≠ 0 → (T.neighbors x).tags w ≠ [] →
        ((s.group x).dataBuffers w).hasData p.requiredVersion = false →
        (s.produced ((T.neighbors x).tags w)).length = (s.produced x).length := by
      intro w hw hne hdata
      obtain ⟨hle', hqueue⟩ := h.core.edge x hx w hw hne
      have hbc : (s.produced ((T.neighbors x).tags w)).length < 2 ^ 32 - 1 :=
        lt_of_le_of_lt (h.core.node _ (neighbor_mem hne)).le (hb _ (neighbor_mem hne))
      have hbuf : ((s.group x).dataBuffers w).buffer = [] := by
        by_contra hbne
        have := (hasData_stamped hqueue (hr.le (by omega)) hle' (by omega)).mpr hbne
        rw [hdata] at this
        cases this
      rw [(hq _ (neighbor_mem hne)).1, hbuf, List.append_nil] at hqueue
      have hdrop := List.drop_eq_nil_iff.mp (stamped_eq_nil.mp hqueue.symm)
      exact le_antisymm hdrop hle'
    unfold reduceIsReady at hready
    simp only [hnode.neighbors, List.isEmpty_iff] at hready
    by_cases hl : (T.neighbors x).leftChild = []
    · rw [if_pos hl] at hready
      cases hready
    · rw [if_neg hl] at hready
      by_cases hr' : (T.neighbors x).rightChild = []
      · rw [if_pos hr'] at hready
        exact ⟨1, by decide, hl, hempty 1 (by decide) hl hready⟩
      · rw [if_neg hr', Bool.and_eq_false_iff] at hready
        rcases hready with hready | hready
        · exact ⟨1, by decide, hl, hempty 1 (by decide) hl hready⟩
        · exact ⟨2, by decide, hr', hempty 2 (by decide) hr' hready⟩

/-- Nobody has produced fewer results than the root. -/
theorem Core.root_le (h : Core T s) : ∀ (n : Nat) (x : TagID), T.rank x ≤ n → x ∈ T.tags →
    (s.produced T.root).length ≤ (s.produced x).length := by
  intro n
  induction n with
  | zero =>
    intro x hn hx
    rw [rank_inj hx root_mem.1 (by rw [root_mem.2]; omega)]
  | succ n ih =>
    intro x hn hx
    by_cases hp : (T.neighbors x).parent = []
    · rw [(parent_eq_nil_iff hx).mp hp]
    · have hpm : (T.neighbors x).parent ∈ T.tags := neighbor_mem hp
      obtain ⟨w, hw, hc⟩ := (child_iff_parent hpm hx).mpr rfl
      have hlt := rank_parent_lt hp
      have hle := (h.edge _ hpm w hw (by rw [hc]; exact ne_nil hx)).le
      rw [hc] at hle
      exact le_trans (ih _ (by omega) hpm) hle

/-- Somebody at or below `x` has submitted no more than `x` has produced. -/
theorem Inv.below (h : Inv T s) (hb : Bounded T s) (hq : Quiet T s) : ∀ (n : Nat) (x : TagID),
    (binTree T.tags).length - T.rank x ≤ n → x ∈ T.tags →
    ∃ y ∈ T.tags, (s.subs y).length = (s.produced x).length := by
  intro n
  induction n with
  | zero =>
    intro x hn hx
    have := rank_lt hx
    omega
  | succ n ih =>
    intro x hn hx
    rcases h.quiet hb hq hx with hdone | ⟨w, hw, hne, heq⟩
    · exact ⟨x, hx, hdone.symm⟩
    · have := rank_child_gt hw hne
      obtain ⟨y, hy, hlen⟩ := ih _ (by omega) (neighbor_mem hne)
      exact ⟨y, hy, hlen.trans heq⟩

/-- **The rounds.** -/
theorem rounds (s : St V) (h : ((lts T).restrict Cond).Reachable s) (hb : Bounded T s) : Rounds T s := by
  have hinv := inv_inductive.reachable s h hb
  refine ⟨hinv.core.stored, ?_, ?_⟩
  · intro k v hv
    exact hinv.core.combines _ T.root v le_rfl root_mem.1 hv
  · intro hq
    obtain ⟨y, hy, hlen⟩ := hinv.below hb hq _ T.root le_rfl root_mem.1
    rw [List.min?_eq_some_iff]
    refine ⟨List.mem_map.mpr ⟨y, hy, hlen⟩, ?_⟩
    intro m hm
    obtain ⟨x, hx, rfl⟩ := List.mem_map.mp hm
    exact le_trans (hinv.core.root_le _ x le_rfl hx) (hinv.core.node x hx).le

end Result

/-! ## Four participants -/

/-- "rb" and "rc" are the children of the root "ra", and "rd" is the child of
"rb". -/
def four : Group Nat where
  tags := [['r', 'c'], ['r', 'a'], ['r', 'd'], ['r', 'b']]
  nodup := by decide
  marked := by decide
  nonempty := by decide
  groupId := ['g']
  expectedTypes := []
  types_eq _ := rfl
  op _ := (· + ·)

instance (s : St Nat) : (l : Lbl Nat) → Decidable (Cond s l)
  | .submit x _ _ => inferInstanceAs (Decidable ((s.group x).returnsValueOnReduce = true ∨ _ = []))
  | .toParent _ | .fromParent _ => isTrue trivial

/-- Two rounds, the first an allreduce; the root submits twice at once. -/
def twoRounds : List (Lbl Nat) :=
  [.submit ['r', 'a'] true 1, .submit ['r', 'a'] false 2, .submit ['r', 'd'] true 1000, .submit ['r', 'c'] true 10,
    .submit ['r', 'b'] true 100, .toParent ['r', 'c'], .toParent ['r', 'd'], .toParent ['r', 'b'],
    .fromParent ['r', 'c'], .fromParent ['r', 'b'], .fromParent ['r', 'd'], .submit ['r', 'd'] false 2000,
    .submit ['r', 'c'] false 20, .toParent ['r', 'd'], .submit ['r', 'b'] false 200, .toParent ['r', 'b'],
    .toParent ['r', 'c']]

theorem rounds_four : ∃ s : St Nat, ((lts four).restrict Cond).Reachable s ∧ Quiet four s ∧
    s.produced four.root = [1111, 2222] ∧ Rounds four s := by
  have hx : LTS.exec (LTS.guarded (step four) Cond) (start four) twoRounds = some _ := rfl
  have hr : ((lts four).restrict Cond).Reachable _ := LTS.restrict_reachable_of_exec rfl hx
  refine ⟨_, hr, ?_, rfl, rounds _ hr ?_⟩
  · unfold Quiet
    decide
  · unfold Bounded
    decide

/-- "rb" submits twice while it waits for "rd". -/
def missedRun : List (Lbl Nat) :=
  [.submit ['r', 'b'] false 1, .submit ['r', 'b'] false 2, .submit ['r', 'a'] false 10, .submit ['r', 'c'] false 100,
    .submit ['r', 'd'] false 1000, .toParent ['r', 'd'], .submit ['r', 'd'] false 2000, .toParent ['r', 'd'],
    .toParent ['r', 'c'], .toParent ['r', 'b'], .submit ['r', 'a'] false 20, .toParent ['r', 'b'],
    .submit ['r', 'c'] false 200, .toParent ['r', 'c']]

/-- Everybody has submitted twice and everything has arrived, but the root has
one result. -/
theorem round_missed : ∃ s : St Nat, (lts four).Reachable s ∧ Bounded four s ∧ Quiet four s ∧
    (∀ x ∈ four.tags, (s.subs x).length = 2) ∧ s.produced four.root = [1111] ∧ ¬ Rounds four s := by
  have hx : LTS.exec (step four) (start four) missedRun = some _ := rfl
  have hr : (lts four).Reachable _ := LTS.reachable_of_exec rfl hx
  refine ⟨_, hr, ?_, ?_, ?_, rfl, ?_⟩
  · unfold Bounded
    decide
  · unfold Quiet
    decide
  · decide
  · intro hrounds
    have hcount := hrounds.count (by unfold Quiet; decide)
    exact absurd hcount (by decide)

end Skywing.L5.ReduceRounds
