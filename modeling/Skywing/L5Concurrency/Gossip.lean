import Skywing.Core.Idempotent
import Skywing.L4App.FreshUpdates
import Skywing.L5Concurrency.Lockstep

/-!
# Idempotent gossip

Agents on a finite directed graph, each running `IdempotentProcessor` under
`AsynchronousIterative::run` with `AlwaysPublish`. An agent may be subscribed
to its own tag. What it publishes travels to each other subscriber on a link
of its own, in order; buffers keep the newest value only, and every agent goes
at its own pace. Nobody dies.

An agent combines its value with what it remembers of its neighbours, stale or
not. What it holds, has published, has in flight or remembers is therefore
always a fold over the starting values of agents with a path to it
(`Gathers`), and grows in the induced order. When all publications have been
delivered and processed (`Delivered`), each agent is above what its neighbours
have published.

That is not yet agreement: an agent may be between an update and the
publication of what came of it (`not_agreed`). `gossip`: in every run in which
no publication is delivered with the version that marks an empty buffer
(`Cond`), values are as said and never move back, and on a strongly connected
graph all agents agree once everything is delivered and processed and nobody
holds a value that it has not published (`UpToDate`).
-/
namespace Skywing.L5.Gossip

open L2.TagBuffer L3 L4.Iterative
open L4.FreshUpdates (Pending hasData_add)
open L5.Lockstep (Net Lbl Published)

/-! ## The processor -/

/-- `pastEnd`: `f_accumulate_` found no neighbour with a value, and its
iterator has run past the end of the tags.
mirrors skywing/skywing_mid/idempotent_processor.hpp:19-53 -/
structure IdempotentProcessor (V : Type) where
  currValue : V
  pastEnd : Bool
  deriving DecidableEq, Repr

/-- `none`: no neighbour has a value.
mirrors skywing/skywing_mid/neighbor_data_handler.hpp:251-267 -/
def fAccumulate {V R : Type} (h : NeighborDataHandler V) (f : V → R) (binaryOp : R → R → R) : Option R :=
  match h.tags.filterMap h.neighborValues.lookup with
  | [] => none
  | v :: vs => some (vs.foldl (fun val w => binaryOp val (f w)) (f v))

namespace IdempotentProcessor

variable {V : Type}

/-- mirrors skywing/skywing_mid/idempotent_processor.hpp:38-44 -/
def processUpdate (op : V → V → V) (h : NeighborDataHandler V) (p : IdempotentProcessor V) : IdempotentProcessor V :=
  match fAccumulate h id op with
  | some v => { p with currValue := op p.currValue v }
  | none => { p with pastEnd := true }

/-- The processor with `AlwaysPublish` and policies that add no values.
mirrors skywing/skywing_mid/idempotent_processor.hpp:35-47, publish_policies.hpp:11-23 -/
def method (op : V → V → V) : Method V (IdempotentProcessor V) where
  gatherInitialPublications p := p.currValue
  processAllUpdates := processUpdate op
  gatherDataForPublication _ p := (p.currValue, p)
  publishPolicy _ _ p := (true, p)
  handleDeadNeighbor _ _ _ p := p

end IdempotentProcessor

open IdempotentProcessor (method)

/-! ## The network -/

/-- A finite directed graph; an agent goes by the tag it publishes. -/
structure Graph where
  agents : Finset TagID
  /-- the tags an agent is subscribed to -/
  nbrs : TagID → List TagID
  closed : ∀ i ∈ agents, ∀ j ∈ nbrs i, j ∈ agents

/-- What `j` publishes comes to `i`. -/
def Graph.Edge (G : Graph) (j i : TagID) : Prop := j ∈ G.nbrs i

def Graph.StronglyConnected (G : Graph) : Prop :=
  ∀ i ∈ G.agents, ∀ j ∈ G.agents, Relation.ReflTransGen G.Edge j i

section Net
variable {V α : Type} [Typed α] (c : PubSubConverter V α) (O : IdempotentOperation V) (G : Graph)

/-- Agent `i` has become `b`; what it has published in the step goes to its
other subscribers. -/
def act (s : Net V α (IdempotentProcessor V)) (i : TagID) (b : Agent V α (IdempotentProcessor V)) :
    Net V α (IdempotentProcessor V) where
  agent := Function.update s.agent i b
  chan j k :=
    if j = i ∧ k ≠ i ∧ i ∈ G.nbrs k then s.chan j k ++ b.published.drop (s.agent i).published.length
    else s.chan j k

def deliver (s : Net V α (IdempotentProcessor V)) (j i : TagID) : Option (Net V α (IdempotentProcessor V)) :=
  match s.chan j i with
  | [] => none
  | (version, value) :: rest =>
    (L4.Iterative.step c (method O.op) .asynchronous (s.agent i) (.data j value version)).map fun b =>
      { agent := Function.update s.agent i b
        chan := fun x y => if x = j ∧ y = i then rest else s.chan x y }

def step (s : Net V α (IdempotentProcessor V)) : Lbl → Option (Net V α (IdempotentProcessor V))
  | .run i =>
    if i ∈ G.agents then
      (L4.Iterative.step c (method O.op) .asynchronous (s.agent i) .run).map (act G s i)
    else none
  | .tick i =>
    if i ∈ G.agents then
      (L4.Iterative.step c (method O.op) .asynchronous (s.agent i) .tick).map (act G s i)
    else none
  | .stop i answer =>
    if i ∈ G.agents then
      (L4.Iterative.step c (method O.op) .asynchronous (s.agent i) (.stop answer)).map (act G s i)
    else none
  | .deliver j i => if i ∈ G.agents ∧ j ∈ G.nbrs i then deliver c O s j i else none

/-- A new agent with its starting value, whose subscriptions are finalized. -/
def Fresh (start : TagID → V) (i : TagID) (a : Agent V α (IdempotentProcessor V)) : Prop :=
  ∃ job : Job α, a = create (method O.op) job i (G.nbrs i) ⟨start i, false⟩ ∧
    job.lastPublishedVersion.lookup i = none ∧
    ∀ j ∈ G.nbrs i, ∃ cid, job.bufs.lookup j = some ⟨some {}, c.expectedTypes, cid, .noError⟩

def init (start : TagID → V) (s : Net V α (IdempotentProcessor V)) : Prop :=
  (∀ i ∈ G.agents, Fresh c O G start i (s.agent i)) ∧ ∀ j i, s.chan j i = []

def lts (start : TagID → V) : LTS (Net V α (IdempotentProcessor V)) Lbl := LTS.ofFn (init c O G start) (step c O G)

/-! ## What is asked for -/

/-- Between reading and processing: what is remembered need not have been
combined yet. -/
def Reading (a : Agent V α (IdempotentProcessor V)) : Prop := (∃ k, a.pc = .readUpdates k) ∨ a.pc = .processUpdates

/-- All publications have been delivered and processed: everyone has begun,
nothing is in flight, no buffer has anything unread, and what was read has been
processed. -/
def Delivered (s : Net V α (IdempotentProcessor V)) : Prop :=
  ∀ i ∈ G.agents, (s.agent i).published ≠ [] ∧ ¬ Reading (s.agent i) ∧
    ∀ j ∈ G.nbrs i, s.chan j i = [] ∧ (s.agent i).job.hasData j = some false

/-- What every agent holds is what it has published last. -/
def UpToDate (s : Net V α (IdempotentProcessor V)) : Prop :=
  ∀ i ∈ G.agents, ∃ version, (s.agent i).published.getLast? = some (version, c.convert (s.agent i).policies.currValue)

/-- The version that the agent's next publication gets. -/
def nextVersion (a : Agent V α (IdempotentProcessor V)) : VersionID :=
  (a.job.lastPublishedVersion.lookup a.producedTag).getD tagNoData + 1

/-- The steps that deliver nothing with the version of an empty buffer, to
the agent itself or to another. -/
def Cond (s : Net V α (IdempotentProcessor V)) : Lbl → Prop
  | .run i => i ∈ G.nbrs i → nextVersion (s.agent i) ≠ tagNoData
  | .tick i => (s.agent i).pc = .publish → i ∈ G.nbrs i → nextVersion (s.agent i) ≠ tagNoData
  | .stop _ _ => True
  | .deliver j i => ∀ e ∈ (s.chan j i).head?, e.1 ≠ tagNoData

end Net

/-! ## One agent -/

section Agent
variable {V α : Type} [Typed α] (c : PubSubConverter V α) (O : IdempotentOperation V) (G : Graph)
  (start : TagID → V)

/-- A neighbour in `tags_` has a value. -/
def HasValue (a : Agent V α (IdempotentProcessor V)) : Prop := ∃ t ∈ a.tags, (a.neighborValues.lookup t).isSome

/-- Something to process has been found. -/
def Ready (a : Agent V α (IdempotentProcessor V)) : Prop :=
  match a.pc with
  | .countUpdates k n => n ≠ 0 → Pending (· < k) a
  | .readUpdates k => HasValue a ∨ Pending (k ≤ ·) a
  | .processUpdates => HasValue a
  | .isReady _ => False
  | _ => True

/-- What the agent holds and has published. -/
structure Node (i : TagID) (a : Agent V α (IdempotentProcessor V)) : Prop where
  producedTag : a.producedTag = i
  tags : a.tags = G.nbrs i
  version : (a.job.lastPublishedVersion.lookup i).getD tagNoData = versionAt a.published.length
  gathers : O.Gathers start G.Edge i a.policies.currValue
  inBounds : a.policies.pastEnd = false
  published : ∀ k < a.published.length, ∃ v, Published c a.published k v ∧ O.Gathers start G.Edge i v
  current : a.pc ≠ .publish → a.publishValues = a.policies.currValue
  ready : Ready a

/-- The link from `j` to `a`: `d` publications were delivered, the `f`-th was
read last, and what was read has been combined by the next publication. -/
structure Edge (a : Agent V α (IdempotentProcessor V)) (j : TagID) (pubs link : List (VersionID × α))
    (d f : Nat) : Prop where
  link : link = pubs.drop d
  delivered : d ≤ pubs.length
  bound : d < 2 ^ 32
  fetched : f ≤ d
  info : ∃ cid b v, a.job.bufs.lookup j = some ⟨some b, c.expectedTypes, cid, .noError⟩ ∧
    b.Tracks d f v ∧ (d ≠ 0 → ∃ w, Published c pubs (d - 1) w ∧ v = some (c.convert w))
  unread : f = 0 → a.neighborValues.lookup j = none
  value : f ≠ 0 → ∃ w, Published c pubs (f - 1) w ∧ a.neighborValues.lookup j = some w ∧
    (Reading a ∨ O.le w a.policies.currValue)

structure At (i : TagID) (a : Agent V α (IdempotentProcessor V)) (pubs link : TagID → List (VersionID × α)) :
    Prop extends Node c O G start i a where
  edges : ∀ j ∈ G.nbrs i, ∃ d f, Edge c O a j (pubs j) (link j) d f

variable {c O G start} {i : TagID} {a : Agent V α (IdempotentProcessor V)}
  {pubs link : TagID → List (VersionID × α)}

theorem Edge.active {j : TagID} {ps l : List (VersionID × α)} {d f : Nat} (h : Edge c O a j ps l d f) :
    a.job.tagHasActivePublisher j = true := by
  obtain ⟨cid, b, v, hi, _⟩ := h.info
  simp [Job.tagHasActivePublisher, hi]

theorem Edge.hasData {j : TagID} {ps l : List (VersionID × α)} {d f : Nat} (h : Edge c O a j ps l d f)
    {has : Bool} (hh : a.job.hasData j = some has) : has = true ↔ f < d := by
  obtain ⟨cid, b, v, hi, ht, _⟩ := h.info
  rw [Job.hasData_eq hi rfl, Option.some.injEq] at hh
  rw [← hh]
  exact ht.hasData_iff h.fetched h.bound

/-- More publications on the link. -/
theorem Edge.publish {j : TagID} {ps l : List (VersionID × α)} {d f : Nat} (h : Edge c O a j ps l d f)
    (xs : List (VersionID × α)) : Edge c O a j (ps ++ xs) (l ++ xs) d f where
  link := by rw [h.link, List.drop_append_of_le_length h.delivered]
  delivered := by have := h.delivered; rw [List.length_append]; omega
  bound := h.bound
  fetched := h.fetched
  info := by
    obtain ⟨cid, b, v, hi, ht, hv⟩ := h.info
    refine ⟨cid, b, v, hi, ht, fun h0 => ?_⟩
    obtain ⟨w, hw, he⟩ := hv h0
    exact ⟨w, hw.append c xs, he⟩
  unread := h.unread
  value h0 := by
    obtain ⟨w, hw, hl, hle⟩ := h.value h0
    exact ⟨w, hw.append c xs, hl, hle⟩

/-- A step of the loop that neither reads nor publishes: it may leave the
update only by processing it. -/
theorem Edge.become {j : TagID} {ps l : List (VersionID × α)} {d f : Nat} (h : Edge c O a j ps l d f)
    {b : Agent V α (IdempotentProcessor V)} (hinfo : b.job.bufs.lookup j = a.job.bufs.lookup j)
    (hval : b.neighborValues.lookup j = a.neighborValues.lookup j)
    (hle : ∀ w, a.neighborValues.lookup j = some w → Reading a ∨ O.le w a.policies.currValue →
      Reading b ∨ O.le w b.policies.currValue) :
    Edge c O b j ps l d f where
  link := h.link
  delivered := h.delivered
  bound := h.bound
  fetched := h.fetched
  info := by rw [hinfo]; exact h.info
  unread := by rw [hval]; exact h.unread
  value h0 := by
    obtain ⟨w, hw, hl, hc⟩ := h.value h0
    exact ⟨w, hw, by rw [hval]; exact hl, hle w hl hc⟩

/-- The version past the `d`-th, if it is not that of an empty buffer. -/
theorem succ_lt_of_versionAt_ne {d : Nat} (hd : d < 2 ^ 32) (h : versionAt (d + 1) ≠ tagNoData) : d + 1 < 2 ^ 32 := by
  by_contra hn
  have he : d = 2 ^ 32 - 1 := by omega
  refine h (eq_noData_iff.mpr ?_)
  rw [versionAt_succ_toNat, he]
  decide

/-- The next publication on the link has come. -/
theorem Edge.deliver {j : TagID} {ps l l' : List (VersionID × α)} {d f : Nat} (h : Edge c O a j ps l d f)
    {b : Agent V α (IdempotentProcessor V)} {v : V} (hv : Published c ps d v)
    (hl : l' = ps.drop (d + 1)) (hne : versionAt (d + 1) ≠ tagNoData)
    (hinfo : ∀ cid buf, a.job.bufs.lookup j = some ⟨some buf, c.expectedTypes, cid, .noError⟩ →
      b.job.bufs.lookup j =
        some ⟨some (buf.add (c.convert v) (versionAt (d + 1))), c.expectedTypes, cid, .noError⟩)
    (hval : b.neighborValues.lookup j = a.neighborValues.lookup j) (hpol : b.policies = a.policies)
    (hpc : b.pc = a.pc ∨ ¬ Reading a) :
    Edge c O b j ps l' (d + 1) f where
  link := hl
  delivered := hv.lt
  bound := succ_lt_of_versionAt_ne h.bound hne
  fetched := by have := h.fetched; omega
  info := by
    obtain ⟨cid, buf, w, hi, ht, -⟩ := h.info
    exact ⟨cid, _, _, hinfo cid buf hi, ht.add (succ_lt_of_versionAt_ne h.bound hne) _, fun _ => ⟨v, hv, rfl⟩⟩
  unread := by rw [hval]; exact h.unread
  value h0 := by
    obtain ⟨w, hw, hlk, hc⟩ := h.value h0
    refine ⟨w, hw, by rw [hval]; exact hlk, ?_⟩
    rw [hpol]
    rcases hpc with hpc | hr
    · unfold Reading at hc ⊢
      rw [hpc]
      exact hc
    · exact .inr (hc.resolve_left hr)

/-- Everything that `tags_` remembers stems from agents with a path here. -/
theorem At.remembered (h : At c O G start i a pubs link)
    (hpubs : ∀ j ∈ G.nbrs i, ∀ k v, Published c (pubs j) k v → O.Gathers start G.Edge j v) {w : V}
    (hw : w ∈ a.tags.filterMap a.neighborValues.lookup) : ∃ j, G.Edge j i ∧ O.Gathers start G.Edge j w := by
  obtain ⟨j, hj, hl⟩ := List.mem_filterMap.mp hw
  rw [h.tags] at hj
  obtain ⟨d, f, he⟩ := h.edges j hj
  have hf : f ≠ 0 := by
    intro h0
    rw [he.unread h0] at hl
    cases hl
  obtain ⟨w', hp, hl', -⟩ := he.value hf
  cases hl.symm.trans hl'
  exact ⟨j, hj, hpubs j hj _ _ hp⟩

omit [Typed α] in
/-- An update combines the agent's value with all that is remembered. -/
theorem processUpdate_eq {a : Agent V α (IdempotentProcessor V)} (h : HasValue a) :
    IdempotentProcessor.processUpdate O.op (neighborDataHandler a) a.policies =
      { a.policies with
        currValue := (a.tags.filterMap a.neighborValues.lookup).foldl O.op a.policies.currValue } := by
  obtain ⟨t, ht, hsome⟩ := h
  obtain ⟨v, hv⟩ := Option.isSome_iff_exists.mp hsome
  unfold IdempotentProcessor.processUpdate fAccumulate neighborDataHandler
  cases hvals : a.tags.filterMap a.neighborValues.lookup with
  | nil =>
    have : v ∈ a.tags.filterMap a.neighborValues.lookup := List.mem_filterMap.mpr ⟨t, ht, hv⟩
    rw [hvals] at this
    cases this
  | cons w ws => simp only [id, IdempotentOperation.op_foldl, List.foldl_cons]

theorem At.control (h : At c O G start i a pubs link) (pc : Pc) (updatedTags : List Nat) (shouldIterate : Bool)
    (lastStop : Option Bool) (hpub : a.pc ≠ .publish) (hread : Reading a →
      Reading { a with pc := pc, updatedTags := updatedTags, shouldIterate := shouldIterate, lastStop := lastStop })
    (hready : Ready
      { a with pc := pc, updatedTags := updatedTags, shouldIterate := shouldIterate, lastStop := lastStop }) :
    At c O G start i
      { a with pc := pc, updatedTags := updatedTags, shouldIterate := shouldIterate, lastStop := lastStop }
      pubs link where
  producedTag := h.producedTag
  tags := h.tags
  version := h.version
  gathers := h.gathers
  inBounds := h.inBounds
  published := h.published
  current _ := h.current hpub
  ready := hready
  edges j hj := by
    obtain ⟨d, f, he⟩ := h.edges j hj
    exact ⟨d, f, he.become rfl rfl fun w _ hw => hw.imp hread id⟩

/-- A value is read. -/
theorem At.read (h : At c O G start i a pubs link) {k : Nat} {tag : TagID} {w : Job.Waiter} {value : α} {job : Job α}
    (hp : a.pc = .readUpdates k) (ht : a.tags[k]? = some tag) (hd : a.job.hasData tag = some true)
    (hw : a.job.getWaiter tag = some w) (hv : a.job.getValue w = some (some value, job)) :
    At c O G start i { a with
      job := job
      neighborValues := a.neighborValues.insert tag (c.deconvert value)
      updatedTags := a.updatedTags ++ [k]
      pc := .readUpdates (k + 1) } pubs link := by
  have htag : tag ∈ G.nbrs i := h.tags ▸ List.mem_of_getElem? ht
  obtain ⟨d, f, he⟩ := h.edges tag htag
  obtain ⟨cid, buf, v, hi, htr, hval⟩ := he.info
  have hlt : f < d := (he.hasData hd).mp rfl
  obtain ⟨buf', hget, htr'⟩ := htr.get hlt he.bound
  obtain ⟨u, hu, rfl⟩ := hval (by omega)
  have hwtag : w.tag = tag := by
    simp only [Job.getWaiter, hi, Option.map_some, Option.some.injEq] at hw
    rw [← hw]
  have hjob : value = c.convert u ∧
      job = a.job.setInfo tag ⟨some buf', c.expectedTypes, cid, .noError⟩ := by
    have hhas : buf.hasData = true := (htr.hasData_iff he.fetched he.bound).mpr hlt
    rw [Job.getValue_eq (hwtag ▸ hi) rfl hhas hget, hwtag] at hv
    simp only [Option.some.injEq, Prod.mk.injEq] at hv
    exact ⟨hv.1.symm, hv.2.symm⟩
  obtain ⟨rfl, rfl⟩ := hjob
  refine ⟨⟨h.producedTag, h.tags, h.version, h.gathers, h.inBounds, h.published, ?_, ?_⟩, ?_⟩
  · exact fun _ => h.current (by simp [hp])
  · exact .inl ⟨tag, h.tags ▸ htag, by simp⟩
  · intro j hj
    by_cases hjt : j = tag
    · subst hjt
      refine ⟨d, d, he.link, he.delivered, he.bound, le_rfl, ?_, by omega, fun _ => ?_⟩
      · exact ⟨cid, buf', _, Job.setInfo_self _ _ _, htr', fun _ => ⟨u, hu, rfl⟩⟩
      · refine ⟨u, hu, ?_, .inl (.inl ⟨k + 1, rfl⟩)⟩
        rw [AList.lookup_insert, c.deconvert_convert]
    · obtain ⟨d', f', he'⟩ := h.edges j hj
      refine ⟨d', f', he'.become (Job.setInfo_of_ne _ _ hjt) (AList.lookup_insert_ne hjt) ?_⟩
      exact fun _ _ _ => .inl (.inl ⟨k + 1, rfl⟩)

/-- What has been read is processed. -/
theorem At.process (h : At c O G start i a pubs link)
    (hpubs : ∀ j ∈ G.nbrs i, ∀ k v, Published c (pubs j) k v → O.Gathers start G.Edge j v)
    (hp : a.pc = .processUpdates) :
    At c O G start i (processAllUpdates (method O.op) .asynchronous a) pubs link := by
  have hvalue : HasValue a := by
    have := h.ready
    simpa only [Ready, hp] using this
  have hpol : (processAllUpdates (method O.op) .asynchronous a).policies = { a.policies with
      currValue := (a.tags.filterMap a.neighborValues.lookup).foldl O.op a.policies.currValue } :=
    processUpdate_eq hvalue
  refine ⟨⟨h.producedTag, h.tags, h.version, ?_, ?_, h.published, ?_, trivial⟩, ?_⟩
  · rw [hpol]
    exact h.gathers.foldl fun w hw => h.remembered hpubs hw
  · rw [hpol]
    exact h.inBounds
  · exact fun hn => absurd rfl hn
  · intro j hj
    obtain ⟨d, f, he⟩ := h.edges j hj
    refine ⟨d, f, he.become rfl rfl fun w hw _ => .inr ?_⟩
    rw [hpol]
    exact IdempotentOperation.le_foldl (List.mem_filterMap.mpr ⟨j, h.tags ▸ hj, hw⟩)

/-- The agent's value is published, to the agent itself at once if it is
subscribed to its own tag. -/
theorem At.submit (h : At c O G start i a pubs link) (hself : pubs i = a.published) (hlink : link i = [])
    {pc₀ pc : Pc} (shouldIterate : Bool) (lastStop : Option Bool) {b : Agent V α (IdempotentProcessor V)}
    (hb : submitValues c { a with publishValues := a.policies.currValue, pc := pc₀ } a.policies.currValue = some b)
    (hpc : pc = .stopPolicy ∨ pc = .outerLoop) (hr : ¬ Reading a)
    (hcond : i ∈ G.nbrs i → nextVersion a ≠ tagNoData) :
    At c O G start i { b with shouldIterate := shouldIterate, lastStop := lastStop, pc := pc }
      (Function.update pubs i b.published) link := by
  obtain rfl := h.producedTag
  obtain ⟨job, version, hver, rfl, hjob, hlast⟩ := submitValues_eq c hb
  rw [h.version, versionAt_add_one] at hver
  have hnew : Published c (a.published ++ [(version, c.convert a.policies.currValue)]) a.published.length
      a.policies.currValue := by
    unfold Published
    rw [List.getElem?_append_right le_rfl, Nat.sub_self, hver]
    rfl
  refine ⟨⟨h.producedTag, h.tags, ?_, h.gathers, h.inBounds, ?_, fun _ => rfl, ?_⟩, ?_⟩
  · simp only [hlast, Option.getD_some, hver, List.length_append, List.length_cons, List.length_nil]
  · intro k hk
    simp only [List.length_append, List.length_cons, List.length_nil] at hk
    rcases Nat.lt_or_ge k a.published.length with hlt | hge
    · obtain ⟨v, hv, hg⟩ := h.published k hlt
      exact ⟨v, hv.append c _, hg⟩
    · obtain rfl : k = a.published.length := by omega
      exact ⟨_, hnew, h.gathers⟩
  · rcases hpc with rfl | rfl <;> trivial
  · intro j hj
    obtain ⟨d, f, he⟩ := h.edges j hj
    by_cases hji : j = a.producedTag
    · subst hji
      have hne : versionAt (a.published.length + 1) ≠ tagNoData := by
        have := hcond hj
        rwa [nextVersion, h.version, versionAt_add_one] at this
      -- nothing is under way on the agent's own link
      have hd : d = a.published.length := by
        have hle := he.delivered
        have hnil := he.link
        rw [hself] at hle hnil
        rw [hlink] at hnil
        have := List.drop_eq_nil_iff.mp hnil.symm
        omega
      rw [hself] at he
      have he' := he.publish [(version, c.convert a.policies.currValue)]
      subst hd
      refine ⟨a.published.length + 1, f, ?_⟩
      rw [Function.update_self]
      refine he'.deliver hnew ?_ hne ?_ rfl rfl (.inr hr)
      · rw [hlink]
        exact (List.drop_of_length_le (by simp)).symm
      · intro cid buf hi
        rw [← versionAt_add_one, ← h.version]
        exact submitValues_self c hb hi
    · rw [Function.update_of_ne hji]
      exact ⟨d, f, he.become (hjob j hji) rfl fun w _ hw => .inr (hw.resolve_left hr)⟩

/-- The next publication of a neighbour comes. -/
theorem At.data (h : At c O G start i a pubs link) {j : TagID} (hj : j ∈ G.nbrs i) {version : VersionID} {value : α}
    {rest : List (VersionID × α)} (hlink : link j = (version, value) :: rest) (hne : version ≠ tagNoData)
    (hpubs : ∀ k < (pubs j).length, ∃ v, Published c (pubs j) k v) {b : Agent V α (IdempotentProcessor V)}
    (hb : L4.Iterative.step c (method O.op) .asynchronous a (.data j value version) = some b) :
    At c O G start i b pubs (Function.update link j rest) := by
  obtain ⟨d, f, he⟩ := h.edges j hj
  have hhead : (pubs j)[d]? = some (version, value) := by
    have := congrArg List.head? (hlink.symm.trans he.link)
    simpa [List.head?_drop] using this.symm
  obtain ⟨v, hv⟩ := hpubs d (List.getElem?_eq_some_iff.mp hhead).1
  have hx := hhead.symm.trans hv
  simp only [Option.some.injEq, Prod.mk.injEq] at hx
  obtain ⟨rfl, rfl⟩ := hx
  obtain ⟨⟨ok, job⟩, hjob, rfl⟩ := Option.map_eq_some_iff.mp hb
  obtain ⟨hother, hcount⟩ := Job.processData_frame hjob
  have hready : Ready { a with job := job } := by
    have hkeep {p : Nat → Prop} (hp : Pending p a) : Pending p { a with job := job } :=
      hp.mono (fun _ h => h) rfl (L4.FreshUpdates.hasData_processData hjob hne)
    have hr := h.ready
    unfold Ready at hr ⊢
    cases hp : a.pc with
    | countUpdates k n =>
      simp only [hp] at hr ⊢
      exact fun hn => hkeep (hr hn)
    | readUpdates k =>
      simp only [hp] at hr ⊢
      exact hr.imp id hkeep
    | isReady ws =>
      simp only [hp] at hr
    | processUpdates =>
      simp only [hp] at hr ⊢
      exact hr
    | _ => trivial
  refine ⟨⟨h.producedTag, h.tags, ?_, h.gathers, h.inBounds, h.published, h.current, hready⟩, ?_⟩
  · rw [hcount]
    exact h.version
  · intro k hk
    by_cases hkj : k = j
    · subst hkj
      refine ⟨d + 1, f, he.deliver hv ?_ hne ?_ rfl rfl (.inl rfl)⟩
      · have := congrArg List.tail (hlink.symm.trans he.link)
        simpa [List.tail_drop] using this
      · intro cid buf hi
        rw [Job.processData_accept _ hi rfl (c.types_convert v).symm, Option.some.injEq, Prod.mk.injEq] at hjob
        rw [← hjob.2]
        exact Job.setInfo_self _ _ _
    · rw [Function.update_of_ne hkj]
      obtain ⟨d', f', he'⟩ := h.edges k hk
      exact ⟨d', f', he'.become (hother k hkj) rfl fun _ _ hw => hw⟩

/-- **One step of the loop.** -/
theorem At.tick (h : At c O G start i a pubs link) (hself : pubs i = a.published) (hlink : link i = [])
    (hpubs : ∀ j ∈ G.nbrs i, ∀ k v, Published c (pubs j) k v → O.Gathers start G.Edge j v)
    (hcond : a.pc = .publish → i ∈ G.nbrs i → nextVersion a ≠ tagNoData) {b : Agent V α (IdempotentProcessor V)}
    (hb : AsyncStep c (method O.op) a b) : At c O G start i b (Function.update pubs i b.published) link := by
  have hkeep (hp : b.published = a.published) (hat : At c O G start i b pubs link) :
      At c O G start i b (Function.update pubs i b.published) link := by
    rw [hp, ← hself, Function.update_eq_self]
    exact hat
  have hready := h.ready
  cases hb with
  | control pc ha hb hne hidle =>
    refine hkeep rfl (h.control pc _ _ _ ?_ ?_ ?_)
    · intro hp
      rw [hp] at ha
      cases ha
    · rintro (⟨k, hk⟩ | hk) <;> rw [hk] at ha <;> cases ha
    · cases pc <;> trivial
  | gather ha hidle =>
    refine hkeep rfl (h.control _ _ _ _ ?_ ?_ fun hn => absurd rfl hn)
    · intro hp
      rw [hp] at ha
      cases ha
    · rintro (⟨k, hk⟩ | hk) <;> rw [hk] at ha <;> cases ha
  | dead k n tag hp ht hact =>
    obtain ⟨d, f, he⟩ := h.edges tag (h.tags ▸ List.mem_of_getElem? ht)
    rw [he.active] at hact
    cases hact
  | count k n tag has hp ht hd =>
    simp only [Ready, hp] at hready
    refine hkeep rfl (h.control _ _ _ _ (by rw [hp]; exact nofun) ?_ ?_)
    · rintro (⟨k, hk⟩ | hk) <;> rw [hp] at hk <;> cases hk
    · intro hn
      cases has with
      | true => exact ⟨k, tag, Nat.lt_succ_self k, ht, hd⟩
      | false => exact (hready (by simpa using hn)).mono (fun _ hj => Nat.lt_succ_of_lt hj) rfl fun _ h => h
  | noUpdates k hp ht =>
    refine hkeep rfl (h.control _ _ _ _ (by rw [hp]; exact nofun) ?_ trivial)
    rintro (⟨k, hk⟩ | hk) <;> rw [hp] at hk <;> cases hk
  | counted k n hp hn ht =>
    simp only [Ready, hp] at hready
    refine hkeep rfl (h.control _ _ _ _ (by rw [hp]; exact nofun) ?_ ?_)
    · rintro (⟨k, hk⟩ | hk) <;> rw [hp] at hk <;> cases hk
    · exact .inr ((hready hn).mono (fun _ _ => Nat.zero_le _) rfl fun _ h => h)
  | pass k tag hp ht hd =>
    simp only [Ready, hp] at hready
    refine hkeep rfl (h.control _ _ _ _ (by rw [hp]; exact nofun) ?_ ?_)
    · exact fun _ => .inl ⟨k + 1, rfl⟩
    · refine hready.imp id ?_
      intro hex
      obtain ⟨m, t, hm, hmt, hmd⟩ := hex
      refine ⟨m, t, Nat.lt_of_le_of_ne hm ?_, hmt, hmd⟩
      rintro rfl
      rw [ht] at hmt
      cases hmt
      rw [hd] at hmd
      cases hmd
  | read k tag w value job hp ht hd hw hv => exact hkeep rfl (h.read hp ht hd hw hv)
  | allRead k hp ht =>
    simp only [Ready, hp] at hready
    refine hkeep rfl (h.control _ _ _ _ (by rw [hp]; exact nofun) ?_ ?_)
    · exact fun _ => .inr rfl
    · refine hready.resolve_right ?_
      intro hex
      obtain ⟨m, t, hm, hmt, -⟩ := hex
      have := List.getElem?_eq_none_iff.mp ht
      have := (List.getElem?_eq_some_iff.mp hmt).1
      omega
  | process hp => exact hkeep rfl (h.process hpubs hp)
  | publish b hp hb =>
    simp only [publishStep, method, if_true] at hb
    have hpc : b.pc = .stopPolicy := by
      obtain ⟨job, version, -, rfl, -⟩ := submitValues_eq c hb
      rfl
    have hread : ¬ Reading a := by
      rintro (⟨k, hk⟩ | hk) <;> rw [hp] at hk <;> cases hk
    have := h.submit hself hlink b.shouldIterate b.lastStop hb (.inl rfl) hread (hcond hp)
    rwa [← hpc] at this
  | isReady ws pc hp => simp only [Ready, hp] at hready

/-- A publication is of one value. -/
theorem published_unique {ps : List (VersionID × α)} {k : Nat} {v w : V} (hv : Published c ps k v)
    (hw : Published c ps k w) : v = w := by
  have he := hv.symm.trans hw
  simp only [Option.some.injEq, Prod.mk.injEq, true_and] at he
  rw [← c.deconvert_convert v, he, c.deconvert_convert]

theorem tick_published {b : Agent V α (IdempotentProcessor V)}
    (hb : AsyncStep c (method O.op) a b) : ∃ xs, b.published = a.published ++ xs := by
  cases hb with
  | publish b hp hb =>
    simp only [publishStep, method, if_true] at hb
    obtain ⟨job, version, -, rfl, -⟩ := submitValues_eq c hb
    exact ⟨_, rfl⟩
  | _ => exact ⟨[], (List.append_nil _).symm⟩

/-- Values do not move back. -/
theorem tick_le (h : Ready a) {b : Agent V α (IdempotentProcessor V)} (hb : AsyncStep c (method O.op) a b) :
    O.le a.policies.currValue b.policies.currValue := by
  cases hb with
  | process hp =>
    have hvalue : HasValue a := by simpa only [Ready, hp] using h
    have hpol : (processAllUpdates (method O.op) .asynchronous a).policies.currValue =
        (a.tags.filterMap a.neighborValues.lookup).foldl O.op a.policies.currValue :=
      congrArg IdempotentProcessor.currValue (processUpdate_eq hvalue)
    rw [hpol]
    exact IdempotentOperation.le_foldl_init _ _
  | publish b hp hb =>
    simp only [publishStep, method, if_true] at hb
    obtain ⟨job, version, -, rfl, -⟩ := submitValues_eq c hb
    exact IdempotentOperation.le_refl _
  | _ => exact IdempotentOperation.le_refl _

end Agent

/-! ## The network -/

section Run
variable {V α : Type} [Typed α] (c : PubSubConverter V α) (O : IdempotentOperation V) (G : Graph)
  (start : TagID → V)

def pubs (s : Net V α (IdempotentProcessor V)) (j : TagID) : List (VersionID × α) := (s.agent j).published

/-- An agent hears itself at once: nothing is on its way from it to itself. -/
structure Inv (s : Net V α (IdempotentProcessor V)) : Prop where
  agent : ∀ i ∈ G.agents, At c O G start i (s.agent i) (pubs s) fun j => s.chan j i
  loops : ∀ i, s.chan i i = []

variable {c O G start} {s t : Net V α (IdempotentProcessor V)}

theorem Inv.gathers (h : Inv c O G start s) {j : TagID} (hj : j ∈ G.agents) {k : Nat} {v : V}
    (hv : Published c (pubs s j) k v) : O.Gathers start G.Edge j v := by
  obtain ⟨w, hw, hg⟩ := (h.agent j hj).published k hv.lt
  rw [published_unique hv hw]
  exact hg

/-- Agent `i` takes a step of its own. -/
theorem inv_act {i : TagID} {b : Agent V α (IdempotentProcessor V)} (h : Inv c O G start s)
    (hb : At c O G start i b (Function.update (pubs s) i b.published) fun j => s.chan j i)
    (hpub : ∃ xs, b.published = (s.agent i).published ++ xs) : Inv c O G start (act G s i b) := by
  have hpubs : pubs (act G s i b) = Function.update (pubs s) i b.published := by
    funext j
    by_cases hj : j = i
    · subst hj
      simp [pubs, act]
    · simp [pubs, act, hj]
  refine ⟨fun k hk => ?_, fun k => ?_⟩
  · rw [hpubs]
    by_cases hki : k = i
    · subst hki
      have hchan : (fun j => (act G s k b).chan j k) = fun j => s.chan j k := by
        funext j
        simp [act]
      rw [hchan]
      simpa [act] using hb
    · have hagent : (act G s i b).agent k = s.agent k := Function.update_of_ne hki _ _
      rw [hagent]
      refine ⟨(h.agent k hk).toNode, fun j hj => ?_⟩
      obtain ⟨d, f, he⟩ := (h.agent k hk).edges j hj
      refine ⟨d, f, ?_⟩
      by_cases hji : j = i
      · subst hji
        obtain ⟨xs, hxs⟩ := hpub
        have hchan : (act G s j b).chan j k = s.chan j k ++ xs := by simp [act, hki, hj, hxs]
        rw [hchan, Function.update_self, hxs]
        exact he.publish xs
      · have hchan : (act G s i b).chan j k = s.chan j k := by simp [act, hji]
        rw [hchan, Function.update_of_ne hji]
        exact he
  · by_cases hki : k = i
    · subst hki
      simpa [act] using h.loops k
    · simpa [act, hki] using h.loops k

theorem inv_deliver {i j : TagID} (h : Inv c O G start s) (hi : i ∈ G.agents) (hj : j ∈ G.nbrs i)
    (hcond : ∀ e ∈ (s.chan j i).head?, e.1 ≠ tagNoData) (ht : deliver c O s j i = some t) :
    Inv c O G start t := by
  unfold deliver at ht
  split at ht
  · cases ht
  · rename_i version value rest hchan
    obtain ⟨b, hb, rfl⟩ := Option.map_eq_some_iff.mp ht
    have hne : version ≠ tagNoData := hcond (version, value) (by rw [hchan]; rfl)
    have hat := (h.agent i hi).data hj hchan hne
      (fun k hk => ((h.agent j (G.closed i hi j hj)).published k hk).imp fun _ hv => hv.1) hb
    have hpubs : pubs { s with
        agent := Function.update s.agent i b
        chan := fun x y => if x = j ∧ y = i then rest else s.chan x y } = pubs s := by
      funext k
      by_cases hk : k = i
      · subst hk
        obtain ⟨r, -, rfl⟩ := Option.map_eq_some_iff.mp hb
        simp [pubs]
      · simp [pubs, hk]
    refine ⟨fun k hk => ?_, fun k => ?_⟩
    · rw [hpubs]
      by_cases hki : k = i
      · subst hki
        convert hat using 1
        · exact Function.update_self _ _ _
        · funext x
          by_cases hx : x = j <;> simp [Function.update, hx]
      · convert h.agent k hk using 1
        · exact Function.update_of_ne hki _ _
        · funext x
          simp [hki]
    · show (if k = j ∧ k = i then rest else s.chan k k) = []
      split
      · rename_i he
        obtain ⟨rfl, rfl⟩ := he
        rw [h.loops k] at hchan
        cases hchan
      · exact h.loops k

/-- A step of an agent's own and what it does to its value. -/
theorem agent_step {i : TagID} {b : Agent V α (IdempotentProcessor V)} {l : L4.Iterative.Lbl α} (h : Inv c O G start s)
    (hi : i ∈ G.agents) (hl : l = .tick ∨ l = .run ∨ ∃ answer, l = .stop answer)
    (hrun : l = .run → i ∈ G.nbrs i → nextVersion (s.agent i) ≠ tagNoData)
    (htick : l = .tick → (s.agent i).pc = .publish → i ∈ G.nbrs i → nextVersion (s.agent i) ≠ tagNoData)
    (hb : L4.Iterative.step c (method O.op) .asynchronous (s.agent i) l = some b) :
    Inv c O G start (act G s i b) ∧ O.le (s.agent i).policies.currValue b.policies.currValue := by
  have hat := h.agent i hi
  have hpubs : ∀ j ∈ G.nbrs i, ∀ k v, Published c (pubs s j) k v → O.Gathers start G.Edge j v :=
    fun j hj k v hv => h.gathers (G.closed i hi j hj) hv
  rcases hl with rfl | rfl | ⟨answer, rfl⟩
  · have hstep := asyncStep_of_runStep c (method O.op) hb
    exact ⟨inv_act h (hat.tick rfl (h.loops i) hpubs (htick rfl) hstep) (tick_published hstep),
      tick_le hat.ready hstep⟩
  · simp only [L4.Iterative.step] at hb
    split at hb
    · rename_i hpc
      obtain ⟨y, hy, rfl⟩ := Option.map_eq_some_iff.mp hb
      have hcur : (s.agent i).publishValues = (s.agent i).policies.currValue :=
        hat.current (by rcases hpc with hpc | hpc <;> simp [hpc])
      have hsub : submitValues c
          { s.agent i with publishValues := (s.agent i).policies.currValue, pc := (s.agent i).pc }
          (s.agent i).policies.currValue = some y := by
        rw [← hcur]
        exact hy
      have hread : ¬ Reading (s.agent i) := by
        rintro (⟨k, hk⟩ | hk) <;> rcases hpc with hpc | hpc <;> rw [hpc] at hk <;> cases hk
      have hnew := hat.submit rfl (h.loops i) true none hsub (.inr rfl) hread (hrun rfl)
      obtain ⟨job, version, -, rfl, -⟩ := submitValues_eq c hy
      exact ⟨inv_act h hnew ⟨_, rfl⟩, IdempotentOperation.le_refl _⟩
    · cases hb
  · obtain ⟨ha, -, flag, pc, hbetween, -, rfl⟩ := evalStopPolicy_eq hb
    refine ⟨inv_act h ?_ ⟨[], (List.append_nil _).symm⟩, IdempotentOperation.le_refl _⟩
    have hkeep := hat.control pc (s.agent i).updatedTags flag (some answer) ?_ ?_ ?_
    · have hsame : Function.update (pubs s) i (s.agent i).published = pubs s := Function.update_eq_self i (pubs s)
      rw [hsame]
      exact hkeep
    · intro hp
      rw [hp] at ha
      cases ha
    · rintro (⟨k, hk⟩ | hk) <;> rw [hk] at ha <;> cases ha
    · cases pc <;> trivial

/-- A step keeps the invariant, and no value moves back. -/
theorem inv_step {l : Lbl} (h : Inv c O G start s) (ht : step c O G s l = some t) (hcond : Cond G s l) :
    Inv c O G start t ∧ ∀ i, O.le (s.agent i).policies.currValue (t.agent i).policies.currValue := by
  have hle {i : TagID} {b : Agent V α (IdempotentProcessor V)}
      (hb : O.le (s.agent i).policies.currValue b.policies.currValue) (k : TagID) :
      O.le (s.agent k).policies.currValue ((act G s i b).agent k).policies.currValue := by
    by_cases hk : k = i
    · subst hk
      simpa [act] using hb
    · have : (act G s i b).agent k = s.agent k := Function.update_of_ne hk _ _
      rw [this]
      exact IdempotentOperation.le_refl _
  cases l with
  | run i =>
    simp only [step] at ht
    split at ht
    · rename_i hi
      obtain ⟨b, hb, rfl⟩ := Option.map_eq_some_iff.mp ht
      obtain ⟨hinv, hval⟩ := agent_step h hi (.inr (.inl rfl)) (fun _ => hcond) nofun hb
      exact ⟨hinv, hle hval⟩
    · cases ht
  | tick i =>
    simp only [step] at ht
    split at ht
    · rename_i hi
      obtain ⟨b, hb, rfl⟩ := Option.map_eq_some_iff.mp ht
      obtain ⟨hinv, hval⟩ := agent_step h hi (.inl rfl) nofun (fun _ => hcond) hb
      exact ⟨hinv, hle hval⟩
    · cases ht
  | stop i answer =>
    simp only [step] at ht
    split at ht
    · rename_i hi
      obtain ⟨b, hb, rfl⟩ := Option.map_eq_some_iff.mp ht
      obtain ⟨hinv, hval⟩ := agent_step h hi (.inr (.inr ⟨answer, rfl⟩)) nofun nofun hb
      exact ⟨hinv, hle hval⟩
    · cases ht
  | deliver j i =>
    simp only [step] at ht
    split at ht
    · rename_i hij
      refine ⟨inv_deliver h hij.1 hij.2 hcond ht, fun k => ?_⟩
      unfold deliver at ht
      split at ht
      · cases ht
      · obtain ⟨b, hb, rfl⟩ := Option.map_eq_some_iff.mp ht
        obtain ⟨r, -, rfl⟩ := Option.map_eq_some_iff.mp hb
        by_cases hk : k = i
        · subst hk
          simpa using IdempotentOperation.le_refl _
        · simpa [hk] using IdempotentOperation.le_refl _
    · cases ht

theorem inv_init (h : init c O G start s) : Inv c O G start s := by
  refine ⟨fun i hi => ?_, fun i => h.2 i i⟩
  obtain ⟨job, ha, hlast, hinfo⟩ := h.1 i hi
  have htags : (G.nbrs i).filter job.tagHasActivePublisher = G.nbrs i := by
    rw [List.filter_eq_self]
    intro j hj
    obtain ⟨cid, hc⟩ := hinfo j hj
    simp [Job.tagHasActivePublisher, hc]
  rw [ha]
  refine ⟨⟨rfl, htags, ?_, ?_, rfl, ?_, fun _ => rfl, trivial⟩, fun j hj => ?_⟩
  · simp [create, hlast, versionAt_zero]
  · exact IdempotentOperation.Gathers.own
  · exact fun k hk => absurd hk (Nat.not_lt_zero k)
  · obtain ⟨cid, hc⟩ := hinfo j hj
    have hpubs : pubs s j = [] := by
      obtain ⟨job', hj', -⟩ := h.1 j (G.closed i hi j hj)
      rw [pubs, hj']
      rfl
    refine ⟨0, 0, ⟨?_, Nat.zero_le _, by omega, le_rfl, ?_, fun _ => rfl, fun h0 => absurd rfl h0⟩⟩
    · rw [hpubs, h.2 j i]
      rfl
    · exact ⟨cid, {}, none, hc, DiscardOldVersionTagBuffer.tracks_empty, fun h0 => absurd rfl h0⟩

variable (c O G start) in
theorem inv_inductive : ((lts c O G start).restrict (Cond G)).Inductive (Inv c O G start) where
  init _ hs := inv_init hs
  step _ _ _ h ht := (inv_step h ht.1 ht.2).1

/-- When all publications have been delivered and processed, every agent is
above what its neighbours have published last. -/
theorem Inv.delivered_le (h : Inv c O G start s) (hs : Delivered G s) (hu : UpToDate c G s) {i j : TagID}
    (hi : i ∈ G.agents) (hj : j ∈ G.nbrs i) : O.le (s.agent j).policies.currValue (s.agent i).policies.currValue := by
  obtain ⟨-, hread, hlinks⟩ := hs i hi
  obtain ⟨hchan, hdata⟩ := hlinks j hj
  have hja := G.closed i hi j hj
  obtain ⟨hbegun, -, -⟩ := hs j hja
  obtain ⟨version, hlast⟩ := hu j hja
  obtain ⟨d, f, he⟩ := (h.agent i hi).edges j hj
  have hlen : (pubs s j).length ≠ 0 := fun h0 => hbegun (List.length_eq_zero_iff.mp h0)
  -- all publications of `j` have been delivered, and the last one has been read
  have hd : d = (pubs s j).length := by
    have := List.drop_eq_nil_iff.mp (he.link.symm.trans hchan)
    have := he.delivered
    omega
  have hf : f = d := by
    have hnot : ¬ f < d := fun hlt => by
      have := (he.hasData hdata).mpr hlt
      cases this
    have := he.fetched
    omega
  obtain ⟨w, hw, -, hle⟩ := he.value (by omega)
  rw [hf, hd] at hw
  rw [List.getLast?_eq_getElem?] at hlast
  have heq := hlast.symm.trans hw
  simp only [Option.some.injEq, Prod.mk.injEq] at heq
  rw [← c.deconvert_convert (s.agent j).policies.currValue, heq.2, c.deconvert_convert]
  exact hle.resolve_left hread

variable (c O G start)

/-- **Idempotent gossip.** In every run whose steps meet the condition, each
agent's value is a fold over the starting values of itself and of agents with
a path to it, and its processor never runs past its tags; values never move
back; and when everything has been delivered and processed on a strongly
connected graph and nobody holds a value that it has not published, all hold
the fold over all starting values. -/
theorem gossip (s : Net V α (IdempotentProcessor V))
    (hs : ((lts c O G start).restrict (Cond G)).Reachable s) :
    (∀ i ∈ G.agents, O.Gathers start G.Edge i (s.agent i).policies.currValue ∧
      (s.agent i).policies.pastEnd = false) ∧
    (∀ ls t, ((lts c O G start).restrict (Cond G)).Run s ls t →
      ∀ i, O.le (s.agent i).policies.currValue (t.agent i).policies.currValue) ∧
    (G.StronglyConnected → Delivered G s → UpToDate c G s → ∀ i (hi : i ∈ G.agents),
      (s.agent i).policies.currValue = O.fold start G.agents ⟨i, hi⟩) := by
  have hinv := (inv_inductive c O G start).reachable s hs
  refine ⟨fun i hi => ⟨(hinv.agent i hi).gathers, (hinv.agent i hi).inBounds⟩, ?_, ?_⟩
  · intro ls t hrun i
    clear hs
    induction hrun with
    | nil => exact IdempotentOperation.le_refl _
    | cons hstep _ ih =>
      obtain ⟨hnext, hle⟩ := inv_step hinv hstep.1 hstep.2
      exact IdempotentOperation.le_trans (hle i) (ih hnext)
  · intro hconn hdel hup i hi
    exact IdempotentOperation.agree hconn (fun k hk => (hinv.agent k hk).gathers) G.closed
      (fun k hk j hj => hinv.delivered_le hdel hup hk hj) hi

end Run

/-! ## Three agents -/

/-- mirrors skywing/skywing_mid/idempotent_processor.hpp:55-63 -/
def selectionOp {V : Type} (selector : V → V → Prop) [DecidableRel selector] [IsStrictTotalOrder V selector] :
    IdempotentOperation V := .ofSelector selector

/-- `MaxProcessor`. -/
def maxOp : IdempotentOperation Nat := selectionOp (· > ·)

/-- "pb" is subscribed to "pa", "pc" to "pb" and "pa" to "pc". -/
def ring : Graph where
  agents := {['p', 'a'], ['p', 'b'], ['p', 'c']}
  nbrs i :=
    if i = ['p', 'a'] then [['p', 'c']] else if i = ['p', 'b'] then [['p', 'a']]
    else if i = ['p', 'c'] then [['p', 'b']] else []
  closed := by decide

def ringStart (i : TagID) : Nat := if i = ['p', 'a'] then 1 else 0

/-- A job that publishes `mine` and is subscribed to `theirs`. -/
def subscribed (mine : TagID) (theirs : List TagID) : Job Nat where
  bufs := theirs.foldl (fun bufs t => bufs.insert t ⟨some {}, [], 0, .noError⟩) ∅
  lastPublishedVersion := ∅
  tagsProduced := (∅ : AList fun _ : TagID => List UInt8).insert mine []

def ringNet : Net Nat Nat (IdempotentProcessor Nat) where
  agent i := create (method maxOp.op) (subscribed i (ring.nbrs i)) i (ring.nbrs i) ⟨ringStart i, false⟩
  chan _ _ := []

theorem ringNet_init : init plainConverter maxOp ring ringStart ringNet := by
  refine ⟨fun i hi => ⟨subscribed i (ring.nbrs i), rfl, rfl, fun j hj => ⟨0, ?_⟩⟩, fun _ _ => rfl⟩
  have hone : ∀ i ∈ ring.agents, ∀ j ∈ ring.nbrs i, ring.nbrs i = [j] := by decide
  rw [hone i hi j hj]
  exact AList.lookup_insert _

theorem ring_connected : ring.StronglyConnected := by
  have hab : ring.Edge ['p', 'a'] ['p', 'b'] := by simp [Graph.Edge, ring]
  have hbc : ring.Edge ['p', 'b'] ['p', 'c'] := by simp [Graph.Edge, ring]
  have hca : ring.Edge ['p', 'c'] ['p', 'a'] := by simp [Graph.Edge, ring]
  intro i hi j hj
  simp only [ring, Finset.mem_insert, Finset.mem_singleton] at hi hj
  rcases hi with rfl | rfl | rfl <;> rcases hj with rfl | rfl | rfl
  · exact .refl
  · exact .head hbc (.single hca)
  · exact .single hca
  · exact .single hab
  · exact .refl
  · exact .head hca (.single hab)
  · exact .head hab (.single hbc)
  · exact .single hbc
  · exact .refl

instance (s : Net Nat Nat (IdempotentProcessor Nat)) : ∀ l, Decidable (Cond ring s l)
  | .run i => inferInstanceAs (Decidable (i ∈ ring.nbrs i → nextVersion (s.agent i) ≠ tagNoData))
  | .tick i => inferInstanceAs
      (Decidable ((s.agent i).pc = .publish → i ∈ ring.nbrs i → nextVersion (s.agent i) ≠ tagNoData))
  | .stop _ _ => inferInstanceAs (Decidable True)
  | .deliver j i => inferInstanceAs (Decidable (∀ e ∈ (s.chan j i).head?, e.1 ≠ tagNoData))

theorem ring_delivered {s : Net Nat Nat (IdempotentProcessor Nat)}
    (h : ∀ i ∈ ring.agents, (s.agent i).published ≠ [] ∧
      ((s.agent i).pc = .publish ∨ (s.agent i).pc = .stopPolicy) ∧
      ∀ j ∈ ring.nbrs i, s.chan j i = [] ∧ (s.agent i).job.hasData j = some false) : Delivered ring s := by
  intro i hi
  obtain ⟨hpub, hpc, hlinks⟩ := h i hi
  refine ⟨hpub, ?_, hlinks⟩
  rintro (⟨k, hk⟩ | hk) <;> rcases hpc with hpc | hpc <;> rw [hpc] at hk <;> cases hk

/-- From `run` to the publication of the first update. -/
def firstUpdate (i : TagID) : List Lbl := List.replicate 7 (.tick i)

/-- Each processes the starting value of its neighbour, and nobody publishes
what came of it. -/
def firstRound : List Lbl :=
  [.run ['p', 'a'], .run ['p', 'b'], .run ['p', 'c'], .deliver ['p', 'a'] ['p', 'b'],
    .deliver ['p', 'b'] ['p', 'c'], .deliver ['p', 'c'] ['p', 'a']] ++
  firstUpdate ['p', 'a'] ++ firstUpdate ['p', 'b'] ++ firstUpdate ['p', 'c']

/-- All publications have been delivered and processed, and "pc" does not hold
the greatest value: "pb" has yet to publish it. -/
theorem not_agreed : ring.StronglyConnected ∧ ∃ s, (lts plainConverter maxOp ring ringStart).Reachable s ∧
    Delivered ring s ∧ (s.agent ['p', 'a']).policies.currValue = 1 ∧ (s.agent ['p', 'c']).policies.currValue = 0 := by
  refine ⟨ring_connected, ?_⟩
  have hx : LTS.exec (step plainConverter maxOp ring) ringNet firstRound = some _ := rfl
  exact ⟨_, LTS.reachable_of_exec ringNet_init hx, ring_delivered (by decide), rfl, rfl⟩

/-- The greatest value goes round the ring. -/
def fullRound : List Lbl :=
  [.run ['p', 'a'], .run ['p', 'b'], .run ['p', 'c'], .deliver ['p', 'a'] ['p', 'b']] ++ firstUpdate ['p', 'b'] ++
  [.tick ['p', 'b'], .deliver ['p', 'b'] ['p', 'c'], .deliver ['p', 'b'] ['p', 'c']] ++ firstUpdate ['p', 'c'] ++
  [.tick ['p', 'c'], .deliver ['p', 'c'] ['p', 'a'], .deliver ['p', 'c'] ['p', 'a']] ++ firstUpdate ['p', 'a']

/-- After a full round all hold the fold over all starting values. -/
theorem gossip_ring : ∃ s, Delivered ring s ∧ UpToDate plainConverter ring s ∧
    ∀ i (hi : i ∈ ring.agents), (s.agent i).policies.currValue = maxOp.fold ringStart ring.agents ⟨i, hi⟩ := by
  obtain ⟨s, hx, hdel, hup⟩ : ∃ s, LTS.exec (LTS.guarded (step plainConverter maxOp ring) (Cond ring)) ringNet
      fullRound = some s ∧ Delivered ring s ∧ UpToDate plainConverter ring s := by
    refine ⟨_, rfl, ring_delivered (by decide), ?_⟩
    intro i hi
    simp only [ring, Finset.mem_insert, Finset.mem_singleton] at hi
    rcases hi with rfl | rfl | rfl
    · exact ⟨_, rfl⟩
    · exact ⟨_, rfl⟩
    · exact ⟨_, rfl⟩
  exact ⟨s, hdel, hup, (gossip plainConverter maxOp ring ringStart s
    (LTS.restrict_reachable_of_exec ringNet_init hx)).2.2 ring_connected hdel hup⟩

end Skywing.L5.Gossip
