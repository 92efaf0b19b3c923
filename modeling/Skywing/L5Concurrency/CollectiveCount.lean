import Skywing.L4App.Parts
import Skywing.L5Concurrency.Gossip

/-!
# The minimum inside a collective count

`QUACCProcessor` (`skywing_mid/quacc_processor.hpp`) counts the agents of a
collective by a gossip minimum and a gossip mean, and `SumProcessor`
(`sum_processor.hpp`) has such a count for one of its two parts. The network is
that of idempotent gossip, for an arbitrary asynchronous method.

A view of a method is one of a whole network of agents that run it
(`View.net`): publications, links, deliveries and updates go along. So a
minimum that is a part of something else spreads as it would alone, whatever
the other parts compute and publish (`part_spreads`).

Results:
* `quacc_minimum`: under `AsynchronousIterative` with `AlwaysPublish`, where no
  neighbour dies and nothing is delivered with the version of an empty buffer
  (`Cond`), the minimum of a collective count is at every time the starting value
  of an agent with a path to this one, never moves up, and is the same for all
  when everything has been delivered and processed.
* `sum_minimum`: so it is where the count is a part of a sum.
-/
namespace Skywing.L5.CollectiveCount

open L2.TagBuffer L3 L4.Iterative L4.Parts
open L5.Lockstep (Net Lbl)
open L5.Gossip (Graph IdempotentProcessor)
open L5.Gossip.IdempotentProcessor (method)

/-! ## The network -/

section Net
variable {V α P : Type} [Typed α] (c : PubSubConverter V α) (M : Method V P) (G : Graph)

/-- Agent `i` has become `b`; what it has published in the step goes to its
other subscribers. -/
def act (s : Net V α P) (i : TagID) (b : Agent V α P) : Net V α P where
  agent := Function.update s.agent i b
  chan j k :=
    if j = i ∧ k ≠ i ∧ i ∈ G.nbrs k then s.chan j k ++ b.published.drop (s.agent i).published.length
    else s.chan j k

def deliver (s : Net V α P) (j i : TagID) : Option (Net V α P) :=
  match s.chan j i with
  | [] => none
  | (version, value) :: rest =>
    (L4.Iterative.step c M .asynchronous (s.agent i) (.data j value version)).map fun b =>
      { agent := Function.update s.agent i b
        chan := fun x y => if x = j ∧ y = i then rest else s.chan x y }

def step (s : Net V α P) : Lbl → Option (Net V α P)
  | .run i =>
    if i ∈ G.agents then (L4.Iterative.step c M .asynchronous (s.agent i) .run).map (act G s i) else none
  | .tick i =>
    if i ∈ G.agents then (L4.Iterative.step c M .asynchronous (s.agent i) .tick).map (act G s i) else none
  | .stop i answer =>
    if i ∈ G.agents then (L4.Iterative.step c M .asynchronous (s.agent i) (.stop answer)).map (act G s i) else none
  | .deliver j i => if i ∈ G.agents ∧ j ∈ G.nbrs i then deliver c M s j i else none

/-- A new agent with its starting state, whose subscriptions are finalized. -/
def Fresh (start : TagID → P) (i : TagID) (a : Agent V α P) : Prop :=
  ∃ job : Job α, a = create M job i (G.nbrs i) (start i) ∧ job.lastPublishedVersion.lookup i = none ∧
    ∀ j ∈ G.nbrs i, ∃ cid, job.bufs.lookup j = some ⟨some {}, c.expectedTypes, cid, .noError⟩

def init (start : TagID → P) (s : Net V α P) : Prop :=
  (∀ i ∈ G.agents, Fresh c M G start i (s.agent i)) ∧ ∀ j i, s.chan j i = []

def lts (start : TagID → P) : LTS (Net V α P) Lbl := LTS.ofFn (init c M G start) (step c M G)

/-- The version that the agent's next publication gets. -/
def nextVersion (a : Agent V α P) : VersionID := (a.job.lastPublishedVersion.lookup a.producedTag).getD tagNoData + 1

/-- The steps that deliver nothing with the version of an empty buffer, to
the agent itself or to another. -/
def Cond (s : Net V α P) : Lbl → Prop
  | .run i => i ∈ G.nbrs i → nextVersion (s.agent i) ≠ tagNoData
  | .tick i => (s.agent i).pc = .publish → i ∈ G.nbrs i → nextVersion (s.agent i) ≠ tagNoData
  | .stop _ _ => True
  | .deliver j i => ∀ e ∈ (s.chan j i).head?, e.1 ≠ tagNoData

/-- Between reading and processing. -/
def Reading (a : Agent V α P) : Prop := (∃ k, a.pc = .readUpdates k) ∨ a.pc = .processUpdates

/-- Everyone has begun, nothing is in flight, no buffer has anything unread,
and what was read has been processed. -/
def Delivered (s : Net V α P) : Prop :=
  ∀ i ∈ G.agents, (s.agent i).published ≠ [] ∧ ¬ Reading (s.agent i) ∧
    ∀ j ∈ G.nbrs i, s.chan j i = [] ∧ (s.agent i).job.hasData j = some false

end Net

/-- Idempotent gossip is this network. -/
theorem step_gossip {V α : Type} [Typed α] (c : PubSubConverter V α) (O : IdempotentOperation V) (G : Graph) :
    step c (method O.op) G = Gossip.step c O G := rfl

/-! ## Views of networks -/

section View
variable {V α P W β Q : Type} [Typed α] [Typed β] {c : PubSubConverter V α} {M : Method V P}
  {c' : PubSubConverter W β} {M' : Method W Q} (F : View c M c' M') (G : Graph)

def netView (s : Net V α P) : Net W β Q :=
  ⟨fun i => F.agent (s.agent i), fun j i => (s.chan j i).map (.map id F.message)⟩

theorem netView_act (s : Net V α P) (i : TagID) (b : Agent V α P) :
    netView F (act G s i b) = act G (netView F s) i (F.agent b) := by
  unfold netView act
  congr 1
  · funext k
    exact Function.apply_update (fun _ => F.agent) s.agent i b k
  · funext j k
    have hpub : (F.agent b).published.drop (F.agent (s.agent i)).published.length =
        (b.published.drop (s.agent i).published.length).map (.map id F.message) := by
      unfold View.agent
      simp only [List.length_map, List.map_drop]
    dsimp only
    rw [hpub]
    split
    · rw [List.map_append]
    · rfl

theorem netView_deliver (s : Net V α P) (j i : TagID) :
    (deliver c M s j i).map (netView F) = deliver c' M' (netView F s) j i := by
  unfold deliver
  have hchan : (netView F s).chan j i = (s.chan j i).map (.map id F.message) := rfl
  rw [hchan]
  cases s.chan j i with
  | nil => rfl
  | cons e rest =>
    obtain ⟨version, value⟩ := e
    have hstep : (L4.Iterative.step c M .asynchronous (s.agent i) (.data j value version)).map F.agent =
        L4.Iterative.step c' M' .asynchronous ((netView F s).agent i) (.data j (F.message value) version) :=
      F.agent_step .asynchronous (s.agent i) (.data j value version)
    simp only [List.map_cons, Prod.map_apply, id]
    rw [← hstep, Option.map_map, Option.map_map]
    congr 1
    funext b
    unfold netView
    simp only [Function.comp_apply]
    congr 1
    · funext k
      exact Function.apply_update (fun _ => F.agent) s.agent i b k
    · funext x y
      split <;> rfl

theorem netView_own (s : Net V α P) (i : TagID) (l : L4.Iterative.Lbl α) :
    ((L4.Iterative.step c M .asynchronous (s.agent i) l).map (act G s i)).map (netView F) =
      (L4.Iterative.step c' M' .asynchronous ((netView F s).agent i) (F.label l)).map (act G (netView F s) i) := by
  have hstep : (L4.Iterative.step c M .asynchronous (s.agent i) l).map F.agent =
      L4.Iterative.step c' M' .asynchronous ((netView F s).agent i) (F.label l) :=
    F.agent_step .asynchronous (s.agent i) l
  rw [← hstep, Option.map_map, Option.map_map]
  congr 1
  funext b
  exact netView_act F G s i b

/-- A step in the view is the view of the step. -/
theorem netView_step (s : Net V α P) (l : Lbl) : (step c M G s l).map (netView F) = step c' M' G (netView F s) l := by
  cases l with
  | run i =>
    simp only [step]
    split
    · exact netView_own F G s i .run
    · rfl
  | tick i =>
    simp only [step]
    split
    · exact netView_own F G s i .tick
    · rfl
  | stop i answer =>
    simp only [step]
    split
    · exact netView_own F G s i (.stop answer)
    · rfl
  | deliver j i =>
    simp only [step]
    split
    · exact netView_deliver F s j i
    · rfl

def netHom : LTS.Hom (step c M G) (step c' M' G) := ⟨netView F, id, netView_step F G⟩

theorem netView_cond {s : Net V α P} {l : Lbl} (h : Cond G s l) : Cond G (netView F s) l := by
  cases l with
  | run i => exact h
  | tick i => exact h
  | stop i answer => trivial
  | deliver j i =>
    intro e he
    obtain ⟨e', he', rfl⟩ : ∃ e', (s.chan j i).head? = some e' ∧ Prod.map id F.message e' = e := by
      simpa [netView, List.head?_map] using he
    exact h e' he'

theorem netView_delivered {s : Net V α P} (h : Delivered G s) : Delivered G (netView F s) := by
  intro i hi
  obtain ⟨hpub, hread, hlinks⟩ := h i hi
  refine ⟨?_, hread, fun j hj => ?_⟩
  · unfold netView View.agent
    simpa using hpub
  · obtain ⟨hchan, hdata⟩ := hlinks j hj
    refine ⟨by simp [netView, hchan], ?_⟩
    exact (Job.map_hasData F.message (s.agent i).job j).trans hdata

variable {F G}

theorem netView_fresh {start : TagID → P} {i : TagID} {a : Agent V α P} (hc : c'.expectedTypes = c.expectedTypes)
    (h : Fresh c M G start i a) : Fresh c' M' G (fun i => F.state (start i)) i (F.agent a) := by
  obtain ⟨job, rfl, hlast, hinfo⟩ := h
  refine ⟨job.map F.message, F.agent_create job i (G.nbrs i) (start i), hlast, fun j hj => ?_⟩
  obtain ⟨cid, hcid⟩ := hinfo j hj
  refine ⟨cid, ?_⟩
  rw [Job.map_lookup, hcid, hc]
  rfl

theorem netView_init {start : TagID → P} {s : Net V α P} (hc : c'.expectedTypes = c.expectedTypes)
    (h : init c M G start s) : init c' M' G (fun i => F.state (start i)) (netView F s) := by
  refine ⟨fun i hi => netView_fresh hc (h.1 i hi), fun j i => ?_⟩
  unfold netView
  dsimp only
  rw [h.2 j i, List.map_nil]

end View

/-! ## A gossip minimum as a part -/

section Spread
variable {V α P W β : Type} [Typed α] [Typed β] {c : PubSubConverter V α} {M : Method V P}
  {c' : PubSubConverter W β} {O : IdempotentOperation W} (F : View c M c' (method O.op)) (G : Graph)

/-- What every agent holds in this part is in what it has published last. -/
def UpToDate (s : Net V α P) : Prop :=
  ∀ i ∈ G.agents, ∃ version v, (s.agent i).published.getLast? = some (version, c.convert v) ∧
    F.value v = (F.state (s.agent i).policies).currValue

variable {F G}

theorem netView_upToDate {s : Net V α P} (h : UpToDate F G s) : Gossip.UpToDate c' G (netView F s) := by
  intro i hi
  obtain ⟨version, v, hlast, hv⟩ := h i hi
  refine ⟨version, ?_⟩
  show ((s.agent i).published.map (.map id F.message)).getLast? = some (version, c'.convert _)
  rw [List.getLast?_map, hlast, Option.map_some, Prod.map_apply, F.convert, hv]
  rfl

variable {start : TagID → P} {first : TagID → W} {s : Net V α P}

theorem netView_reachable (hc : c'.expectedTypes = c.expectedTypes) (hfirst : ∀ i, F.state (start i) = ⟨first i, false⟩)
    (hs : ((lts c M G start).restrict (Cond G)).Reachable s) :
    ((Gossip.lts c' O G first).restrict (Gossip.Cond G)).Reachable (netView F s) := by
  have hinit : ∀ s, init c M G start s → Gossip.init c' O G first (netView F s) := fun s h => by
    have hview := netView_init (F := F) hc h
    rw [show (fun i => F.state (start i)) = fun i => ⟨first i, false⟩ from funext hfirst] at hview
    exact hview
  exact (netHom F G).reachable hinit (fun _ l => netView_cond F G (l := l)) hs

/-- What spreads by idempotent gossip alone spreads so as a part of any
method. -/
theorem part_spreads (hc : c'.expectedTypes = c.expectedTypes) (hfirst : ∀ i, F.state (start i) = ⟨first i, false⟩)
    (hs : ((lts c M G start).restrict (Cond G)).Reachable s) :
    (∀ i ∈ G.agents, O.Gathers first G.Edge i (F.state (s.agent i).policies).currValue) ∧
    (∀ ls t, ((lts c M G start).restrict (Cond G)).Run s ls t →
      ∀ i, O.le (F.state (s.agent i).policies).currValue (F.state (t.agent i).policies).currValue) ∧
    (G.StronglyConnected → Delivered G s → UpToDate F G s → ∀ i (hi : i ∈ G.agents),
      (F.state (s.agent i).policies).currValue = O.fold first G.agents ⟨i, hi⟩) := by
  obtain ⟨hgather, hle, hagree⟩ := Gossip.gossip c' O G first (netView F s) (netView_reachable hc hfirst hs)
  refine ⟨fun i hi => (hgather i hi).1, fun ls t hrun => ?_, fun hconn hdel hup => ?_⟩
  · exact hle ls (netView F t) (List.map_id ls ▸ (netHom F G).run (fun _ l => netView_cond F G (l := l)) hrun)
  · exact hagree hconn (netView_delivered F G hdel) (netView_upToDate hup)

end Spread

/-! ## Collective counts -/

section Count
variable {V W Q : Type} [LinearOrder V]

def minOp (V : Type) [LinearOrder V] : IdempotentOperation V := .ofSelector fun a b => a < b

/-- mirrors skywing/skywing_mid/idempotent_processor.hpp:19-53,62-63 -/
def minProcessor (V : Type) [LinearOrder V] : Processor V (IdempotentProcessor V) where
  getInitPublishValues p := p.currValue
  processUpdate := IdempotentProcessor.processUpdate (minOp V).op
  prepareForPublication _ p := (p.currValue, p)

/-- mirrors skywing/skywing_mid/quacc_processor.hpp:109 -/
def getMin (p : IdempotentProcessor V × Q) : V := p.1.currValue

theorem gathers_min {G : Graph} {start : TagID → V} {i : TagID} {v : V} (h : (minOp V).Gathers start G.Edge i v) :
    v ≤ start i ∧ ∃ j, Relation.ReflTransGen G.Edge j i ∧ v = start j := by
  obtain ⟨S, hi, hpath, hv⟩ := h
  have hmin : v = S.inf' ⟨i, hi⟩ start := hv.trans (IdempotentOperation.fold_ofSelector_lt start _)
  obtain ⟨j, hj, he⟩ := Finset.exists_mem_eq_inf' ⟨i, hi⟩ start
  rw [hmin]
  exact ⟨Finset.inf'_le start hi, j, hpath j hj, he⟩

variable {α : Type} [Typed α]

/-- **The minimum of a collective count.** Under `AsynchronousIterative` with
`AlwaysPublish` and without deaths, whatever mean is computed beside it: in every
run that delivers nothing with the version of an empty buffer each agent's
minimum is at most the number it has drawn and was drawn by an agent with a path
to it; it never grows; and when everything has been delivered and processed on a
strongly connected graph, and nobody holds a minimum that it has not published,
it is the least number drawn. -/
theorem quacc_minimum (c : PubSubConverter (V × W) α) (mean : Processor W Q) (G : Graph) (drawn : TagID → V)
    (q : TagID → Q) (s : Net (V × W) α (IdempotentProcessor V × Q))
    (hs : ((lts c (quaccProcessor (minProcessor V) mean).method G fun i => (⟨drawn i, false⟩, q i)).restrict
      (Cond G)).Reachable s) :
    (∀ i ∈ G.agents, getMin (s.agent i).policies ≤ drawn i ∧
      ∃ j, Relation.ReflTransGen G.Edge j i ∧ getMin (s.agent i).policies = drawn j) ∧
    (∀ ls t, ((lts c (quaccProcessor (minProcessor V) mean).method G fun i => (⟨drawn i, false⟩, q i)).restrict
      (Cond G)).Run s ls t → ∀ i, getMin (t.agent i).policies ≤ getMin (s.agent i).policies) ∧
    (G.StronglyConnected → Delivered G s → UpToDate (O := minOp V) (firstPart c (minProcessor V) mean) G s →
      ∀ i (hi : i ∈ G.agents), getMin (s.agent i).policies = G.agents.inf' ⟨i, hi⟩ drawn) := by
  obtain ⟨hgather, hle, hagree⟩ := part_spreads (O := minOp V) (F := firstPart c (minProcessor V) mean) rfl
    (fun _ => rfl) hs
  refine ⟨fun i hi => gathers_min (hgather i hi), fun ls t hrun i => ?_, fun hconn hdel hup i hi => ?_⟩
  · exact IdempotentOperation.ofSelector_lt_le.mp (hle ls t hrun i)
  · exact (hagree hconn hdel hup i hi).trans (IdempotentOperation.fold_ofSelector_lt drawn _)

/-- The count of a sum spreads its minimum as a count alone does. -/
theorem sum_minimum {X R : Type} (c : PubSubConverter (X × V × W) α) (mean : Processor X R)
    (countMean : Processor W Q) (G : Graph) (r : TagID → R) (drawn : TagID → V) (q : TagID → Q)
    (s : Net (X × V × W) α (R × IdempotentProcessor V × Q))
    (hs : ((lts c (sumProcessor mean (quaccProcessor (minProcessor V) countMean)).method G
      fun i => (r i, ⟨drawn i, false⟩, q i)).restrict (Cond G)).Reachable s) :
    let count := secondPart c mean (quaccProcessor (minProcessor V) countMean)
    let F := (firstPart (componentConverter (V × W) c.expectedTypes) (minProcessor V) countMean).comp count
    (∀ i ∈ G.agents, getMin (s.agent i).policies.2 ≤ drawn i ∧
      ∃ j, Relation.ReflTransGen G.Edge j i ∧ getMin (s.agent i).policies.2 = drawn j) ∧
    (G.StronglyConnected → Delivered G s → UpToDate (O := minOp V) F G s →
      ∀ i (hi : i ∈ G.agents), getMin (s.agent i).policies.2 = G.agents.inf' ⟨i, hi⟩ drawn) := by
  intro count F
  obtain ⟨hgather, -, hagree⟩ := part_spreads (O := minOp V) (F := F) rfl (fun _ => rfl) hs
  refine ⟨fun i hi => gathers_min (hgather i hi), fun hconn hdel hup i hi => ?_⟩
  exact (hagree hconn hdel hup i hi).trans (IdempotentOperation.fold_ofSelector_lt drawn _)

end Count

/-! ## Three agents -/

instance {V α P : Type} [Typed α] (G : Graph) (s : Net V α P) : ∀ l, Decidable (Cond G s l)
  | .run i => inferInstanceAs (Decidable (i ∈ G.nbrs i → nextVersion (s.agent i) ≠ tagNoData))
  | .tick i => inferInstanceAs
      (Decidable ((s.agent i).pc = .publish → i ∈ G.nbrs i → nextVersion (s.agent i) ≠ tagNoData))
  | .stop _ _ => inferInstanceAs (Decidable True)
  | .deliver j i => inferInstanceAs (Decidable (∀ e ∈ (s.chan j i).head?, e.1 ≠ tagNoData))

/-- Beside the minimum nothing is computed. -/
def noMean : Processor Unit Unit := ⟨fun _ => (), fun _ _ => (), fun _ _ => ((), ())⟩

def countConverter : PubSubConverter (Nat × Unit) Nat := ⟨Prod.fst, (·, ()), [], fun _ => rfl, fun _ => rfl⟩

/-- "pa" has drawn the least number. -/
def ringDrawn (i : TagID) : Nat := if i = ['p', 'a'] then 1 else 2

def countRing : Net (Nat × Unit) Nat (IdempotentProcessor Nat × Unit) where
  agent i := create (quaccProcessor (minProcessor Nat) noMean).method (Gossip.subscribed i (Gossip.ring.nbrs i)) i
    (Gossip.ring.nbrs i) (⟨ringDrawn i, false⟩, ())
  chan _ _ := []

theorem countRing_init : init countConverter (quaccProcessor (minProcessor Nat) noMean).method Gossip.ring
    (fun i => (⟨ringDrawn i, false⟩, ())) countRing := by
  refine ⟨fun i hi => ⟨Gossip.subscribed i (Gossip.ring.nbrs i), rfl, rfl, fun j hj => ⟨0, ?_⟩⟩, fun _ _ => rfl⟩
  have hone : ∀ i ∈ Gossip.ring.agents, ∀ j ∈ Gossip.ring.nbrs i, Gossip.ring.nbrs i = [j] := by decide
  rw [hone i hi j hj]
  exact AList.lookup_insert _

/-- After a full round all have the least number drawn. -/
theorem quacc_minimum_ring : ∃ s : Net (Nat × Unit) Nat (IdempotentProcessor Nat × Unit), Delivered Gossip.ring s ∧
    ∀ i ∈ Gossip.ring.agents, getMin (s.agent i).policies = 1 := by
  obtain ⟨s, hx, hdel, hup, hmin⟩ : ∃ s,
      LTS.exec (LTS.guarded (step countConverter (quaccProcessor (minProcessor Nat) noMean).method Gossip.ring)
        (Cond Gossip.ring)) countRing Gossip.fullRound = some s ∧
      (∀ i ∈ Gossip.ring.agents, (s.agent i).published ≠ [] ∧
        ((s.agent i).pc = .publish ∨ (s.agent i).pc = .stopPolicy) ∧
        ∀ j ∈ Gossip.ring.nbrs i, s.chan j i = [] ∧ (s.agent i).job.hasData j = some false) ∧
      UpToDate (O := minOp Nat) (firstPart countConverter (minProcessor Nat) noMean) Gossip.ring s ∧
      Gossip.ring.agents.inf' ⟨['p', 'a'], by decide⟩ ringDrawn = 1 := by
    refine ⟨_, rfl, by decide, ?_, by decide⟩
    intro i hi
    simp only [Gossip.ring, Finset.mem_insert, Finset.mem_singleton] at hi
    rcases hi with rfl | rfl | rfl
    · exact ⟨_, (1, ()), rfl, rfl⟩
    · exact ⟨_, (1, ()), rfl, rfl⟩
    · exact ⟨_, (1, ()), rfl, rfl⟩
  have hdelivered : Delivered Gossip.ring s := fun i hi => by
    obtain ⟨hpub, hpc, hlinks⟩ := hdel i hi
    refine ⟨hpub, ?_, hlinks⟩
    rintro (⟨k, hk⟩ | hk) <;> rcases hpc with hpc | hpc <;> rw [hpc] at hk <;> cases hk
  refine ⟨s, hdelivered, fun i hi => ?_⟩
  rw [(quacc_minimum countConverter noMean Gossip.ring ringDrawn (fun _ => ()) s
    (LTS.restrict_reachable_of_exec countRing_init hx)).2.2 Gossip.ring_connected hdelivered hup i hi]
  exact hmin

end Skywing.L5.CollectiveCount
