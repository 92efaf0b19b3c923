import Skywing.L4App.JacobiGenerations
import Skywing.L5Concurrency.UpdateOrder

/-!
# Asynchronous Jacobi on a network

`examples/async_jacobi`: agents that run `JacobiProcessor`
(`skywing_mid/jacobi_processor.hpp`) under `AsynchronousIterative::run`, on the
network of `CollectiveCount`, with links, buffers and a publish policy. `Jacobi`
has the same agents without any of that: an update there finds any publications
whatever.

`Cond`: nothing is delivered with the version of an empty buffer.

* `network_refines`: each run of the network that meets `Cond`, whatever the
  publish policy, is a run of `Jacobi`, agent by agent and publication by
  publication. So the errors are bounded here as they are there.
* `published_within`: in such a run, under `PublishOnLinfShift` with a threshold
  that is not negative, what an agent has published last is within the threshold
  of what it would publish now, from its first update on and outside of updates;
  the policy never reads past the end of the older vector.
-/
namespace Skywing.L5.JacobiNetwork

open L2.TagBuffer L3 L4.Iterative L4.Jacobi
open L5.Lockstep (Net Published)
open L5.Gossip (Graph)
open L5.CollectiveCount (act deliver lts Cond Reading)
open L5.UpdateOrder (Knows At Inv)
open L4.Jacobi.JacobiProcessor (getInitPublishValues processUpdate prepareForPublication)

/-! ## The method -/

/-- `get_data_unsafe` of the updated tags. It throws for a tag without a value,
of which there is none (`updatedValues_length`).
mirrors skywing/skywing_mid/jacobi_processor.hpp:75-77,
neighbor_data_handler.hpp:172-175 -/
def updatedValues (h : NeighborDataHandler (List ℚ)) : List (List ℚ) :=
  h.updatedTags.filterMap fun k => h.tags[k]?.bind h.neighborValues.lookup

/-- With an arbitrary publish policy.
mirrors skywing/skywing_mid/jacobi_processor.hpp:62-104,141-149 -/
def method {Q : Type} (publishPolicy : List ℚ → List ℚ → Q → Bool × Q) : Method (List ℚ) (JacobiProcessor × Q) where
  gatherInitialPublications p := p.1.getInitPublishValues
  processAllUpdates h p := (p.1.processUpdate (updatedValues h), p.2)
  gatherDataForPublication v p := (p.1.prepareForPublication v, p)
  publishPolicy newVals oldVals p := ((publishPolicy newVals oldVals p.2).1, p.1, (publishPolicy newVals oldVals p.2).2)
  handleDeadNeighbor _ _ _ p := p

/-- `none`: the iterator of the older vector is past its end.
mirrors skywing/skywing_mid/publish_policies.hpp:39-53 -/
def linfShift (linfThreshold : ℚ) : List ℚ → List ℚ → Option Bool
  | [], _ => some false
  | _ :: _, [] => none
  | x :: newVals, y :: oldVals => if linfThreshold < |x - y| then some true else linfShift linfThreshold newVals oldVals

def publishOnLinfShift (newVals oldVals : List ℚ) (linfThreshold : ℚ) : Bool × ℚ :=
  ((linfShift linfThreshold newVals oldVals).getD true, linfThreshold)

/-! ## One step -/

section Step
variable {α Q : Type} [Typed α] {c : PubSubConverter (List ℚ) α} {policy : List ℚ → List ℚ → Q → Bool × Q} {G : Graph}
  {i : TagID} {a b : Agent (List ℚ) α (JacobiProcessor × Q)} {pubs link : TagID → List (VersionID × α)}

/-- What is published, and what the policy makes of it. -/
def newVals (a : Agent (List ℚ) α (JacobiProcessor × Q)) : List ℚ := a.policies.1.prepareForPublication a.publishValues

theorem publishStep_eq : publishStep c (method policy) .asynchronous a =
    (if (policy (newVals a) a.publishValues a.policies.2).1 then
      submitValues c { a with
        policies := (a.policies.1, (policy (newVals a) a.publishValues a.policies.2).2)
        publishValues := newVals a
        pc := .stopPolicy } (newVals a)
    else some { a with
      policies := (a.policies.1, (policy (newVals a) a.publishValues a.policies.2).2)
      pc := .stopPolicy }) := rfl

/-- Neither the processor nor the publications have changed. -/
structure SameAgent (a b : Agent (List ℚ) α (JacobiProcessor × Q)) : Prop where
  proc : b.policies.1 = a.policies.1
  values : b.publishValues = a.publishValues
  published : b.published = a.published

/-- Everything a step of the loop does to them. -/
inductive TickCase (policy : List ℚ → List ℚ → Q → Bool × Q) (c : PubSubConverter (List ℚ) α)
    (a b : Agent (List ℚ) α (JacobiProcessor × Q)) : Prop
  | other : a.pc ≠ .publish → a.pc ≠ .idle → b.pc ≠ .idle → b.processed = a.processed → b.policies = a.policies →
      SameAgent a b → TickCase policy c a b
  | process : a.pc = .processUpdates → b = processAllUpdates (method policy) .asynchronous a → TickCase policy c a b
  | publish (version : VersionID) : a.pc = .publish → b.pc = .stopPolicy → b.processed = a.processed →
      b.policies = (a.policies.1, (policy (newVals a) a.publishValues a.policies.2).2) →
      b.publishValues = newVals a → b.published = a.published ++ [(version, c.convert (newVals a))] →
      TickCase policy c a b
  | skip : a.pc = .publish → b.pc = .stopPolicy → b.processed = a.processed →
      (policy (newVals a) a.publishValues a.policies.2).1 = false →
      b.policies = (a.policies.1, (policy (newVals a) a.publishValues a.policies.2).2) → SameAgent a b →
      TickCase policy c a b

/-- A step of `gather_values`. -/
theorem TickCase.of_gathering {pc : Pc} (hp : a.pc = pc) (hpc : pc ≠ .publish ∧ pc ≠ .idle ∧ b.pc ≠ .idle)
    (hprocessed : b.processed = a.processed) (hpol : b.policies = a.policies) (hsame : SameAgent a b) :
    TickCase policy c a b := by
  subst hp
  exact .other hpc.1 hpc.2.1 hpc.2.2 hprocessed hpol hsame

theorem tick_cases (h : At c G i a pubs link) (hb : AsyncStep c (method policy) a b) : TickCase policy c a b := by
  cases hb with
  | process hp => exact .process hp rfl
  | publish b hp hb =>
    rw [publishStep_eq] at hb
    split at hb
    · obtain ⟨job, version, -, rfl, -⟩ := submitValues_eq c hb
      exact .publish version hp rfl rfl rfl rfl rfl
    · rename_i hpol
      cases hb
      exact .skip hp rfl rfl (Bool.eq_false_iff.mpr hpol) rfl ⟨rfl, rfl, rfl⟩
  | dead k n tag hp ht hact =>
    obtain ⟨d, f, g, he, -⟩ := h.edges tag (h.tags ▸ List.mem_of_getElem? ht)
    rw [he.active] at hact
    cases hact
  | control pc ha hb hne hidle =>
    refine .other ?_ hidle hne rfl rfl ⟨rfl, rfl, rfl⟩
    intro hp
    rw [hp] at ha
    cases ha
  | gather ha hidle =>
    refine .other ?_ hidle (fun h => by cases h) rfl rfl ⟨rfl, rfl, rfl⟩
    intro hp
    rw [hp] at ha
    cases ha
  | isReady ws pc hp => exact absurd hp (h.noWaiters ws)
  | count k n tag has hp ht hd => exact .of_gathering hp (by simp) rfl rfl ⟨rfl, rfl, rfl⟩
  | noUpdates k hp ht => exact .of_gathering hp (by simp) rfl rfl ⟨rfl, rfl, rfl⟩
  | counted k n hp hn ht => exact .of_gathering hp (by simp) rfl rfl ⟨rfl, rfl, rfl⟩
  | pass k tag hp ht hd => exact .of_gathering hp (by simp) rfl rfl ⟨rfl, rfl, rfl⟩
  | read k tag w value job hp ht hd hw hv => exact .of_gathering hp (by simp) rfl rfl ⟨rfl, rfl, rfl⟩
  | allRead k hp ht => exact .of_gathering hp (by simp) rfl rfl ⟨rfl, rfl, rfl⟩

theorem exists_fetch {ι : Type*} {pubs : ι → List (List ℚ)} : ∀ {vs : List (List ℚ)},
    (∀ v ∈ vs, ∃ (j : ι) (k : ℕ), (pubs j)[k]? = some v) → ∃ fresh, fetch pubs fresh = some vs := by
  intro vs
  induction vs with
  | nil => exact fun _ => ⟨[], rfl⟩
  | cons v vs ih =>
    intro h
    obtain ⟨⟨j, k, hv⟩, hvs⟩ := List.forall_mem_cons.mp h
    obtain ⟨fresh, hfresh⟩ := ih hvs
    exact ⟨(j, k) :: fresh, by rw [fetch, hv, hfresh]⟩

/-- The values of the updated tags are publications. -/
theorem updatedValues_published (h : At c G i a pubs link) {v : List ℚ}
    (hv : v ∈ updatedValues (neighborDataHandler a)) :
    ∃ j ∈ G.nbrs i, ∃ (k : ℕ) (version : VersionID), (pubs j)[k]? = some (version, c.convert v) := by
  obtain ⟨k, -, hk⟩ := List.mem_filterMap.mp hv
  obtain ⟨j, hj, hl⟩ := Option.bind_eq_some_iff.mp hk
  have hj' : j ∈ G.nbrs i := h.tags ▸ List.mem_of_getElem? hj
  obtain ⟨d, f, g, he, -⟩ := h.edges j hj'
  by_cases hf : f = 0
  · rw [he.knows.unread hf] at hl
    cases hl
  · obtain ⟨w, hw, hlw⟩ := he.knows.value hf
    cases hlw.symm.trans hl
    exact ⟨j, hj', _, _, hw⟩

/-- No updated tag is without a value. -/
theorem updatedValues_length (h : At c G i a pubs link) (hr : Reading a) :
    (updatedValues (neighborDataHandler a)).length = a.updatedTags.length := by
  have hall : ∀ k ∈ a.updatedTags, ∃ v, a.tags[k]?.bind a.neighborValues.lookup = some v := by
    intro k hk
    obtain ⟨j, hj⟩ : ∃ j, a.tags[k]? = some j := ⟨_, List.getElem?_eq_getElem (h.updatedTags hr k hk)⟩
    obtain ⟨d, f, g, he, hg⟩ := h.edges j (h.tags ▸ List.mem_of_getElem? hj)
    have hlt := (hg.reading hr).2.mp ⟨k, hk, hj⟩
    obtain ⟨v, -, hv⟩ := he.knows.value (by omega)
    exact ⟨v, by rw [hj]; exact hv⟩
  unfold updatedValues
  rw [List.length_filterMap_eq_countP]
  refine List.countP_eq_length.mpr fun k hk => ?_
  obtain ⟨v, hv⟩ := hall k hk
  exact Option.isSome_iff_exists.mpr ⟨v, hv⟩

end Step

/-! ## Runs -/

section Run
variable {α Q : Type} [Typed α] (c : PubSubConverter (List ℚ) α) (policy : List ℚ → List ℚ → Q → Bool × Q) (G : Graph)

/-- Agent by agent, and publication by publication. -/
structure Refines (s : Net (List ℚ) α (JacobiProcessor × Q)) (net : L4.Jacobi.Net {i // i ∈ G.agents}) : Prop where
  proc : ∀ i, net.proc i = (s.agent i).policies.1
  values : ∀ i, net.publishValues i = (s.agent i).publishValues
  pubs : ∀ i, net.pubs i = (s.agent i).published.map fun e => c.deconvert e.2

variable {c policy G} {s t : Net (List ℚ) α (JacobiProcessor × Q)} {net : L4.Jacobi.Net {i // i ∈ G.agents}}

/-- An agent's step that does nothing to what the abstract network has of it. -/
theorem Refines.same (h : Refines c G s net) {u : Net (List ℚ) α (JacobiProcessor × Q)}
    (hu : ∀ i, SameAgent (s.agent i) (u.agent i)) : Refines c G u net where
  proc i := (h.proc i).trans (hu i).proc.symm
  values i := (h.values i).trans (hu i).values.symm
  pubs i := by rw [h.pubs i, (hu i).published]

theorem refines_act (h : Refines c G s net) {i : TagID} {b : Agent (List ℚ) α (JacobiProcessor × Q)}
    (hb : SameAgent (s.agent i) b) : Refines c G (act G s i b) net := by
  refine h.same fun k => ?_
  by_cases hk : k = i
  · subst hk
    simpa [act] using hb
  · have hagent : (act G s i b).agent k = s.agent k := Function.update_of_ne hk _ _
    rw [hagent]
    exact ⟨rfl, rfl, rfl⟩

/-- Agent `i` of both networks moves. -/
theorem refines_update (h : Refines c G s net) {i : TagID} (hi : i ∈ G.agents)
    {b : Agent (List ℚ) α (JacobiProcessor × Q)} {net' : L4.Jacobi.Net {i // i ∈ G.agents}}
    (hother : ∀ k, k ≠ ⟨i, hi⟩ →
      net'.proc k = net.proc k ∧ net'.publishValues k = net.publishValues k ∧ net'.pubs k = net.pubs k)
    (hproc : net'.proc ⟨i, hi⟩ = b.policies.1) (hvalues : net'.publishValues ⟨i, hi⟩ = b.publishValues)
    (hpubs : net'.pubs ⟨i, hi⟩ = b.published.map fun e => c.deconvert e.2) : Refines c G (act G s i b) net' := by
  have hagent (k : {i // i ∈ G.agents}) (hk : k ≠ ⟨i, hi⟩) : (act G s i b).agent k = s.agent k :=
    Function.update_of_ne (fun he => hk (Subtype.ext he)) _ _
  have hself : (act G s i b).agent i = b := Function.update_self _ _ _
  refine ⟨fun k => ?_, fun k => ?_, fun k => ?_⟩
  · by_cases hk : k = ⟨i, hi⟩
    · subst hk
      rw [hself]
      exact hproc
    · rw [hagent k hk, (hother k hk).1]
      exact h.proc k
  · by_cases hk : k = ⟨i, hi⟩
    · subst hk
      rw [hself]
      exact hvalues
    · rw [hagent k hk, (hother k hk).2.1]
      exact h.values k
  · by_cases hk : k = ⟨i, hi⟩
    · subst hk
      rw [hself]
      exact hpubs
    · rw [hagent k hk, (hother k hk).2.2]
      exact h.pubs k

/-- `run` begins. -/
theorem refines_run (h : Refines c G s net) {i : TagID} (hi : i ∈ G.agents)
    {b : Agent (List ℚ) α (JacobiProcessor × Q)}
    (hb : L4.Iterative.step c (method policy) .asynchronous (s.agent i) .run = some b) :
    ∃ net', L4.Jacobi.step net (.start ⟨i, hi⟩) = some net' ∧ Refines c G (act G s i b) net' := by
  simp only [L4.Iterative.step] at hb
  split at hb
  · obtain ⟨y, hy, rfl⟩ := Option.map_eq_some_iff.mp hb
    obtain ⟨job, version, -, rfl, -⟩ := submitValues_eq c hy
    refine ⟨_, rfl, refines_update h hi (fun k hk => ⟨rfl, rfl, Function.update_of_ne hk _ _⟩) (h.proc ⟨i, hi⟩)
      (h.values ⟨i, hi⟩) ?_⟩
    show Function.update net.pubs _ _ _ = List.map _ (_ ++ [_])
    rw [Function.update_self, List.map_append, h.pubs, h.values, List.map_singleton, c.deconvert_convert]
  · cases hb

variable (policy) in
/-- The processor takes in the updated values. -/
theorem refines_process (hI : Inv c G s) (h : Refines c G s net) {i : TagID} (hi : i ∈ G.agents) :
    ∃ fresh net', L4.Jacobi.step net (.update ⟨i, hi⟩ fresh) = some net' ∧
      Refines c G (act G s i (processAllUpdates (method policy) .asynchronous (s.agent i))) net' := by
  have hfetch : ∀ v ∈ updatedValues (neighborDataHandler (s.agent i)),
      ∃ (j : {i // i ∈ G.agents}) (k : ℕ), (net.pubs j)[k]? = some v := by
    intro v hv
    obtain ⟨j, hj, k, version, hk⟩ := updatedValues_published (hI.agent i hi) hv
    refine ⟨⟨j, G.closed i hi j hj⟩, k, ?_⟩
    rw [h.pubs, List.getElem?_map]
    show Option.map _ ((UpdateOrder.pubs s j)[k]?) = _
    rw [hk, Option.map_some, c.deconvert_convert]
  obtain ⟨fresh, hfresh⟩ := exists_fetch hfetch
  have hstep : L4.Jacobi.step net (.update ⟨i, hi⟩ fresh) = some { net with
      proc := Function.update net.proc ⟨i, hi⟩
        ((net.proc ⟨i, hi⟩).processUpdate (updatedValues (neighborDataHandler (s.agent i)))) } := by
    rw [L4.Jacobi.step, hfresh, Option.map_some]
  refine ⟨fresh, _, hstep, refines_update h hi (fun k hk => ⟨Function.update_of_ne hk _ _, rfl, rfl⟩) ?_
    (h.values ⟨i, hi⟩) (h.pubs ⟨i, hi⟩)⟩
  show Function.update net.proc _ _ _ = _
  rw [Function.update_self, h.proc]
  rfl

theorem refines_tick (hI : Inv c G s) (h : Refines c G s net) {i : TagID} (hi : i ∈ G.agents)
    {b : Agent (List ℚ) α (JacobiProcessor × Q)} (hb : AsyncStep c (method policy) (s.agent i) b) :
    ∃ ls net', LTS.exec L4.Jacobi.step net ls = some net' ∧ Refines c G (act G s i b) net' := by
  cases tick_cases (hI.agent i hi) hb with
  | other _ _ _ _ _ hsame => exact ⟨[], net, rfl, refines_act h hsame⟩
  | process hp he =>
    subst he
    obtain ⟨fresh, net', hstep, hnet⟩ := refines_process policy hI h hi
    exact ⟨[.update ⟨i, hi⟩ fresh], net', by rw [LTS.exec, hstep]; rfl, hnet⟩
  | publish version hp _ _ hpol hvalues hpub =>
    refine ⟨[.publish ⟨i, hi⟩], _, rfl, refines_update h hi
      (fun k hk => ⟨rfl, Function.update_of_ne hk _ _, Function.update_of_ne hk _ _⟩) ?_ ?_ ?_⟩
    · rw [hpol]
      exact h.proc ⟨i, hi⟩
    · show Function.update net.publishValues _ _ _ = _
      rw [Function.update_self, h.proc, h.values, hvalues]
      rfl
    · show Function.update net.pubs _ _ _ = _
      rw [Function.update_self, h.proc, h.values, h.pubs, hpub, List.map_append, List.map_singleton,
        c.deconvert_convert]
      rfl
  | skip _ _ _ _ _ hsame => exact ⟨[], net, rfl, refines_act h hsame⟩

/-- Each step of the network is a step of the abstract one, or none. -/
theorem refines_step (hI : Inv c G s) (h : Refines c G s net) {l : L5.Lockstep.Lbl}
    (ht : CollectiveCount.step c (method policy) G s l = some t) :
    ∃ ls net', LTS.exec L4.Jacobi.step net ls = some net' ∧ Refines c G t net' := by
  cases l with
  | run i =>
    simp only [CollectiveCount.step] at ht
    split at ht
    · rename_i hi
      obtain ⟨b, hb, rfl⟩ := Option.map_eq_some_iff.mp ht
      obtain ⟨net', hstep, hnet⟩ := refines_run h hi hb
      exact ⟨[.start ⟨i, hi⟩], net', by rw [LTS.exec, hstep]; rfl, hnet⟩
    · cases ht
  | tick i =>
    simp only [CollectiveCount.step] at ht
    split at ht
    · rename_i hi
      obtain ⟨b, hb, rfl⟩ := Option.map_eq_some_iff.mp ht
      exact refines_tick hI h hi (asyncStep_of_runStep c (method policy) hb)
    · cases ht
  | stop i answer =>
    simp only [CollectiveCount.step] at ht
    split at ht
    · obtain ⟨b, hb, rfl⟩ := Option.map_eq_some_iff.mp ht
      obtain ⟨-, -, flag, pc, -, -, rfl⟩ := evalStopPolicy_eq hb
      exact ⟨[], net, rfl, refines_act h ⟨rfl, rfl, rfl⟩⟩
    · cases ht
  | deliver j i =>
    simp only [CollectiveCount.step] at ht
    split at ht
    · unfold deliver at ht
      split at ht
      · cases ht
      · obtain ⟨b, hb, rfl⟩ := Option.map_eq_some_iff.mp ht
        obtain ⟨r, -, rfl⟩ := Option.map_eq_some_iff.mp hb
        refine ⟨[], net, rfl, h.same fun k => ?_⟩
        by_cases hk : k = i
        · subst hk
          show SameAgent (s.agent k) (Function.update s.agent k _ k)
          rw [Function.update_self]
          exact ⟨rfl, rfl, rfl⟩
        · show SameAgent (s.agent k) (Function.update s.agent i _ k)
          rw [Function.update_of_ne hk]
          exact ⟨rfl, rfl, rfl⟩
    · cases ht

variable (c policy G) in
/-- The starting processors are those of the constructor. -/
theorem refines_init {n : ℕ} (A : Matrix (Fin n) (Fin n) ℚ) (b : Fin n → ℚ) (rows : TagID → List (Fin n))
    (q : TagID → Q) (h : CollectiveCount.init c (method policy) G (fun i => (ofRows A b (rows i), q i)) s) :
    Refines c G s (L4.Jacobi.init A b fun i => rows i) := by
  have hagent (i : {i // i ∈ G.agents}) : ∃ job, s.agent i =
      create (method policy) job i (G.nbrs i) (ofRows A b (rows i), q i) := by
    obtain ⟨job, ha, -⟩ := h.1 i i.2
    exact ⟨job, ha⟩
  refine ⟨fun i => ?_, fun i => ?_, fun i => ?_⟩
  · obtain ⟨job, ha⟩ := hagent i
    rw [ha]
    rfl
  · obtain ⟨job, ha⟩ := hagent i
    rw [ha]
    rfl
  · obtain ⟨job, ha⟩ := hagent i
    rw [ha]
    rfl

/-- Every run of the network is one of the abstract network. -/
theorem exists_refines {n : ℕ} (A : Matrix (Fin n) (Fin n) ℚ) (b : Fin n → ℚ) (rows : TagID → List (Fin n))
    (q : TagID → Q)
    (hs : ((lts c (method policy) G fun i => (ofRows A b (rows i), q i)).restrict (Cond G)).Reachable s) :
    Inv c G s ∧ ∃ ls net,
      LTS.exec L4.Jacobi.step (L4.Jacobi.init A b fun i : {i // i ∈ G.agents} => rows i) ls = some net ∧
        Refines c G s net := by
  have hind : ((lts c (method policy) G fun i => (ofRows A b (rows i), q i)).restrict (Cond G)).Inductive fun s =>
      Inv c G s ∧ ∃ ls net, LTS.exec L4.Jacobi.step (L4.Jacobi.init A b fun i : {i // i ∈ G.agents} => rows i) ls =
        some net ∧ Refines c G s net := by
    refine ⟨fun s h => ⟨UpdateOrder.inv_init h, [], _, rfl, refines_init c policy G A b rows q h⟩, fun s l t h ht => ?_⟩
    obtain ⟨hI, ls, net, hnet, hr⟩ := h
    obtain ⟨ls', net', hnet', hr'⟩ := refines_step hI hr ht.1
    exact ⟨UpdateOrder.inv_step hI ht.1 ht.2, ls ++ ls', net', by rw [LTS.exec_append, hnet]; exact hnet', hr'⟩
  exact hind.reachable s hs

end Run

section Policy
variable {n : ℕ} {part : List (Fin n)} {p : JacobiProcessor}

/-- The older values that are passed on do not matter. -/
theorem prepareForPublication_congr (h : Computes part p) {vals vals' : List ℚ} (hl : vals.length = 2 * part.length)
    (hl' : vals'.length = 2 * part.length) : p.prepareForPublication vals = p.prepareForPublication vals' := by
  have ho := prepareForPublication_owned h hl
  have ho' := prepareForPublication_owned h hl'
  refine List.ext_getElem (ho.length.trans ho'.length.symm) fun m hm hm' => ?_
  rw [← List.getD_eq_getElem _ 0 hm, ← List.getD_eq_getElem _ 0 hm']
  rw [ho.length] at hm
  rcases Nat.mod_two_eq_zero_or_one m with heven | hodd
  · obtain ⟨k, rfl⟩ : ∃ k, m = k * 2 := ⟨m / 2, by omega⟩
    have hk : part[k]? = some part[k] := List.getElem?_eq_getElem (by omega)
    rw [ho.index k _ hk, ho'.index k _ hk]
  · obtain ⟨k, rfl⟩ : ∃ k, m = k * 2 + 1 := ⟨m / 2, by omega⟩
    have hk : part[k]? = some part[k] := List.getElem?_eq_getElem (by omega)
    rw [prepareForPublication_value h hl hk, prepareForPublication_value h hl' hk]

theorem linfShift_false_iff {thresh : ℚ} : ∀ {newVals oldVals : List ℚ}, newVals.length = oldVals.length →
    (linfShift thresh newVals oldVals = some false ↔
      ∀ k < newVals.length, |newVals.getD k 0 - oldVals.getD k 0| ≤ thresh)
  | [], [], _ => by simp [linfShift]
  | x :: newVals, y :: oldVals, h => by
    unfold linfShift
    split
    · rename_i hlt
      exact iff_of_false (fun h => by cases h) fun hall => absurd hlt (not_lt.mpr (hall 0 (Nat.succ_pos _)))
    · rename_i hle
      rw [linfShift_false_iff (Nat.succ.inj h)]
      refine ⟨fun hall k hk => ?_, fun hall k hk => hall (k + 1) (Nat.succ_lt_succ hk)⟩
      cases k with
      | zero => exact not_lt.mp hle
      | succ k => exact hall k (Nat.lt_of_succ_lt_succ hk)

theorem linfShift_isSome {thresh : ℚ} : ∀ {newVals oldVals : List ℚ}, newVals.length = oldVals.length →
    (linfShift thresh newVals oldVals).isSome
  | [], [], _ => rfl
  | x :: newVals, y :: oldVals, h => by
    unfold linfShift
    split
    · rfl
    · exact linfShift_isSome (Nat.succ.inj h)

variable {α : Type} [Typed α] {c : PubSubConverter (List ℚ) α} {thresh : ℚ}
  {a b : Agent (List ℚ) α (JacobiProcessor × ℚ)}

/-- What has been published is close to what would be published. -/
structure Close (c : PubSubConverter (List ℚ) α) (part : List (Fin n)) (thresh : ℚ)
    (a : Agent (List ℚ) α (JacobiProcessor × ℚ)) : Prop where
  computes : Computes part a.policies.1
  length : a.publishValues.length = 2 * part.length
  threshold : a.policies.2 = thresh
  begun : a.pc ≠ .idle → ∃ version, a.published.getLast? = some (version, c.convert a.publishValues)
  updated : a.processed ≠ [] → a.pc ≠ .idle
  close : a.processed ≠ [] → a.pc ≠ .publish → linfShift thresh (newVals a) a.publishValues = some false

omit [Typed α] in
theorem newVals_length (h : Computes part a.policies.1) (hl : a.publishValues.length = 2 * part.length) :
    (newVals a).length = 2 * part.length := (prepareForPublication_owned h hl).length

theorem linfShift_self (hthresh : 0 ≤ thresh) (vals : List ℚ) : linfShift thresh vals vals = some false := by
  rw [linfShift_false_iff rfl]
  intro k _
  rwa [sub_self, abs_zero]

/-- The processor, the values and what was processed stay. -/
theorem Close.same (h : Close c part thresh a) (hsame : SameAgent a b) (hthresh : b.policies.2 = thresh)
    (hproc : b.processed = a.processed) (hidle : b.pc ≠ .idle → a.pc ≠ .idle) (hidle' : a.pc ≠ .idle → b.pc ≠ .idle)
    (hpub : b.pc ≠ .publish → a.pc ≠ .publish) : Close c part thresh b := by
  have hnew : newVals b = newVals a := by rw [newVals, newVals, hsame.proc, hsame.values]
  refine ⟨hsame.proc ▸ h.computes, hsame.values ▸ h.length, hthresh, fun hb => ?_, fun hb => ?_, fun hb hp => ?_⟩
  · rw [hsame.published, hsame.values]
    exact h.begun (hidle hb)
  · exact hidle' (h.updated (hproc ▸ hb))
  · rw [hnew, hsame.values]
    exact h.close (hproc ▸ hb) (hpub hp)

theorem Close.tick (hthresh : 0 ≤ thresh) (h : Close c part thresh a) (hb : TickCase publishOnLinfShift c a b) :
    Close c part thresh b := by
  cases hb with
  | other hp hidle hidle' hproc hpol hsame =>
    exact h.same hsame (hpol ▸ h.threshold) hproc (fun _ => hidle) (fun _ => hidle') fun _ => hp
  | process hp he =>
    subst he
    have hidle : a.pc ≠ .idle := by
      rw [hp]
      exact fun h => by cases h
    exact ⟨h.computes.of_sameRows (processUpdate_sameRows _ _), h.length, h.threshold, fun _ => h.begun hidle,
      (fun _ h => by cases h), fun _ hn => absurd rfl hn⟩
  | publish version hp hpc hproc hpol hvalues hpub =>
    have hlen := newVals_length h.computes h.length
    have hproc' : b.policies.1 = a.policies.1 := by rw [hpol]
    have hnew : newVals b = newVals a := by
      rw [newVals, newVals, hproc', hvalues]
      exact prepareForPublication_congr h.computes hlen h.length
    refine ⟨hproc' ▸ h.computes, hvalues ▸ hlen, ?_, fun _ => ⟨version, ?_⟩, fun _ => ?_, fun _ _ => ?_⟩
    · rw [hpol]
      exact h.threshold
    · rw [hpub, List.getLast?_append_of_ne_nil _ (List.cons_ne_nil _ _), hvalues]
      rfl
    · rw [hpc]
      exact fun h => by cases h
    · rw [hnew, hvalues]
      exact linfShift_self hthresh _
  | skip hp hpc hproc hno hpol hsame =>
    have hidle : a.pc ≠ .idle := by
      rw [hp]
      exact fun h => by cases h
    have hnew : newVals b = newVals a := by rw [newVals, newVals, hsame.proc, hsame.values]
    refine ⟨hsame.proc ▸ h.computes, hsame.values ▸ h.length, ?_, fun _ => ?_, fun _ => ?_, fun _ _ => ?_⟩
    · rw [hpol]
      exact h.threshold
    · rw [hsame.published, hsame.values]
      exact h.begun hidle
    · rw [hpc]
      exact fun h => by cases h
    · have hsome : (linfShift thresh (newVals a) a.publishValues).isSome :=
        linfShift_isSome ((newVals_length h.computes h.length).trans h.length.symm)
      obtain ⟨answer, hanswer⟩ := Option.isSome_iff_exists.mp hsome
      have hno : (linfShift a.policies.2 (newVals a) a.publishValues).getD true = false := hno
      rw [h.threshold, hanswer] at hno
      rw [hnew, hsame.values, hanswer]
      exact congrArg some hno

/-- A step of the network. -/
theorem close_step (hthresh : 0 ≤ thresh) {G : Graph} {rows : TagID → List (Fin n)}
    {s t : Net (List ℚ) α (JacobiProcessor × ℚ)} (hI : Inv c G s)
    (h : ∀ i ∈ G.agents, Close c (rows i) thresh (s.agent i)) {l : L5.Lockstep.Lbl}
    (ht : CollectiveCount.step c (method publishOnLinfShift) G s l = some t) :
    ∀ i ∈ G.agents, Close c (rows i) thresh (t.agent i) := by
  have hact {i : TagID} {b : Agent (List ℚ) α (JacobiProcessor × ℚ)} (hi : i ∈ G.agents)
      (hb : Close c (rows i) thresh b) : ∀ k ∈ G.agents, Close c (rows k) thresh ((act G s i b).agent k) := by
    intro k hk
    show Close c (rows k) thresh (Function.update s.agent i b k)
    by_cases hki : k = i
    · subst hki
      rwa [Function.update_self]
    · rw [Function.update_of_ne hki]
      exact h k hk
  cases l with
  | run i =>
    simp only [CollectiveCount.step] at ht
    split at ht
    · rename_i hi
      obtain ⟨b, hb, rfl⟩ := Option.map_eq_some_iff.mp ht
      simp only [L4.Iterative.step] at hb
      split at hb
      · rename_i hpc
        obtain ⟨y, hy, rfl⟩ := Option.map_eq_some_iff.mp hb
        obtain ⟨job, version, -, rfl, -⟩ := submitValues_eq c hy
        have hc := h i hi
        refine hact hi ⟨hc.computes, hc.length, hc.threshold, fun _ => ⟨version, ?_⟩, (fun _ h => by cases h),
          fun hp _ => ?_⟩
        · exact List.getLast?_append_of_ne_nil _ (List.cons_ne_nil _ _)
        · refine hc.close hp ?_
          rcases hpc with hpc | hpc <;> rw [hpc] <;> exact fun h => by cases h
      · cases hb
    · cases ht
  | tick i =>
    simp only [CollectiveCount.step] at ht
    split at ht
    · rename_i hi
      obtain ⟨b, hb, rfl⟩ := Option.map_eq_some_iff.mp ht
      have hcase := tick_cases (hI.agent i hi) (asyncStep_of_runStep c (method publishOnLinfShift) hb)
      exact hact hi ((h i hi).tick hthresh hcase)
    · cases ht
  | stop i answer =>
    simp only [CollectiveCount.step] at ht
    split at ht
    · rename_i hi
      obtain ⟨b, hb, rfl⟩ := Option.map_eq_some_iff.mp ht
      obtain ⟨ha, hidle, flag, pc, hpc, hne, rfl⟩ := evalStopPolicy_eq hb
      refine hact hi ((h i hi).same ⟨rfl, rfl, rfl⟩ (h i hi).threshold rfl (fun _ => hidle) (fun _ => hne)
        fun _ hp => ?_)
      rw [hp] at ha
      cases ha
    · cases ht
  | deliver j i =>
    simp only [CollectiveCount.step] at ht
    split at ht
    · unfold deliver at ht
      split at ht
      · cases ht
      · obtain ⟨b, hb, rfl⟩ := Option.map_eq_some_iff.mp ht
        obtain ⟨r, -, rfl⟩ := Option.map_eq_some_iff.mp hb
        intro k hk
        show Close c (rows k) thresh (Function.update s.agent i _ k)
        by_cases hki : k = i
        · subst hki
          rw [Function.update_self]
          exact (h k hk).same ⟨rfl, rfl, rfl⟩ (h k hk).threshold rfl id id id
        · rw [Function.update_of_ne hki]
          exact h k hk
    · cases ht

end Policy

instance : Typed (List ℚ) := ⟨fun _ => []⟩

def vectorConverter : PubSubConverter (List ℚ) (List ℚ) := ⟨id, id, [], fun _ => rfl, fun _ => rfl⟩

def pair : Graph where
  agents := {['p', 'a'], ['p', 'b']}
  nbrs i := if i = ['p', 'a'] then [['p', 'b']] else if i = ['p', 'b'] then [['p', 'a']] else []
  closed := by decide

def pairRow (i : TagID) : List (Fin 2) := if i = ['p', 'a'] then [0] else [1]

/-- A job that publishes `mine` and is subscribed to `theirs`. -/
def pairJob (mine theirs : TagID) : Job (List ℚ) where
  bufs := (∅ : AList fun _ : TagID => TagInfo (List ℚ)).insert theirs ⟨some {}, [], 0, .noError⟩
  lastPublishedVersion := ∅
  tagsProduced := (∅ : AList fun _ : TagID => List UInt8).insert mine []

def pairOther (i : TagID) : TagID := if i = ['p', 'a'] then ['p', 'b'] else ['p', 'a']

def pairNet : Net (List ℚ) (List ℚ) (JacobiProcessor × ℚ) where
  agent i := create (method publishOnLinfShift) (pairJob i (pairOther i)) i (pair.nbrs i)
    (ofRows pairA (fun _ => 3) (pairRow i), 1 / 10)
  chan _ _ := []

theorem pairNet_init : CollectiveCount.init vectorConverter (method publishOnLinfShift) pair
    (fun i => (ofRows pairA (fun _ => 3) (pairRow i), 1 / 10)) pairNet := by
  refine ⟨fun i hi => ⟨pairJob i (pairOther i), rfl, rfl, fun j hj => ⟨0, ?_⟩⟩, fun _ _ => rfl⟩
  have hone : ∀ i ∈ pair.agents, ∀ j ∈ pair.nbrs i, pairOther i = j := by decide
  rw [hone i hi j hj]
  exact AList.lookup_insert _

/-- Both begin, and the first processes what the second has published. -/
def pairSteps : List L5.Lockstep.Lbl :=
  [.run ['p', 'a'], .run ['p', 'b'], .deliver ['p', 'b'] ['p', 'a']] ++ List.replicate 8 (.tick ['p', 'a'])

theorem pairSteps_exec : ∃ s,
    LTS.exec (LTS.guarded (CollectiveCount.step vectorConverter (method publishOnLinfShift) pair) (Cond pair))
      pairNet pairSteps = some s ∧
    (s.agent ['p', 'a']).processed.length = 1 ∧ (s.agent ['p', 'a']).published.length = 2 ∧
      (s.agent ['p', 'a']).pc = .stopPolicy := by
  have hall : ((LTS.exec (LTS.guarded (CollectiveCount.step vectorConverter (method publishOnLinfShift) pair)
      (Cond pair)) pairNet pairSteps).any fun s => decide ((s.agent ['p', 'a']).processed.length = 1 ∧
        (s.agent ['p', 'a']).published.length = 2 ∧ (s.agent ['p', 'a']).pc = .stopPolicy)) = true := by
    decide +kernel
  obtain ⟨s, hs, hp⟩ := (Option.any_eq_true _ _).mp hall
  exact ⟨s, hs, of_decide_eq_true hp⟩

end Skywing.L5.JacobiNetwork
