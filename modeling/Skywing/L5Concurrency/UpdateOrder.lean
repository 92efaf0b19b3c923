import Skywing.L5Concurrency.CollectiveCount

/-!
# What an asynchronous method is shown

The network of `CollectiveCount`: agents on a finite graph that run any method
under `AsynchronousIterative::run` (`skywing_mid/asynchronous_iterative.hpp`),
each at its own pace. Publications travel in order; buffers keep the newest
only; `gather_values` reads one tag after the other while more arrive.

`updates_in_order`: for each agent and each of its neighbours, the updates of
the agent are shown publications of the neighbour that never go back; a tag is
marked as updated exactly where its publication is newer than in the update
before; and when everything has been delivered and processed, the last
publication has been shown. Publications in between may be skipped.
-/
namespace Skywing.L5.UpdateOrder

open L2.TagBuffer L3 L4.Iterative L4.Parts
open L5.Lockstep (Net Lbl Published)
open L5.Gossip (Graph IdempotentProcessor succ_lt_of_versionAt_ne)
open L5.CollectiveCount (act deliver Fresh init lts nextVersion Cond Reading Delivered minProcessor noMean
  countConverter countRing countRing_init)

section Views
variable {V α : Type} [Typed α] (c : PubSubConverter V α)

/-- `j` is among the updated tags.
mirrors skywing/skywing_mid/neighbor_data_handler.hpp:180 -/
def Updated (view : NeighborDataHandler V) (j : TagID) : Prop := ∃ k ∈ view.updatedTags, view.tags[k]? = some j

/-- The value of `j` is its publication `m`, counted from 1; 0 is none. -/
structure Knows (pubs : List (VersionID × α)) (view : NeighborDataHandler V) (j : TagID) (m : Nat) : Prop where
  unread : m = 0 → view.neighborValues.lookup j = none
  value : m ≠ 0 → ∃ v, Published c pubs (m - 1) v ∧ view.neighborValues.lookup j = some v

variable {c} {pubs : List (VersionID × α)} {view view' : NeighborDataHandler V} {j : TagID} {m : Nat}

theorem Knows.congr (h : Knows c pubs view j m)
    (hval : view'.neighborValues.lookup j = view.neighborValues.lookup j) : Knows c pubs view' j m := by
  refine ⟨fun h0 => ?_, fun h0 => ?_⟩
  · rw [hval]
    exact h.unread h0
  · rw [hval]
    exact h.value h0

theorem Knows.append (h : Knows c pubs view j m) (xs : List (VersionID × α)) : Knows c (pubs ++ xs) view j m := by
  refine ⟨h.unread, fun h0 => ?_⟩
  obtain ⟨v, hv, hl⟩ := h.value h0
  exact ⟨v, hv.append c xs, hl⟩

end Views

/-! ## One agent -/

section Agent
variable {V α P : Type} [Typed α] (c : PubSubConverter V α) (G : Graph)

structure Node (i : TagID) (a : Agent V α P) : Prop where
  producedTag : a.producedTag = i
  tags : a.tags = G.nbrs i
  version : (a.job.lastPublishedVersion.lookup i).getD tagNoData = versionAt a.published.length
  published : ∀ k < a.published.length, ∃ v, Published c a.published k v
  noWaiters : ∀ ws, a.pc ≠ .isReady ws
  updatedTags : Reading a → ∀ k ∈ a.updatedTags, k < a.tags.length

/-- The link from `j` to `a`: `d` publications were delivered, and the `f`-th
was read last. -/
structure Edge (a : Agent V α P) (j : TagID) (pubs link : List (VersionID × α)) (d f : Nat) : Prop where
  link : link = pubs.drop d
  delivered : d ≤ pubs.length
  bound : d < 2 ^ 32
  fetched : f ≤ d
  info : ∃ cid b v, a.job.bufs.lookup j = some ⟨some b, c.expectedTypes, cid, .noError⟩ ∧
    b.Tracks d f v ∧ (d ≠ 0 → ∃ w, Published c pubs (d - 1) w ∧ v = some (c.convert w))
  knows : Knows c pubs (neighborDataHandler a) j f

/-- What the updates were shown of `j`: publication `g (k + 1)` in update `k`. -/
structure History (a : Agent V α P) (j : TagID) (pubs : List (VersionID × α)) (f : Nat) (g : Nat → Nat) : Prop where
  zero : g 0 = 0
  shown : ∀ k view, a.processed[k]? = some view →
    g k ≤ g (k + 1) ∧ (Updated view j ↔ g k < g (k + 1)) ∧ Knows c pubs view j (g (k + 1))
  reading : Reading a → g a.processed.length ≤ f ∧ (Updated (neighborDataHandler a) j ↔ g a.processed.length < f)
  processed : ¬ Reading a → g a.processed.length = f

structure At (i : TagID) (a : Agent V α P) (pubs link : TagID → List (VersionID × α)) : Prop
    extends Node c G i a where
  edges : ∀ j ∈ G.nbrs i, ∃ d f g, Edge c a j (pubs j) (link j) d f ∧ History c a j (pubs j) f g

variable {c G} {i : TagID} {a b : Agent V α P} {pubs link : TagID → List (VersionID × α)} {j : TagID}
  {ps l : List (VersionID × α)} {d f : Nat} {g : Nat → Nat}

theorem Edge.active (h : Edge c a j ps l d f) : a.job.tagHasActivePublisher j = true := by
  obtain ⟨cid, b, v, hi, _⟩ := h.info
  simp [Job.tagHasActivePublisher, hi]

theorem Edge.hasData (h : Edge c a j ps l d f) {has : Bool} (hh : a.job.hasData j = some has) : has = true ↔ f < d := by
  obtain ⟨cid, b, v, hi, ht, _⟩ := h.info
  rw [Job.hasData_eq hi rfl, Option.some.injEq] at hh
  rw [← hh]
  exact ht.hasData_iff h.fetched h.bound

/-- More publications on the link. -/
theorem Edge.publish (h : Edge c a j ps l d f) (xs : List (VersionID × α)) : Edge c a j (ps ++ xs) (l ++ xs) d f where
  link := by rw [h.link, List.drop_append_of_le_length h.delivered]
  delivered := by have := h.delivered; rw [List.length_append]; omega
  bound := h.bound
  fetched := h.fetched
  info := by
    obtain ⟨cid, b, v, hi, ht, hv⟩ := h.info
    refine ⟨cid, b, v, hi, ht, fun h0 => ?_⟩
    obtain ⟨w, hw, he⟩ := hv h0
    exact ⟨w, hw.append c xs, he⟩
  knows := h.knows.append xs

theorem Edge.become (h : Edge c a j ps l d f) (hinfo : b.job.bufs.lookup j = a.job.bufs.lookup j)
    (hval : b.neighborValues.lookup j = a.neighborValues.lookup j) : Edge c b j ps l d f where
  link := h.link
  delivered := h.delivered
  bound := h.bound
  fetched := h.fetched
  info := by rw [hinfo]; exact h.info
  knows := h.knows.congr hval

/-- The next publication on the link has come. -/
theorem Edge.deliver {l' : List (VersionID × α)} (h : Edge c a j ps l d f) {v : V} (hv : Published c ps d v)
    (hl : l' = ps.drop (d + 1)) (hne : versionAt (d + 1) ≠ tagNoData)
    (hinfo : ∀ cid buf, a.job.bufs.lookup j = some ⟨some buf, c.expectedTypes, cid, .noError⟩ →
      b.job.bufs.lookup j =
        some ⟨some (buf.add (c.convert v) (versionAt (d + 1))), c.expectedTypes, cid, .noError⟩)
    (hval : b.neighborValues.lookup j = a.neighborValues.lookup j) : Edge c b j ps l' (d + 1) f where
  link := hl
  delivered := hv.lt
  bound := succ_lt_of_versionAt_ne h.bound hne
  fetched := by have := h.fetched; omega
  info := by
    obtain ⟨cid, buf, w, hi, ht, -⟩ := h.info
    exact ⟨cid, _, _, hinfo cid buf hi, ht.add (succ_lt_of_versionAt_ne h.bound hne) _, fun _ => ⟨v, hv, rfl⟩⟩
  knows := h.knows.congr hval

theorem History.publish (h : History c a j ps f g) (xs : List (VersionID × α)) : History c a j (ps ++ xs) f g where
  zero := h.zero
  shown k view hv := by
    obtain ⟨hle, hup, hk⟩ := h.shown k view hv
    exact ⟨hle, hup, hk.append xs⟩
  reading := h.reading
  processed := h.processed

/-- A step that neither reads nor processes. -/
theorem History.become (h : History c a j ps f g) (hproc : b.processed = a.processed)
    (hread : Reading b ↔ Reading a) (hup : Reading a → neighborDataHandler b = neighborDataHandler a) :
    History c b j ps f g where
  zero := h.zero
  shown := by rw [hproc]; exact h.shown
  reading hb := by
    rw [hproc, hup (hread.mp hb)]
    exact h.reading (hread.mp hb)
  processed hb := by
    rw [hproc]
    exact h.processed fun ha => hb (hread.mpr ha)

/-! ### The steps of the loop -/

/-- A step that goes on elsewhere, and neither reads nor processes. -/
theorem At.control (h : At c G i a pubs link) (pc : Pc) (shouldIterate : Bool) (lastStop : Option Bool)
    (hwait : ∀ ws, pc ≠ .isReady ws)
    (hread : Reading { a with pc := pc, shouldIterate := shouldIterate, lastStop := lastStop } ↔ Reading a) :
    At c G i { a with pc := pc, shouldIterate := shouldIterate, lastStop := lastStop } pubs link where
  producedTag := h.producedTag
  tags := h.tags
  version := h.version
  published := h.published
  noWaiters := hwait
  updatedTags hb := h.updatedTags (hread.mp hb)
  edges j hj := by
    obtain ⟨d, f, g, he, hg⟩ := h.edges j hj
    exact ⟨d, f, g, he.become rfl rfl, hg.become rfl hread fun _ => rfl⟩

/-- Something to read has been found. -/
theorem At.counted (h : At c G i a pubs link) (hr : ¬ Reading a) :
    At c G i { a with updatedTags := [], pc := .readUpdates 0 } pubs link where
  producedTag := h.producedTag
  tags := h.tags
  version := h.version
  published := h.published
  noWaiters := fun _ h => by cases h
  updatedTags _ := fun _ h => by cases h
  edges j hj := by
    obtain ⟨d, f, g, he, hg⟩ := h.edges j hj
    refine ⟨d, f, g, he.become rfl rfl, hg.zero, hg.shown, fun _ => ?_, fun hn => absurd (.inl ⟨0, rfl⟩) hn⟩
    have hgf : g a.processed.length = f := hg.processed hr
    refine ⟨hgf.le, fun hup => ?_, fun hlt => absurd hgf hlt.ne⟩
    obtain ⟨k, hk, -⟩ := hup
    cases hk

/-- A value is read. -/
theorem At.read (h : At c G i a pubs link) {k : Nat} {tag : TagID} {w : Job.Waiter} {value : α} {job : Job α}
    (hp : a.pc = .readUpdates k) (ht : a.tags[k]? = some tag) (hd : a.job.hasData tag = some true)
    (hw : a.job.getWaiter tag = some w) (hv : a.job.getValue w = some (some value, job)) :
    At c G i { a with
      job := job
      neighborValues := a.neighborValues.insert tag (c.deconvert value)
      updatedTags := a.updatedTags ++ [k]
      pc := .readUpdates (k + 1) } pubs link := by
  have htag : tag ∈ G.nbrs i := h.tags ▸ List.mem_of_getElem? ht
  obtain ⟨d, f, g, he, hg⟩ := h.edges tag htag
  obtain ⟨cid, buf, v, hi, htr, hval⟩ := he.info
  have hlt : f < d := (he.hasData hd).mp rfl
  obtain ⟨buf', hget, htr'⟩ := htr.get hlt he.bound
  obtain ⟨u, hu, rfl⟩ := hval (by omega)
  have hwtag : w.tag = tag := by
    simp only [Job.getWaiter, hi, Option.map_some, Option.some.injEq] at hw
    rw [← hw]
  have hjob : value = c.convert u ∧ job = a.job.setInfo tag ⟨some buf', c.expectedTypes, cid, .noError⟩ := by
    have hhas : buf.hasData = true := (htr.hasData_iff he.fetched he.bound).mpr hlt
    rw [Job.getValue_eq (hwtag ▸ hi) rfl hhas hget, hwtag] at hv
    simp only [Option.some.injEq, Prod.mk.injEq] at hv
    exact ⟨hv.1.symm, hv.2.symm⟩
  obtain ⟨rfl, rfl⟩ := hjob
  have hreading : Reading a := .inl ⟨k, hp⟩
  refine ⟨⟨h.producedTag, h.tags, h.version, h.published, (fun _ h => by cases h), fun _ => ?_⟩, fun j hj => ?_⟩
  · refine List.forall_mem_append.mpr ⟨h.updatedTags hreading, List.forall_mem_singleton.mpr ?_⟩
    exact (List.getElem?_eq_some_iff.mp ht).1
  by_cases hjt : j = tag
  · subst hjt
    have hnew : g a.processed.length < d := (hg.reading hreading).1.trans_lt hlt
    refine ⟨d, d, g, ⟨he.link, he.delivered, he.bound, le_rfl, ?_, by omega, fun _ => ?_⟩, hg.zero, hg.shown,
      fun _ => ⟨hnew.le, fun _ => hnew, fun _ => ⟨k, List.mem_append_right _ (List.mem_singleton_self k), ht⟩⟩,
      fun hn => absurd (.inl ⟨k + 1, rfl⟩) hn⟩
    · exact ⟨cid, buf', _, Job.setInfo_self _ _ _, htr', fun _ => ⟨u, hu, rfl⟩⟩
    · refine ⟨u, hu, ?_⟩
      show (a.neighborValues.insert j _).lookup j = _
      rw [AList.lookup_insert, c.deconvert_convert]
  · obtain ⟨d', f', g', he', hg'⟩ := h.edges j hj
    refine ⟨d', f', g', he'.become (Job.setInfo_of_ne _ _ hjt) (AList.lookup_insert_ne hjt), hg'.zero, hg'.shown,
      fun _ => ⟨(hg'.reading hreading).1, ?_⟩, fun hn => absurd (.inl ⟨k + 1, rfl⟩) hn⟩
    rw [← (hg'.reading hreading).2]
    refine exists_congr fun m => ⟨fun hm => ⟨?_, hm.2⟩, fun hm => ⟨List.mem_append_left _ hm.1, hm.2⟩⟩
    -- the tag just read is another one
    refine (List.mem_append.mp hm.1).resolve_right fun hmk => hjt ?_
    have htm : a.tags[m]? = some j := hm.2
    rw [List.mem_singleton.mp hmk, ht] at htm
    exact (Option.some.inj htm).symm

/-- What has been read is processed. -/
theorem At.process (M : Method V P) (h : At c G i a pubs link) (hp : a.pc = .processUpdates) :
    At c G i (processAllUpdates M .asynchronous a) pubs link where
  producedTag := h.producedTag
  tags := h.tags
  version := h.version
  published := h.published
  noWaiters := fun _ h => by cases h
  updatedTags hb := by rcases hb with ⟨k, hk⟩ | hk <;> cases hk
  edges j hj := by
    obtain ⟨d, f, g, he, hg⟩ := h.edges j hj
    obtain ⟨hle, hup⟩ := hg.reading (.inr hp)
    have hold {k : Nat} (hk : k < a.processed.length + 1) :
        Function.update g (a.processed.length + 1) f k = g k := Function.update_of_ne hk.ne _ _
    have hlen : (processAllUpdates M .asynchronous a).processed.length = a.processed.length + 1 := by
      simp [processAllUpdates]
    refine ⟨d, f, Function.update g (a.processed.length + 1) f, he.become rfl rfl, ?_,
      fun k view hv => ?_, ?_, fun _ => ?_⟩
    · rw [hold (Nat.succ_pos _)]
      exact hg.zero
    · have hv : (a.processed ++ [neighborDataHandler a])[k]? = some view := hv
      rcases Nat.lt_or_ge k a.processed.length with hk | hk
      · rw [List.getElem?_append_left hk] at hv
        rw [hold (by omega), hold (by omega)]
        exact hg.shown k view hv
      · obtain rfl : k = a.processed.length := by
          have := (List.getElem?_eq_some_iff.mp hv).1
          simp only [List.length_append, List.length_cons, List.length_nil] at this
          omega
        rw [List.getElem?_append_right le_rfl, Nat.sub_self] at hv
        cases hv
        rw [hold (Nat.lt_succ_self _), Function.update_self]
        exact ⟨hle, hup, he.knows⟩
    · rintro (⟨k, hk⟩ | hk) <;> cases hk
    · rw [hlen, Function.update_self]

/-- A value is published, to the agent itself at once if it is subscribed to
its own tag. -/
theorem At.submit (h : At c G i a pubs link) (hself : pubs i = a.published) (hlink : link i = []) {v v₀ : V}
    {policies : P} {pc₀ pc : Pc} (shouldIterate : Bool) (lastStop : Option Bool)
    (hb : submitValues c { a with policies := policies, publishValues := v₀, pc := pc₀ } v = some b)
    (hpc : pc = .stopPolicy ∨ pc = .outerLoop) (hr : ¬ Reading a)
    (hcond : i ∈ G.nbrs i → nextVersion a ≠ tagNoData) :
    At c G i { b with shouldIterate := shouldIterate, lastStop := lastStop, pc := pc }
      (Function.update pubs i b.published) link := by
  obtain rfl := h.producedTag
  obtain ⟨job, version, hver, rfl, hjob, hlast⟩ := submitValues_eq c hb
  rw [h.version, versionAt_add_one] at hver
  have hnew : Published c (a.published ++ [(version, c.convert v)]) a.published.length v := by
    unfold Published
    rw [List.getElem?_append_right le_rfl, Nat.sub_self, hver]
    rfl
  have hrb : ¬ Reading (V := V) (α := α) (P := P) { a with
      job := job, policies := policies, publishValues := v₀, published := a.published ++ [(version, c.convert v)]
      shouldIterate := shouldIterate, lastStop := lastStop, pc := pc } := by
    rintro (⟨k, hk⟩ | hk) <;> rcases hpc with rfl | rfl <;> cases hk
  refine ⟨⟨h.producedTag, h.tags, ?_, fun k hk => ?_, ?_, fun hb => absurd hb hrb⟩, fun j hj => ?_⟩
  · simp only [hlast, Option.getD_some, hver, List.length_append, List.length_cons, List.length_nil]
  · simp only [List.length_append, List.length_cons, List.length_nil] at hk
    rcases Nat.lt_or_ge k a.published.length with hlt | hge
    · obtain ⟨u, hu⟩ := h.published k hlt
      exact ⟨u, hu.append c _⟩
    · obtain rfl : k = a.published.length := by omega
      exact ⟨_, hnew⟩
  · rcases hpc with rfl | rfl <;> exact fun _ h => by cases h
  · obtain ⟨d, f, g, he, hg⟩ := h.edges j hj
    have hread := iff_of_false hrb hr
    by_cases hji : j = a.producedTag
    · subst hji
      have hne : versionAt (a.published.length + 1) ≠ tagNoData := by
        have := hcond hj
        rwa [nextVersion, h.version, versionAt_add_one] at this
      -- nothing is under way on the agent's own link
      have hd : d = a.published.length := by
        have hle := he.delivered
        have hnil := he.link
        rw [hself] at hle hnil
        rw [hlink] at hnil
        have := List.drop_eq_nil_iff.mp hnil.symm
        omega
      rw [hself] at he hg
      have he' := he.publish [(version, c.convert v)]
      subst hd
      refine ⟨a.published.length + 1, f, g, ?_, ?_⟩
      · rw [Function.update_self]
        refine he'.deliver hnew ?_ hne ?_ rfl
        · rw [hlink]
          exact (List.drop_of_length_le (by simp)).symm
        · intro cid buf hi
          rw [← versionAt_add_one, ← h.version]
          exact submitValues_self c hb hi
      · rw [Function.update_self]
        exact (hg.publish _).become rfl hread fun ha => absurd ha hr
    · rw [Function.update_of_ne hji]
      exact ⟨d, f, g, he.become (hjob j hji) rfl, hg.become rfl hread fun ha => absurd ha hr⟩

/-- The next publication of a neighbour comes. -/
theorem At.data (M : Method V P) (h : At c G i a pubs link) (hj : j ∈ G.nbrs i) {version : VersionID} {value : α}
    {rest : List (VersionID × α)} (hlink : link j = (version, value) :: rest) (hne : version ≠ tagNoData)
    (hpubs : ∀ k < (pubs j).length, ∃ v, Published c (pubs j) k v)
    (hb : L4.Iterative.step c M .asynchronous a (.data j value version) = some b) :
    At c G i b pubs (Function.update link j rest) := by
  obtain ⟨d, f, g, he, hg⟩ := h.edges j hj
  have hhead : (pubs j)[d]? = some (version, value) := by
    have := congrArg List.head? (hlink.symm.trans he.link)
    simpa [List.head?_drop] using this.symm
  obtain ⟨v, hv⟩ := hpubs d (List.getElem?_eq_some_iff.mp hhead).1
  have hx := hhead.symm.trans hv
  simp only [Option.some.injEq, Prod.mk.injEq] at hx
  obtain ⟨rfl, rfl⟩ := hx
  obtain ⟨⟨ok, job⟩, hjob, rfl⟩ := Option.map_eq_some_iff.mp hb
  obtain ⟨hother, hcount⟩ := Job.processData_frame hjob
  refine ⟨⟨h.producedTag, h.tags, ?_, h.published, h.noWaiters, h.updatedTags⟩, fun k hk => ?_⟩
  · rw [hcount]
    exact h.version
  · by_cases hkj : k = j
    · subst hkj
      refine ⟨d + 1, f, g, he.deliver hv ?_ hne ?_ rfl, hg.become rfl Iff.rfl fun _ => rfl⟩
      · rw [Function.update_self]
        have := congrArg List.tail (hlink.symm.trans he.link)
        simpa [List.tail_drop] using this
      · intro cid buf hi
        rw [Job.processData_accept _ hi rfl (c.types_convert v).symm, Option.some.injEq, Prod.mk.injEq] at hjob
        rw [← hjob.2]
        exact Job.setInfo_self _ _ _
    · rw [Function.update_of_ne hkj]
      obtain ⟨d', f', g', he', hg'⟩ := h.edges k hk
      exact ⟨d', f', g', he'.become (hother k hkj) rfl, hg'.become rfl Iff.rfl fun _ => rfl⟩

/-- What is published in a step comes after what was published before. -/
theorem tick_published (M : Method V P) (hb : AsyncStep c M a b) : ∃ xs, b.published = a.published ++ xs := by
  cases hb with
  | publish b hp hb =>
    simp only [publishStep] at hb
    split at hb
    · obtain ⟨job, version, -, rfl, -⟩ := submitValues_eq c hb
      exact ⟨_, rfl⟩
    · cases hb
      exact ⟨[], (List.append_nil _).symm⟩
  | _ => exact ⟨[], (List.append_nil _).symm⟩

omit [Typed α] in
theorem not_reading_of_betweenRounds (h : a.pc.betweenRounds) : ¬ Reading a := by
  rintro (⟨k, hk⟩ | hk) <;> rw [hk] at h <;> cases h

/-- **One step of the loop.** -/
theorem At.tick (M : Method V P) (h : At c G i a pubs link) (hself : pubs i = a.published) (hlink : link i = [])
    (hcond : a.pc = .publish → i ∈ G.nbrs i → nextVersion a ≠ tagNoData) (hb : AsyncStep c M a b) :
    At c G i b (Function.update pubs i b.published) link := by
  have hkeep (hp : b.published = a.published) (hat : At c G i b pubs link) :
      At c G i b (Function.update pubs i b.published) link := by
    rw [hp, ← hself, Function.update_eq_self]
    exact hat
  have hnot {x : Agent V α P} (hx : ∀ k, x.pc ≠ .readUpdates k) (hx' : x.pc ≠ .processUpdates) : ¬ Reading x := by
    rintro (⟨k, hk⟩ | hk)
    · exact hx k hk
    · exact hx' hk
  cases hb with
  | control pc ha hb hne hidle =>
    refine hkeep rfl (h.control pc _ _ ?_ (iff_of_false (not_reading_of_betweenRounds hb)
      (not_reading_of_betweenRounds ha)))
    rintro ws rfl
    cases hb
  | gather ha hidle =>
    exact hkeep rfl (h.control _ _ _ (fun _ h => by cases h)
      (iff_of_false (hnot (fun _ h => by cases h) (fun h => by cases h)) (not_reading_of_betweenRounds ha)))
  | dead k n tag hp ht hact =>
    obtain ⟨d, f, g, he, -⟩ := h.edges tag (h.tags ▸ List.mem_of_getElem? ht)
    rw [he.active] at hact
    cases hact
  | count k n tag has hp ht hd =>
    refine hkeep rfl (h.control _ _ _ (fun _ h => by cases h)
      (iff_of_false (hnot (fun _ h => by cases h) (fun h => by cases h)) (hnot ?_ ?_)))
    · rw [hp]
      exact fun _ h => by cases h
    · rw [hp]
      exact fun h => by cases h
  | noUpdates k hp ht =>
    refine hkeep rfl (h.control _ _ _ (fun _ h => by cases h)
      (iff_of_false (hnot (fun _ h => by cases h) (fun h => by cases h)) (hnot ?_ ?_)))
    · rw [hp]
      exact fun _ h => by cases h
    · rw [hp]
      exact fun h => by cases h
  | counted k n hp hn ht =>
    refine hkeep rfl (h.counted (hnot ?_ ?_))
    · rw [hp]
      exact fun _ h => by cases h
    · rw [hp]
      exact fun h => by cases h
  | pass k tag hp ht hd =>
    exact hkeep rfl (h.control _ _ _ (fun _ h => by cases h) (iff_of_true (.inl ⟨k + 1, rfl⟩) (.inl ⟨k, hp⟩)))
  | read k tag w value job hp ht hd hw hv => exact hkeep rfl (h.read hp ht hd hw hv)
  | allRead k hp ht => exact hkeep rfl (h.control _ _ _ (fun _ h => by cases h) (iff_of_true (.inr rfl) (.inl ⟨k, hp⟩)))
  | process hp => exact hkeep rfl (h.process M hp)
  | publish b hp hb =>
    have hread : ¬ Reading a := by
      refine hnot ?_ ?_
      · rw [hp]
        exact fun _ h => by cases h
      · rw [hp]
        exact fun h => by cases h
    simp only [publishStep] at hb
    split at hb
    · have hpc : b.pc = .stopPolicy := by
        obtain ⟨job, version, -, rfl, -⟩ := submitValues_eq c hb
        rfl
      have := h.submit hself hlink b.shouldIterate b.lastStop hb (.inl rfl) hread (hcond hp)
      rwa [← hpc] at this
    · cases hb
      refine hkeep rfl ⟨⟨h.producedTag, h.tags, h.version, h.published, (fun _ h => by cases h),
        fun hr => absurd hr (hnot (fun _ h => by cases h) (fun h => by cases h))⟩,
        fun j hj => ?_⟩
      obtain ⟨d, f, g, he, hg⟩ := h.edges j hj
      exact ⟨d, f, g, he.become rfl rfl, hg.become rfl
        (iff_of_false (hnot (fun _ h => by cases h) (fun h => by cases h)) hread) fun ha => absurd ha hread⟩
  | isReady ws pc hp => exact absurd hp (h.noWaiters ws)

end Agent

/-! ## The network -/

section Run
variable {V α P : Type} [Typed α] (c : PubSubConverter V α) (M : Method V P) (G : Graph) (start : TagID → P)

def pubs (s : Net V α P) (j : TagID) : List (VersionID × α) := (s.agent j).published

/-- An agent hears itself at once: nothing is on its way from it to itself. -/
structure Inv (s : Net V α P) : Prop where
  agent : ∀ i ∈ G.agents, At c G i (s.agent i) (pubs s) fun j => s.chan j i
  loops : ∀ i, s.chan i i = []

variable {c M G start} {s t : Net V α P}

/-- Agent `i` takes a step of its own. -/
theorem inv_act {i : TagID} {b : Agent V α P} (h : Inv c G s)
    (hb : At c G i b (Function.update (pubs s) i b.published) fun j => s.chan j i)
    (hpub : ∃ xs, b.published = (s.agent i).published ++ xs) : Inv c G (act G s i b) := by
  have hpubs : pubs (act G s i b) = Function.update (pubs s) i b.published := by
    funext j
    by_cases hj : j = i
    · subst hj
      simp [pubs, act]
    · simp [pubs, act, hj]
  refine ⟨fun k hk => ?_, fun k => ?_⟩
  · rw [hpubs]
    by_cases hki : k = i
    · subst hki
      have hchan : (fun j => (act G s k b).chan j k) = fun j => s.chan j k := by
        funext j
        simp [act]
      rw [hchan]
      simpa [act] using hb
    · have hagent : (act G s i b).agent k = s.agent k := Function.update_of_ne hki _ _
      rw [hagent]
      refine ⟨(h.agent k hk).toNode, fun j hj => ?_⟩
      obtain ⟨d, f, g, he, hg⟩ := (h.agent k hk).edges j hj
      refine ⟨d, f, g, ?_⟩
      by_cases hji : j = i
      · subst hji
        obtain ⟨xs, hxs⟩ := hpub
        have hchan : (act G s j b).chan j k = s.chan j k ++ xs := by simp [act, hki, hj, hxs]
        rw [hchan, Function.update_self, hxs]
        exact ⟨he.publish xs, hg.publish xs⟩
      · have hchan : (act G s i b).chan j k = s.chan j k := by simp [act, hji]
        rw [hchan, Function.update_of_ne hji]
        exact ⟨he, hg⟩
  · by_cases hki : k = i
    · subst hki
      simpa [act] using h.loops k
    · simpa [act, hki] using h.loops k

theorem inv_deliver {i j : TagID} (h : Inv c G s) (hi : i ∈ G.agents) (hj : j ∈ G.nbrs i)
    (hcond : ∀ e ∈ (s.chan j i).head?, e.1 ≠ tagNoData) (ht : deliver c M s j i = some t) : Inv c G t := by
  unfold deliver at ht
  split at ht
  · cases ht
  · rename_i version value rest hchan
    obtain ⟨b, hb, rfl⟩ := Option.map_eq_some_iff.mp ht
    have hne : version ≠ tagNoData := hcond (version, value) (by rw [hchan]; rfl)
    have hat := (h.agent i hi).data M hj hchan hne (h.agent j (G.closed i hi j hj)).published hb
    have hpubs : pubs { s with
        agent := Function.update s.agent i b
        chan := fun x y => if x = j ∧ y = i then rest else s.chan x y } = pubs s := by
      funext k
      by_cases hk : k = i
      · subst hk
        obtain ⟨r, -, rfl⟩ := Option.map_eq_some_iff.mp hb
        simp [pubs]
      · simp [pubs, hk]
    refine ⟨fun k hk => ?_, fun k => ?_⟩
    · rw [hpubs]
      by_cases hki : k = i
      · subst hki
        convert hat using 1
        · exact Function.update_self _ _ _
        · funext x
          by_cases hx : x = j <;> simp [Function.update, hx]
      · convert h.agent k hk using 1
        · exact Function.update_of_ne hki _ _
        · funext x
          simp [hki]
    · show (if k = j ∧ k = i then rest else s.chan k k) = []
      split
      · rename_i he
        obtain ⟨rfl, rfl⟩ := he
        rw [h.loops k] at hchan
        cases hchan
      · exact h.loops k

/-- A step of an agent's own. -/
theorem agent_step {i : TagID} {b : Agent V α P} {l : L4.Iterative.Lbl α} (h : Inv c G s) (hi : i ∈ G.agents)
    (hl : l = .tick ∨ l = .run ∨ ∃ answer, l = .stop answer)
    (hrun : l = .run → i ∈ G.nbrs i → nextVersion (s.agent i) ≠ tagNoData)
    (htick : l = .tick → (s.agent i).pc = .publish → i ∈ G.nbrs i → nextVersion (s.agent i) ≠ tagNoData)
    (hb : L4.Iterative.step c M .asynchronous (s.agent i) l = some b) : Inv c G (act G s i b) := by
  have hat := h.agent i hi
  rcases hl with rfl | rfl | ⟨answer, rfl⟩
  · have hstep := asyncStep_of_runStep c M hb
    exact inv_act h (hat.tick M rfl (h.loops i) (htick rfl) hstep) (tick_published M hstep)
  · simp only [L4.Iterative.step] at hb
    split at hb
    · rename_i hpc
      obtain ⟨y, hy, rfl⟩ := Option.map_eq_some_iff.mp hb
      have hread : ¬ Reading (s.agent i) := by
        rintro (⟨k, hk⟩ | hk) <;> rcases hpc with hpc | hpc <;> rw [hpc] at hk <;> cases hk
      have hnew := hat.submit rfl (h.loops i) true none hy (.inr rfl) hread (hrun rfl)
      obtain ⟨job, version, -, rfl, -⟩ := submitValues_eq c hy
      exact inv_act h hnew ⟨_, rfl⟩
    · cases hb
  · obtain ⟨ha, -, flag, pc, hbetween, -, rfl⟩ := evalStopPolicy_eq hb
    refine inv_act h ?_ ⟨[], (List.append_nil _).symm⟩
    have hkeep := hat.control pc flag (some answer) ?_ (iff_of_false (not_reading_of_betweenRounds hbetween)
      (not_reading_of_betweenRounds ha))
    · have hsame : Function.update (pubs s) i (s.agent i).published = pubs s := Function.update_eq_self i (pubs s)
      rw [hsame]
      exact hkeep
    · rintro ws rfl
      cases hbetween

theorem inv_step {l : Lbl} (h : Inv c G s) (ht : CollectiveCount.step c M G s l = some t)
    (hcond : Cond G s l) : Inv c G t := by
  cases l with
  | run i =>
    simp only [CollectiveCount.step] at ht
    split at ht
    · rename_i hi
      obtain ⟨b, hb, rfl⟩ := Option.map_eq_some_iff.mp ht
      exact agent_step h hi (.inr (.inl rfl)) (fun _ => hcond) (fun h => by cases h) hb
    · cases ht
  | tick i =>
    simp only [CollectiveCount.step] at ht
    split at ht
    · rename_i hi
      obtain ⟨b, hb, rfl⟩ := Option.map_eq_some_iff.mp ht
      exact agent_step h hi (.inl rfl) (fun h => by cases h) (fun _ => hcond) hb
    · cases ht
  | stop i answer =>
    simp only [CollectiveCount.step] at ht
    split at ht
    · rename_i hi
      obtain ⟨b, hb, rfl⟩ := Option.map_eq_some_iff.mp ht
      exact agent_step h hi (.inr (.inr ⟨answer, rfl⟩)) (fun h => by cases h) (fun h => by cases h) hb
    · cases ht
  | deliver j i =>
    simp only [CollectiveCount.step] at ht
    split at ht
    · rename_i hij
      exact inv_deliver h hij.1 hij.2 hcond ht
    · cases ht

theorem inv_init (h : init c M G start s) : Inv c G s := by
  refine ⟨fun i hi => ?_, fun i => h.2 i i⟩
  obtain ⟨job, ha, hlast, hinfo⟩ := h.1 i hi
  have htags : (G.nbrs i).filter job.tagHasActivePublisher = G.nbrs i := by
    rw [List.filter_eq_self]
    intro j hj
    obtain ⟨cid, hc⟩ := hinfo j hj
    simp [Job.tagHasActivePublisher, hc]
  rw [ha]
  refine ⟨⟨rfl, htags, ?_, fun k hk => absurd hk (Nat.not_lt_zero k), (fun _ h => by cases h),
    fun _ => (fun _ h => by cases h)⟩, fun j hj => ?_⟩
  · simp [create, hlast, versionAt_zero]
  · obtain ⟨cid, hc⟩ := hinfo j hj
    have hpubs : pubs s j = [] := by
      obtain ⟨job', hj', -⟩ := h.1 j (G.closed i hi j hj)
      rw [pubs, hj']
      rfl
    refine ⟨0, 0, fun _ => 0, ⟨?_, Nat.zero_le _, by omega, le_rfl, ?_, fun _ => rfl, fun h0 => absurd rfl h0⟩,
      rfl, (fun _ _ h => by cases h), ?_, fun _ => rfl⟩
    · rw [hpubs, h.2 j i]
      rfl
    · exact ⟨cid, {}, none, hc, DiscardOldVersionTagBuffer.tracks_empty, fun h0 => absurd rfl h0⟩
    · rintro (⟨k, hk⟩ | hk) <;> cases hk

variable (c M G start) in
theorem inv_inductive : ((lts c M G start).restrict (Cond G)).Inductive (Inv c G) where
  init _ hs := inv_init hs
  step _ _ _ h ht := inv_step h ht.1 ht.2

end Run

/-- **Updates come in order.** In every run of an asynchronous method in which
no publication is delivered with the version of an empty buffer: update `k` of
agent `i` is shown publication `g (k + 1)` of its neighbour `j`, or none where
that is 0; these do not go back; the tag is among the updated ones exactly where
its publication is newer than in the update before; and once everything has been
delivered and processed, the last one shown is the last one published. -/
theorem updates_in_order {V α P : Type} [Typed α] (c : PubSubConverter V α) (M : Method V P) (G : Graph)
    (start : TagID → P) (s : Net V α P) (hs : ((lts c M G start).restrict (Cond G)).Reachable s) (i j : TagID)
    (hi : i ∈ G.agents) (hj : j ∈ G.nbrs i) :
    ∃ g : Nat → Nat, g 0 = 0 ∧
      (∀ k view, (s.agent i).processed[k]? = some view →
        g k ≤ g (k + 1) ∧ (Updated view j ↔ g k < g (k + 1)) ∧ Knows c (s.agent j).published view j (g (k + 1))) ∧
      (Delivered G s → g (s.agent i).processed.length = (s.agent j).published.length) := by
  have hI := (inv_inductive c M G start).reachable s hs
  obtain ⟨d, f, g, he, hg⟩ := (hI.agent i hi).edges j hj
  refine ⟨g, hg.zero, hg.shown, fun hdel => ?_⟩
  obtain ⟨-, hread, hlinks⟩ := hdel i hi
  obtain ⟨hchan, hdata⟩ := hlinks j hj
  have hd : d = (pubs s j).length := by
    have := List.drop_eq_nil_iff.mp (he.link.symm.trans hchan)
    have := he.delivered
    omega
  have hf : f = d := by
    have hnot : ¬ f < d := fun hlt => by
      have := (he.hasData hdata).mpr hlt
      cases this
    have := he.fetched
    omega
  rw [hg.processed hread, hf, hd]
  rfl

/-- After a full round of three agents the first has been shown the last
publication of its neighbour. -/
theorem updates_in_order_ring : ∃ s : Net (Nat × Unit) Nat (IdempotentProcessor Nat × Unit),
    Delivered Gossip.ring s ∧ (s.agent ['p', 'a']).processed.length = 1 ∧
    ∃ g : Nat → Nat, g 0 = 0 ∧ g 0 ≤ g 1 ∧ g 1 = (s.agent ['p', 'c']).published.length := by
  obtain ⟨s, hx, hdel, hlen⟩ : ∃ s,
      LTS.exec (LTS.guarded (CollectiveCount.step countConverter (quaccProcessor (minProcessor Nat) noMean).method
        Gossip.ring) (Cond Gossip.ring)) countRing Gossip.fullRound = some s ∧
      (∀ i ∈ Gossip.ring.agents, (s.agent i).published ≠ [] ∧
        ((s.agent i).pc = .publish ∨ (s.agent i).pc = .stopPolicy) ∧
        ∀ j ∈ Gossip.ring.nbrs i, s.chan j i = [] ∧ (s.agent i).job.hasData j = some false) ∧
      (s.agent ['p', 'a']).processed.length = 1 := ⟨_, rfl, by decide, by decide⟩
  have hdelivered : Delivered Gossip.ring s := fun i hi => by
    obtain ⟨hpub, hpc, hlinks⟩ := hdel i hi
    refine ⟨hpub, ?_, hlinks⟩
    rintro (⟨k, hk⟩ | hk) <;> rcases hpc with hpc | hpc <;> rw [hpc] at hk <;> cases hk
  obtain ⟨g, h0, hshown, hlast⟩ := updates_in_order countConverter _ Gossip.ring _ s
    (LTS.restrict_reachable_of_exec countRing_init hx) ['p', 'a'] ['p', 'c'] (by decide) (by decide)
  exact ⟨s, hdelivered, hlen, g, h0, (hshown 0 _ (List.getElem?_eq_getElem (by omega))).1, hlen ▸ hlast hdelivered⟩

end Skywing.L5.UpdateOrder
