import Skywing.L4App.Iterative

/-!
# Synchronous rounds

Agents on an undirected graph, each running `SynchronousIterative::run` on
the tags of its neighbours. What an agent publishes travels to each
neighbour on a link of its own, in order; a delivery hands the value to the
neighbour's job, whose `DiscardOldVersionTagBuffer` keeps the newest one.
Nobody dies, and every agent calls `run` once.

An agent goes into its next round only after every neighbour has published
for the one before, so a neighbour is at most one publication ahead
(`Edge`, one invariant for each directed link). One ahead it can be: the
buffer then holds the newer value and the older one is gone
(`round_skipped`). What holds is `lockstep`: the `k`-th update uses the
`k`-th or the `k + 1`-th publication of each neighbour, never one used
before, as long as nobody has published `2 ^ 32` times, where versions
reach the value that marks an empty buffer.
-/
namespace Skywing.L5.Lockstep

open L2.TagBuffer L3 L4.Iterative

/-- An undirected graph; an agent goes by the tag it publishes. -/
structure Topology where
  nbrs : TagID → List TagID
  nodup : ∀ i, (nbrs i).Nodup
  symm : ∀ {i j}, j ∈ nbrs i → i ∈ nbrs j
  irrefl : ∀ i, i ∉ nbrs i

/-- `chan j i`: the publications of `j` on their way to `i`. -/
structure Net (V α P : Type) where
  agent : TagID → Agent V α P
  chan : TagID → TagID → List (VersionID × α)

inductive Lbl
  | run (i : TagID)
  | tick (i : TagID)
  | stop (i : TagID) (answer : Bool)
  | deliver (j i : TagID)

section Net
variable {V α P : Type} [Typed α] (c : PubSubConverter V α) (M : TagID → Method V P) (T : Topology)

/-- Agent `i` has become `b`; what it has published in the step goes to its
neighbours. -/
def act (s : Net V α P) (i : TagID) (b : Agent V α P) : Net V α P where
  agent := Function.update s.agent i b
  chan j k :=
    if j = i ∧ k ∈ T.nbrs i then s.chan j k ++ b.published.drop (s.agent i).published.length
    else s.chan j k

def deliver (s : Net V α P) (j i : TagID) : Option (Net V α P) :=
  match s.chan j i with
  | [] => none
  | (version, value) :: rest =>
    (L4.Iterative.step c (M i) .synchronous (s.agent i) (.data j value version)).map fun b =>
      { agent := Function.update s.agent i b
        chan := fun x y => if x = j ∧ y = i then rest else s.chan x y }

def step (s : Net V α P) : Lbl → Option (Net V α P)
  | .run i =>
    if (s.agent i).pc = .idle then
      (L4.Iterative.step c (M i) .synchronous (s.agent i) .run).map (act T s i)
    else none
  | .tick i => (L4.Iterative.step c (M i) .synchronous (s.agent i) .tick).map (act T s i)
  | .stop i answer =>
    (L4.Iterative.step c (M i) .synchronous (s.agent i) (.stop answer)).map (act T s i)
  | .deliver j i => deliver c M s j i

/-- A new agent whose subscriptions to its neighbours are finalized. -/
def Fresh (i : TagID) (a : Agent V α P) : Prop :=
  ∃ (job : Job α) (p : P), a = create (M i) job i (T.nbrs i) p ∧
    job.lastPublishedVersion.lookup i = none ∧
    ∀ j ∈ T.nbrs i, ∃ cid, job.bufs.lookup j = some ⟨some {}, c.expectedTypes, cid, .noError⟩

def init (s : Net V α P) : Prop := (∀ i, Fresh c M T i (s.agent i)) ∧ ∀ j i, s.chan j i = []

def lts : LTS (Net V α P) Lbl := LTS.ofFn (init c M T) (step c M T)

/-! ## What has been published -/

/-- Publication `k` is `v`. -/
def Published (pubs : List (VersionID × α)) (k : Nat) (v : V) : Prop :=
  pubs[k]? = some (versionAt (k + 1), c.convert v)

/-- In update `k` the value shown for `j` was publication `m`. -/
def Uses (pubs : List (VersionID × α)) (processed : List (NeighborDataHandler V)) (j : TagID)
    (k m : Nat) : Prop :=
  ∃ view v, processed[k]? = some view ∧ view.neighborValues.lookup j = some v ∧ Published c pubs m v

theorem Published.append {pubs : List (VersionID × α)} {k : Nat} {v : V} (h : Published c pubs k v)
    (xs : List (VersionID × α)) : Published c (pubs ++ xs) k v := by
  unfold Published at *
  rw [List.getElem?_append_left]
  · exact h
  · exact (List.getElem?_eq_some_iff.mp h).1

theorem Published.lt {pubs : List (VersionID × α)} {k : Nat} {v : V} (h : Published c pubs k v) :
    k < pubs.length := (List.getElem?_eq_some_iff.mp h).1

theorem Uses.append {pubs : List (VersionID × α)} {processed : List (NeighborDataHandler V)} {j : TagID}
    {k m : Nat} (h : Uses c pubs processed j k m) (xs : List (VersionID × α)) :
    Uses c (pubs ++ xs) processed j k m := by
  obtain ⟨view, v, hv, hl, hp⟩ := h
  exact ⟨view, v, hv, hl, hp.append c xs⟩

theorem Uses.snoc {pubs : List (VersionID × α)} {processed : List (NeighborDataHandler V)} {j : TagID}
    {k m : Nat} (h : Uses c pubs processed j k m) (view : NeighborDataHandler V) :
    Uses c pubs (processed ++ [view]) j k m := by
  obtain ⟨view', v, hv, hl, hp⟩ := h
  exact ⟨view', v, by rw [List.getElem?_append_left (List.getElem?_eq_some_iff.mp hv).1]; exact hv, hl, hp⟩

end Net

/-! ## Inside a round -/

section Round
variable {V α P : Type}

/-- The value from `j` has been read in this round. -/
def Read (a : Agent V α P) (j : TagID) : Prop :=
  match a.pc with
  | .readUpdates k => j ∈ a.tags.take k
  | .processUpdates => True
  | _ => False

/-- The value from `j` has been waited for and not yet been read. -/
def Awaited (a : Agent V α P) (j : TagID) : Prop :=
  match a.pc with
  | .isReady ws => ∀ w ∈ ws, w.tag ≠ j
  | .countUpdates _ _ => True
  | .readUpdates k => j ∉ a.tags.take k
  | _ => False

theorem not_awaited {a : Agent V α P} {j : TagID} (h : a.pc.betweenRounds) : ¬ Awaited a j := by
  unfold Awaited
  cases hp : a.pc <;> simp_all [Pc.betweenRounds]

theorem not_read {a : Agent V α P} {j : TagID} (h : a.pc.betweenRounds) : ¬ Read a j := by
  unfold Read
  cases hp : a.pc <;> simp_all [Pc.betweenRounds]

theorem mem_of_mapM {f : TagID → Option Job.Waiter} : ∀ {ts : List TagID} {ws : List Job.Waiter},
    ts.mapM f = some ws → (∀ t ∈ ts, ∃ w ∈ ws, f t = some w) ∧ ∀ w ∈ ws, ∃ t, f t = some w
  | [], ws, h => by
    simp only [List.mapM_nil, Option.pure_def, Option.some.injEq] at h
    subst h; exact ⟨nofun, nofun⟩
  | t :: ts, ws, h => by
    simp only [List.mapM_cons, Option.pure_def, Option.bind_eq_bind, Option.bind_eq_some_iff,
      Option.some.injEq] at h
    obtain ⟨w, hw, ws', hws, rfl⟩ := h
    obtain ⟨h1, h2⟩ := mem_of_mapM hws
    refine ⟨fun t' ht => ?_, fun w' hw' => ?_⟩
    · rcases List.mem_cons.mp ht with rfl | ht
      · exact ⟨w, List.mem_cons_self, hw⟩
      · obtain ⟨w', hm, he⟩ := h1 t' ht
        exact ⟨w', List.mem_cons_of_mem _ hm, he⟩
    · rcases List.mem_cons.mp hw' with rfl | hw'
      · exact ⟨t, hw⟩
      · exact h2 w' hw'

theorem not_mem_take_of_getElem? {ts : List TagID} {t : TagID} {k : Nat} (hn : ts.Nodup)
    (h : ts[k]? = some t) : t ∉ ts.take k := by
  intro hm
  obtain ⟨m, hmk, he⟩ := List.mem_take_iff_getElem.mp hm
  obtain ⟨hk, hke⟩ := List.getElem?_eq_some_iff.mp h
  have := (List.Nodup.getElem_inj_iff hn).mp (he.trans hke.symm)
  omega

theorem mem_take_succ_self {ts : List TagID} {t : TagID} {k : Nat} (h : ts[k]? = some t) :
    t ∈ ts.take (k + 1) := by
  rw [List.take_add_one, h]
  simp

theorem mem_take_succ_iff {ts : List TagID} {t u : TagID} {k : Nat} (h : ts[k]? = some t) (hu : u ≠ t) :
    u ∈ ts.take (k + 1) ↔ u ∈ ts.take k := by
  rw [List.take_add_one, h]
  simp [hu]

end Round

/-! ## One agent -/

section Agent
variable {V α P : Type} [Typed α] (c : PubSubConverter V α) (T : Topology)

/-- The agent's publications are versioned in order. -/
structure Ledger (i : TagID) (a : Agent V α P) : Prop where
  producedTag : a.producedTag = i
  tags : a.tags = T.nbrs i
  version : (a.job.lastPublishedVersion.lookup i).getD tagNoData = versionAt a.published.length
  published : ∀ k, k < a.published.length → ∃ v, Published c a.published k v

/-- Publications and updates alternate. -/
structure Local (i : TagID) (a : Agent V α P) : Prop extends Ledger c T i a where
  idle : a.pc = .idle → a.published.length = 0 ∧ a.processed.length = 0
  alternate : a.pc ≠ .idle →
    a.published.length = a.processed.length + if a.pc = .publish then 0 else 1
  counted : ∀ k n, a.pc = .countUpdates k n → n = k

theorem Local.ahead {i : TagID} {a : Agent V α P} (h : Local c T i a) :
    a.published.length ≤ a.processed.length + 1 := by
  by_cases hi : a.pc = .idle
  · have := h.idle hi; omega
  · have := h.alternate hi
    split at this <;> omega

/-- The link from `j` to `a`: `d` publications were delivered, the `f`-th
was read last, and update `k` used publication `idx k`. -/
structure Edge (a : Agent V α P) (j : TagID) (pubs chan : List (VersionID × α)) (d f : Nat)
    (idx : Nat → Nat) : Prop where
  chan : chan = pubs.drop d
  delivered : d ≤ pubs.length
  fetched : f ≤ d
  info : ∃ cid b v, a.job.bufs.lookup j = some ⟨some b, c.expectedTypes, cid, .noError⟩ ∧
    b.Tracks d f v ∧ (d ≠ 0 → ∃ w, Published c pubs (d - 1) w ∧ v = some (c.convert w))
  waiters : ∀ ws, a.pc = .isReady ws → ∀ w ∈ ws, w.tag = j →
    (a.job.bufs.lookup j).map (·.connectionId) = some w.tagConnId
  value : f ≠ 0 → ∃ w, Published c pubs (f - 1) w ∧ a.neighborValues.lookup j = some w
  awaited : Awaited a j → f < d
  round : a.processed.length ≤ f
  read : Read a j → a.processed.length < f
  uses : ∀ k, k < a.processed.length → Uses c pubs a.processed j k (idx k)
  lower : ∀ k, k < a.processed.length → k ≤ idx k
  upper : ∀ k, k < a.processed.length → idx k ≤ k + 1
  before : ∀ k, k < a.processed.length → idx k < f ∧ (Read a j → idx k + 1 < f)
  increasing : ∀ k, k + 1 < a.processed.length → idx k < idx (k + 1)

variable {c} {T}

theorem Edge.hasData {a : Agent V α P} {j : TagID} {pubs chan : List (VersionID × α)} {d f : Nat}
    {idx : Nat → Nat} (h : Edge c a j pubs chan d f idx) (hd : d < 2 ^ 32) {has : Bool}
    (hh : a.job.hasData j = some has) : has = true ↔ f < d := by
  obtain ⟨cid, b, v, hi, ht, _⟩ := h.info
  rw [Job.hasData_eq hi rfl, Option.some.injEq] at hh
  rw [← hh]
  exact ht.hasData_iff h.fetched hd

theorem Edge.active {a : Agent V α P} {j : TagID} {pubs chan : List (VersionID × α)} {d f : Nat}
    {idx : Nat → Nat} (h : Edge c a j pubs chan d f idx) : a.job.tagHasActivePublisher j = true := by
  obtain ⟨cid, b, v, hi, _⟩ := h.info
  simp [Job.tagHasActivePublisher, hi]

/-- More publications on the link. -/
theorem Edge.publish {a : Agent V α P} {j : TagID} {pubs chan : List (VersionID × α)} {d f : Nat}
    {idx : Nat → Nat} (h : Edge c a j pubs chan d f idx) (xs : List (VersionID × α)) :
    Edge c a j (pubs ++ xs) (chan ++ xs) d f idx where
  chan := by rw [h.chan, List.drop_append_of_le_length h.delivered]
  delivered := by have := h.delivered; rw [List.length_append]; omega
  fetched := h.fetched
  info := by
    obtain ⟨cid, b, v, hi, ht, hv⟩ := h.info
    refine ⟨cid, b, v, hi, ht, fun h0 => ?_⟩
    obtain ⟨w, hw, he⟩ := hv h0
    exact ⟨w, hw.append c xs, he⟩
  waiters := h.waiters
  value h0 := by
    obtain ⟨w, hw, he⟩ := h.value h0
    exact ⟨w, hw.append c xs, he⟩
  awaited := h.awaited
  round := h.round
  read := h.read
  uses k hk := (h.uses k hk).append c xs
  lower := h.lower
  upper := h.upper
  before := h.before
  increasing := h.increasing

/-- A step that neither touches the subscription to `j` nor ends a round. -/
theorem Edge.step {a b : Agent V α P} {j : TagID} {pubs chan : List (VersionID × α)} {d f : Nat}
    {idx : Nat → Nat} (h : Edge c a j pubs chan d f idx)
    (hinfo : b.job.bufs.lookup j = a.job.bufs.lookup j)
    (hval : b.neighborValues.lookup j = a.neighborValues.lookup j) (hproc : b.processed = a.processed)
    (hw : ∀ ws, b.pc = .isReady ws → ∀ w ∈ ws, w.tag = j →
      (a.job.bufs.lookup j).map (·.connectionId) = some w.tagConnId)
    (haw : Awaited b j → f < d) (hread : Read b j → Read a j) : Edge c b j pubs chan d f idx where
  chan := h.chan
  delivered := h.delivered
  fetched := h.fetched
  info := by rw [hinfo]; exact h.info
  waiters := by rw [hinfo]; exact hw
  value := by rw [hval]; exact h.value
  awaited := haw
  round := by rw [hproc]; exact h.round
  read hr := by rw [hproc]; exact h.read (hread hr)
  uses := by rw [hproc]; exact h.uses
  lower := by rw [hproc]; exact h.lower
  upper := by rw [hproc]; exact h.upper
  before := by
    rw [hproc]
    exact fun k hk => ⟨(h.before k hk).1, fun hr => (h.before k hk).2 (hread hr)⟩
  increasing := by rw [hproc]; exact h.increasing

/-- A delivery on the link from `j`. -/
theorem Edge.deliver {a b : Agent V α P} {j : TagID} {pubs rest : List (VersionID × α)} {d f : Nat}
    {idx : Nat → Nat} {version : VersionID} {value : α} {M : Method V P}
    (hpub : ∀ k, k < pubs.length → ∃ v, Published c pubs k v) (hn : pubs.length < 2 ^ 32)
    (h : Edge c a j pubs ((version, value) :: rest) d f idx)
    (hb : L4.Iterative.step c M .synchronous a (.data j value version) = some b) :
    Edge c b j pubs rest (d + 1) f idx := by
  have hhead : pubs[d]? = some (version, value) := by
    have := congrArg List.head? h.chan
    simpa [List.head?_drop] using this.symm
  have hd : d < pubs.length := (List.getElem?_eq_some_iff.mp hhead).1
  obtain ⟨w, hw⟩ := hpub d hd
  have hx := hhead.symm.trans hw
  simp only [Option.some.injEq, Prod.mk.injEq] at hx
  obtain ⟨rfl, rfl⟩ := hx
  obtain ⟨cid, buf, v, hi, ht, _⟩ := h.info
  simp only [L4.Iterative.step, Option.map_eq_some_iff] at hb
  obtain ⟨⟨ok, job⟩, hjob, rfl⟩ := hb
  rw [Job.processData_accept _ hi rfl (c.types_convert w).symm, Option.some.injEq, Prod.mk.injEq] at hjob
  obtain ⟨_, rfl⟩ := hjob
  exact {
    chan := by
      have := congrArg List.tail h.chan
      simpa [List.tail_drop] using this
    delivered := hd
    fetched := by have := h.fetched; omega
    info := ⟨cid, _, _, Job.setInfo_self _ _ _, ht.add (by omega) _, fun _ => ⟨w, hw, rfl⟩⟩
    waiters := by
      intro ws hp w' hw' hj
      have := h.waiters ws hp w' hw' hj
      simpa [hi] using this
    value := h.value
    awaited := fun ha => by have := h.awaited ha; omega
    round := h.round
    read := h.read
    uses := h.uses
    lower := h.lower
    upper := h.upper
    before := h.before
    increasing := h.increasing }

/-! ### The agent's own steps -/

/-- Reading from `j` fetches the newest publication delivered. -/
theorem Edge.read_self {a : Agent V α P} {j : TagID} {pubs chan : List (VersionID × α)} {d f : Nat}
    {idx : Nat → Nat} (h : Edge c a j pubs chan d f idx) (hd : d < 2 ^ 32) {w : Job.Waiter} {value : α}
    {job : Job α} (hhas : a.job.hasData j = some true) (hw : a.job.getWaiter j = some w)
    (hg : a.job.getValue w = some (some value, job)) :
    ∃ cid b v, job = a.job.setInfo j ⟨some b, c.expectedTypes, cid, .noError⟩ ∧
      b.Tracks d d (some value) ∧ Published c pubs (d - 1) v ∧ value = c.convert v := by
  have hlt : f < d := (h.hasData hd hhas).mp rfl
  obtain ⟨cid, b, vo, hi, ht, hv⟩ := h.info
  obtain ⟨v, hpub, rfl⟩ := hv (by omega)
  obtain ⟨b', hb', ht'⟩ := ht.get hlt hd
  have hwt : w = ⟨j, cid⟩ := by
    simp only [Job.getWaiter, hi, Option.map_some, Option.some.injEq] at hw
    exact hw.symm
  subst hwt
  have := Job.getValue_eq (w := ⟨j, cid⟩) hi rfl ((ht.hasData_iff h.fetched hd).mpr hlt) hb'
  rw [this] at hg
  simp only [Option.some.injEq, Prod.mk.injEq] at hg
  obtain ⟨rfl, rfl⟩ := hg
  exact ⟨cid, b', v, rfl, ht', hpub, rfl⟩

/-- An update uses the publication that was read last. -/
theorem Edge.process {a : Agent V α P} {j : TagID} {pubs chan : List (VersionID × α)} {d f : Nat}
    {idx : Nat → Nat} {M : Method V P} (hub : d ≤ a.processed.length + 2) (h : Edge c a j pubs chan d f idx)
    (ha : a.pc = .processUpdates) :
    Edge c (processAllUpdates M .synchronous a) j pubs chan d f (Function.update idx a.processed.length (f - 1)) := by
  have hr : Read a j := by simp [Read, ha]
  have hlt := h.read hr
  have hf := h.fetched
  obtain ⟨v, hpub, hval⟩ := h.value (by omega)
  have hlen : (processAllUpdates M .synchronous a).processed.length = a.processed.length + 1 := by
    simp [processAllUpdates]
  -- what holds of an earlier update still does; the new one used publication `f - 1`
  have hcase : ∀ {Q : Nat → Nat → Prop}, (∀ k, k < a.processed.length → Q k (idx k)) →
      Q a.processed.length (f - 1) → ∀ k, k < (processAllUpdates M .synchronous a).processed.length →
      Q k (Function.update idx a.processed.length (f - 1) k) := by
    intro Q hold hnew k hk
    by_cases hkp : k = a.processed.length
    · subst hkp
      rw [Function.update_self]
      exact hnew
    · rw [Function.update_of_ne hkp]
      exact hold k (by omega)
  exact {
    chan := h.chan
    delivered := h.delivered
    fetched := h.fetched
    info := h.info
    waiters := nofun
    value := h.value
    awaited := nofun
    round := by rw [hlen]; exact hlt
    read := nofun
    uses := hcase (fun k hk => (h.uses k hk).snoc c _)
      ⟨neighborDataHandler a, v, by simp [processAllUpdates], hval, hpub⟩
    lower := hcase (Q := fun k m => k ≤ m) h.lower (by omega)
    upper := hcase (Q := fun k m => m ≤ k + 1) h.upper (by omega)
    before := fun k hk => ⟨hcase (Q := fun _ m => m < f) (fun k hk => (h.before k hk).1) (by omega) k hk,
      nofun⟩
    increasing := fun k hk => by
      have hk' : k < a.processed.length := by omega
      rw [Function.update_of_ne (by omega)]
      by_cases hkp : k + 1 = a.processed.length
      · rw [hkp, Function.update_self]
        have := (h.before k hk').2 hr
        omega
      · rw [Function.update_of_ne hkp]
        exact h.increasing k (by omega) }

/-- A step of the agent's loop, with its other links known to be in order
and the publisher at most one round ahead. -/
theorem Edge.tick {i : TagID} {a b : Agent V α P} {j : TagID} {pubs chan : List (VersionID × α)}
    {d f : Nat} {idx : Nat → Nat} {M : Method V P} (hL : Local c T i a) (hj : j ∈ T.nbrs i)
    (hA : ∀ t ∈ T.nbrs i, ∃ pubs chan d f idx, d < 2 ^ 32 ∧ Edge c a t pubs chan d f idx)
    (hd : d < 2 ^ 32) (hub : d ≤ a.processed.length + 2) (h : Edge c a j pubs chan d f idx)
    (hs : SyncStep c M a b) : ∃ f' idx', Edge c b j pubs chan d f' idx' := by
  have hmem : ∀ {k t}, a.tags[k]? = some t → t ∈ T.nbrs i := fun ht => hL.tags ▸ List.mem_of_getElem? ht
  cases hs with
  | control pc ha hb h0 =>
    exact ⟨f, idx, h.step rfl rfl rfl (fun ws hp => by cases hp; cases hb)
      (fun hw => absurd hw (not_awaited hb)) (fun hr => absurd hr (not_read hb))⟩
  | makeWaiters ws ha hws =>
    obtain ⟨hex, hof⟩ := mem_of_mapM hws
    refine ⟨f, idx, h.step rfl rfl rfl (fun ws' hp w hw hwj => ?_) (fun hw => ?_) nofun⟩
    · cases hp
      obtain ⟨t, ht⟩ := hof w hw
      simp only [Job.getWaiter, Option.map_eq_some_iff] at ht
      obtain ⟨info, hi, rfl⟩ := ht
      simp only at hwj
      subst hwj
      simp [hi]
    · -- the waiter for `j` is among them
      obtain ⟨w, hm, he⟩ := hex j (hL.tags ▸ hj)
      simp only [Job.getWaiter, Option.map_eq_some_iff] at he
      obtain ⟨info, _, rfl⟩ := he
      exact absurd rfl (hw _ hm)
  | timeOut ws ha => exact ⟨f, idx, h.step rfl rfl rfl nofun nofun nofun⟩
  | oneReady w ws ha hr =>
    refine ⟨f, idx, h.step rfl rfl rfl (fun ws' hp w' hw' => ?_) (fun hw => ?_) nofun⟩
    · cases hp
      exact h.waiters _ ha w' (List.mem_cons_of_mem _ hw')
    · by_cases hwj : w.tag = j
      · obtain ⟨cid, buf, v, hi, ht, _⟩ := h.info
        have hc := h.waiters _ ha w List.mem_cons_self hwj
        rw [hi] at hc
        simp only [Option.map_some, Option.some.injEq] at hc
        rw [Job.isReady_eq (hwj ▸ hi) rfl rfl hc.symm, Option.some.injEq] at hr
        exact (ht.hasData_iff h.fetched hd).mp hr
      · refine h.awaited ?_
        simp only [Awaited, ha]
        exact fun w' hw' => by
          rcases List.mem_cons.mp hw' with rfl | hw'
          · exact hwj
          · exact hw w' hw'
  | allReady ha =>
    exact ⟨f, idx, h.step rfl rfl rfl nofun (fun _ => h.awaited (by simp [Awaited, ha])) nofun⟩
  | dead k n tag ha ht hact =>
    obtain ⟨_, _, _, _, _, _, hE⟩ := hA tag (hmem ht)
    rw [hE.active] at hact
    cases hact
  | count k n tag has ha ht hh =>
    exact ⟨f, idx, h.step rfl rfl rfl nofun (fun _ => h.awaited (by simp [Awaited, ha])) nofun⟩
  | noUpdates k ha ht =>
    have hk := hL.counted k 0 ha
    rw [← hk, hL.tags] at ht
    have hne := List.getElem?_eq_none_iff.mp ht
    have := List.length_pos_of_mem hj
    omega
  | counted k n ha hn ht =>
    refine ⟨f, idx, h.step rfl rfl rfl nofun (fun _ => h.awaited (by simp [Awaited, ha])) (fun hr => ?_)⟩
    simp [Read] at hr
  | pass k tag ha ht hh =>
    obtain ⟨_, _, d', f', _, hd', hE⟩ := hA tag (hmem ht)
    have haw : Awaited a tag := by
      simp only [Awaited, ha]
      exact not_mem_take_of_getElem? (hL.tags ▸ T.nodup i) ht
    exact absurd ((hE.hasData hd' hh).mpr (hE.awaited haw)) nofun
  | read k tag w value job ha ht hh hw hg =>
    obtain ⟨_, _, d', f', _, hd', hE⟩ := hA tag (hmem ht)
    by_cases htj : tag = j
    · subst htj
      obtain ⟨cid, buf, v, rfl, htr, hpub, rfl⟩ := h.read_self hd hh hw hg
      have hlt : f < d := (h.hasData hd hh).mp rfl
      exact ⟨d, idx, {
        chan := h.chan
        delivered := h.delivered
        fetched := le_refl d
        info := ⟨cid, buf, _, Job.setInfo_self _ _ _, htr, fun _ => ⟨v, hpub, rfl⟩⟩
        waiters := nofun
        value := fun _ => ⟨v, hpub, by rw [AList.lookup_insert, c.deconvert_convert]⟩
        awaited := fun haw => absurd (mem_take_succ_self ht) haw
        round := le_trans h.round h.fetched
        read := fun _ => lt_of_le_of_lt h.round hlt
        uses := h.uses
        lower := h.lower
        upper := h.upper
        before := fun m hm => by have := (h.before m hm).1; exact ⟨by omega, fun _ => by omega⟩
        increasing := h.increasing }⟩
    · obtain ⟨cid, buf, v, rfl, _⟩ := hE.read_self hd' hh hw hg
      have hne : j ≠ tag := Ne.symm htj
      refine ⟨f, idx, h.step (Job.setInfo_of_ne _ _ hne) (AList.lookup_insert_ne hne) rfl nofun
        (fun haw => h.awaited ?_) (fun hr => ?_)⟩
      · simp only [Awaited, ha]
        exact fun hm => haw ((mem_take_succ_iff ht hne).mpr hm)
      · simp only [Read, ha]
        exact (mem_take_succ_iff ht hne).mp hr
  | allRead k ha ht =>
    refine ⟨f, idx, h.step rfl rfl rfl nofun nofun (fun _ => ?_)⟩
    simp only [Read, ha]
    rw [List.take_of_length_le (List.getElem?_eq_none_iff.mp ht), hL.tags]
    exact hj
  | process ha => exact ⟨f, _, h.process hub ha⟩
  | publish v policies b ha hsub =>
    obtain ⟨job, version, _, rfl, hfr, _⟩ := submitValues_eq c hsub
    have hne : j ≠ a.producedTag := fun he => T.irrefl i (by
      rw [hL.producedTag] at he
      exact he ▸ hj)
    exact ⟨f, idx, h.step (hfr j hne) rfl rfl nofun nofun nofun⟩

/-- A step that neither updates nor publishes. -/
theorem Local.step {i : TagID} {a b : Agent V α P} (h : Local c T i a) (ht : b.tags = a.tags)
    (hp : b.producedTag = a.producedTag) (hv : b.job.lastPublishedVersion = a.job.lastPublishedVersion)
    (hpub : b.published = a.published) (hproc : b.processed = a.processed)
    (hidle : b.pc = .idle ↔ a.pc = .idle) (hpc : b.pc = .publish ↔ a.pc = .publish)
    (hc : ∀ k n, b.pc = .countUpdates k n → n = k) : Local c T i b where
  toLedger := ⟨hp.trans h.producedTag, ht.trans h.tags, by rw [hv, hpub]; exact h.version,
    by rw [hpub]; exact h.published⟩
  idle hi := by rw [hpub, hproc]; exact h.idle (hidle.mp hi)
  alternate hi := by
    rw [hpub, hproc]
    simp only [hpc]
    exact h.alternate fun hn => hi (hidle.mpr hn)
  counted := hc

theorem Ledger.submit {i : TagID} {a b : Agent V α P} {v : V} (h : Ledger c T i a)
    (hs : submitValues c a v = some b) : Ledger c T i b ∧ b.processed = a.processed ∧ b.pc = a.pc ∧
      b.published.length = a.published.length + 1 := by
  obtain ⟨job, version, hv, rfl, _, hl⟩ := submitValues_eq c hs
  rw [h.producedTag] at hv hl
  rw [h.version, versionAt_add_one] at hv
  subst hv
  have hlen : (a.published ++ [(versionAt (a.published.length + 1), c.convert v)]).length =
      a.published.length + 1 := by simp
  refine ⟨⟨h.producedTag, h.tags, ?_, fun k hk => ?_⟩, rfl, rfl, hlen⟩
  · rw [hl, Option.getD_some, hlen]
  · rw [hlen] at hk
    by_cases hkl : k < a.published.length
    · obtain ⟨w, hw⟩ := h.published k hkl
      exact ⟨w, hw.append c _⟩
    · obtain rfl : k = a.published.length := by omega
      exact ⟨v, by simp [Published]⟩

theorem Local.tick {i : TagID} {a b : Agent V α P} {M : Method V P} (hL : Local c T i a)
    (hA : ∀ t ∈ T.nbrs i, ∃ pubs chan d f idx, d < 2 ^ 32 ∧ Edge c a t pubs chan d f idx)
    (h0 : a.pc ≠ .idle) (hs : SyncStep c M a b) : Local c T i b := by
  have hmem : ∀ {k t}, a.tags[k]? = some t → t ∈ T.nbrs i := fun ht => hL.tags ▸ List.mem_of_getElem? ht
  -- steps from one program point to another, neither of them `publish`
  have hstep : ∀ {b : Agent V α P}, b.tags = a.tags → b.producedTag = a.producedTag →
      b.job.lastPublishedVersion = a.job.lastPublishedVersion → b.published = a.published →
      b.processed = a.processed → b.pc ≠ .idle → b.pc ≠ .publish → a.pc ≠ .publish →
      (∀ k n, b.pc = .countUpdates k n → n = k) → Local c T i b :=
    fun ht hp hv hpub hproc hi hb ha hc =>
      hL.step ht hp hv hpub hproc (iff_of_false hi h0) (iff_of_false hb ha) hc
  cases hs with
  | control pc ha hb hi =>
    exact hstep rfl rfl rfl rfl rfl hi (fun hp => by cases hp; cases hb) (fun hp => by rw [hp] at ha; cases ha)
      (fun k n hp => by cases hp; cases hb)
  | makeWaiters ws ha hws =>
    exact hstep rfl rfl rfl rfl rfl nofun nofun (fun hp => by rw [hp] at ha; cases ha) nofun
  | timeOut ws ha => exact hstep rfl rfl rfl rfl rfl nofun nofun (by rw [ha]; exact nofun) nofun
  | oneReady w ws ha hr => exact hstep rfl rfl rfl rfl rfl nofun nofun (by rw [ha]; exact nofun) nofun
  | allReady ha =>
    exact hstep rfl rfl rfl rfl rfl nofun nofun (by rw [ha]; exact nofun) (fun k n hp => by cases hp; rfl)
  | dead k n tag ha ht hact =>
    obtain ⟨_, _, _, _, _, _, hE⟩ := hA tag (hmem ht)
    rw [hE.active] at hact
    cases hact
  | count k n tag has ha ht hh =>
    obtain ⟨_, _, d', f', _, hd', hE⟩ := hA tag (hmem ht)
    have hhas : has = true := (hE.hasData hd' hh).mpr (hE.awaited (by simp [Awaited, ha]))
    subst hhas
    refine hstep rfl rfl rfl rfl rfl nofun nofun (by rw [ha]; exact nofun) (fun k' n' hp => ?_)
    cases hp
    rw [if_pos rfl, hL.counted k n ha]
  | noUpdates k ha ht => exact hstep rfl rfl rfl rfl rfl nofun nofun (by rw [ha]; exact nofun) nofun
  | counted k n ha hn ht => exact hstep rfl rfl rfl rfl rfl nofun nofun (by rw [ha]; exact nofun) nofun
  | pass k tag ha ht hh => exact hstep rfl rfl rfl rfl rfl nofun nofun (by rw [ha]; exact nofun) nofun
  | read k tag w value job ha ht hh hw hg =>
    obtain ⟨_, _, d', f', _, hd', hE⟩ := hA tag (hmem ht)
    obtain ⟨cid, buf, v, rfl, _⟩ := hE.read_self hd' hh hw hg
    exact hstep rfl rfl rfl rfl rfl nofun nofun (by rw [ha]; exact nofun) nofun
  | allRead k ha ht => exact hstep rfl rfl rfl rfl rfl nofun nofun (by rw [ha]; exact nofun) nofun
  | process ha =>
    have halt := hL.alternate h0
    rw [ha, if_neg nofun] at halt
    exact {
      toLedger := ⟨hL.producedTag, hL.tags, hL.version, hL.published⟩
      idle := nofun
      alternate := fun _ => by simp [processAllUpdates, halt]
      counted := nofun }
  | publish v policies b ha hsub =>
    have halt := hL.alternate h0
    rw [ha, if_pos rfl] at halt
    have hledger : Ledger c T i { a with policies := policies, publishValues := v, pc := .stopPolicy } :=
      ⟨hL.producedTag, hL.tags, hL.version, hL.published⟩
    obtain ⟨hl, hproc, hpc, hlen⟩ := hledger.submit hsub
    have hpc' : b.pc = .stopPolicy := hpc
    have hlen' : b.published.length = a.published.length + 1 := hlen
    refine ⟨hl, ?_, fun _ => ?_, ?_⟩
    · rw [hpc']; exact nofun
    · rw [hpc', hlen', halt, show b.processed = a.processed from hproc]; rfl
    · rw [hpc']; exact nofun

theorem Local.run {i : TagID} {a b : Agent V α P} (hL : Local c T i a) (h0 : a.pc = .idle)
    (h : startRun c a = some b) : Local c T i b := by
  obtain ⟨x, hx, rfl⟩ := Option.map_eq_some_iff.mp h
  obtain ⟨hl, hproc, _, hlen⟩ := hL.toLedger.submit hx
  obtain ⟨hn, hp⟩ := hL.idle h0
  exact ⟨⟨hl.producedTag, hl.tags, hl.version, hl.published⟩, nofun,
    fun _ => by simp only [hlen, hproc, hn, hp]; rfl, nofun⟩

theorem Edge.run {i : TagID} {a b : Agent V α P} {j : TagID} {pubs chan : List (VersionID × α)}
    {d f : Nat} {idx : Nat → Nat} (hL : Local c T i a) (hj : j ∈ T.nbrs i)
    (h : Edge c a j pubs chan d f idx) (hr : startRun c a = some b) : Edge c b j pubs chan d f idx := by
  obtain ⟨x, hx, rfl⟩ := Option.map_eq_some_iff.mp hr
  obtain ⟨job, version, _, rfl, hfr, _⟩ := submitValues_eq c hx
  have hne : j ≠ a.producedTag := by
    rw [hL.producedTag]
    exact fun he => T.irrefl i (he ▸ hj)
  exact h.step (hfr j hne) rfl rfl nofun nofun nofun

theorem not_publish {pc : Pc} (h : pc.betweenRounds) : pc ≠ .publish := fun hp => by rw [hp] at h; cases h

theorem Local.eval {i : TagID} {a b : Agent V α P} {answer : Bool} (hL : Local c T i a)
    (h : evalStopPolicy a answer = some b) : Local c T i b := by
  obtain ⟨ha, ha0, flag, pc, hb, hb0, rfl⟩ := evalStopPolicy_eq h
  exact hL.step rfl rfl rfl rfl rfl (iff_of_false hb0 ha0)
    (iff_of_false (not_publish hb) (not_publish ha)) (fun k n hp => by cases hp; cases hb)

theorem Edge.eval {a b : Agent V α P} {j : TagID} {pubs chan : List (VersionID × α)} {d f : Nat}
    {idx : Nat → Nat} {answer : Bool} (h : Edge c a j pubs chan d f idx)
    (hs : evalStopPolicy a answer = some b) : Edge c b j pubs chan d f idx := by
  obtain ⟨_, _, flag, pc, hb, _, rfl⟩ := evalStopPolicy_eq hs
  exact h.step rfl rfl rfl (fun ws hp => by cases hp; cases hb) (fun hw => absurd hw (not_awaited hb))
    (fun hr => absurd hr (not_read hb))

/-- A step of the agent only ever adds publications. -/
theorem syncStep_published {a b : Agent V α P} {M : Method V P} (hs : SyncStep c M a b) :
    ∃ xs, b.published = a.published ++ xs := by
  cases hs with
  | publish v policies b ha hsub =>
    obtain ⟨job, version, _, rfl, _⟩ := submitValues_eq c hsub
    exact ⟨_, rfl⟩
  | _ => exact ⟨[], (List.append_nil _).symm⟩

theorem startRun_published {a b : Agent V α P} (h : startRun c a = some b) :
    ∃ xs, b.published = a.published ++ xs := by
  obtain ⟨x, hx, rfl⟩ := Option.map_eq_some_iff.mp h
  obtain ⟨job, version, _, rfl, _⟩ := submitValues_eq c hx
  exact ⟨_, rfl⟩

end Agent

/-! ## The network -/

section Act
variable {V α P : Type} {T : Topology}

/-- Nothing is sent between agents that are not neighbours. -/
def Quiet (T : Topology) (s : Net V α P) : Prop := ∀ j i, j ∉ T.nbrs i → s.chan j i = []

theorem quiet_act {s : Net V α P} {i : TagID} {b : Agent V α P} (h : Quiet T s) : Quiet T (act T s i b) := by
  intro x y hxy
  have hne : ¬ (x = i ∧ y ∈ T.nbrs i) := fun he => hxy (by rw [he.1]; exact T.symm he.2)
  simp only [act, if_neg hne]
  exact h x y hxy

theorem act_published {s : Net V α P} {i : TagID} {b : Agent V α P}
    (h : ∃ xs, b.published = (s.agent i).published ++ xs) (x : TagID) :
    (s.agent x).published.length ≤ ((act T s i b).agent x).published.length := by
  obtain ⟨xs, hxs⟩ := h
  by_cases hxi : x = i
  · subst hxi
    simp [act, hxs]
  · simp [act, Function.update_of_ne hxi]

end Act

section Run
variable {V α P : Type} [Typed α] {c : PubSubConverter V α} {M : TagID → Method V P} {T : Topology}

/-- Versions are below the value that marks an empty buffer. -/
def Bounded (s : Net V α P) : Prop := ∀ i, (s.agent i).published.length < 2 ^ 32

structure Inv (c : PubSubConverter V α) (T : Topology) (s : Net V α P) : Prop where
  agents : ∀ i, Local c T i (s.agent i)
  edges : ∀ i j, j ∈ T.nbrs i → ∃ d f idx,
    Edge c (s.agent i) j (s.agent j).published (s.chan j i) d f idx

/-- A neighbour is at most one publication ahead: it has read, in every
round, something it had not read before. -/
theorem Inv.ahead {s : Net V α P} (hI : Inv c T s) {i j : TagID} (hj : j ∈ T.nbrs i) :
    (s.agent j).published.length ≤ (s.agent i).processed.length + 2 := by
  obtain ⟨d, f, idx, hE⟩ := hI.edges j i (T.symm hj)
  have h1 := (hI.agents j).ahead
  have h2 := (hI.agents i).ahead
  have h3 := hE.round
  have h4 := hE.fetched
  have h5 := hE.delivered
  omega

/-- Agent `i` has become `b`. -/
theorem inv_act {s : Net V α P} {i : TagID} {b : Agent V α P} (hI : Inv c T s) (hL : Local c T i b)
    (hx : ∃ xs, b.published = (s.agent i).published ++ xs)
    (hE : ∀ j ∈ T.nbrs i, ∀ d f idx,
      Edge c (s.agent i) j (s.agent j).published (s.chan j i) d f idx →
      ∃ d f idx, Edge c b j (s.agent j).published (s.chan j i) d f idx) : Inv c T (act T s i b) := by
  obtain ⟨xs, hxs⟩ := hx
  refine ⟨fun x => ?_, fun x y hy => ?_⟩
  · by_cases hxi : x = i
    · subst hxi
      simp only [act, Function.update_self]
      exact hL
    · simp only [act, Function.update_of_ne hxi]
      exact hI.agents x
  · obtain ⟨d, f, idx, he⟩ := hI.edges x y hy
    by_cases hyi : y = i
    · -- `x` reads `i`
      subst hyi
      have hxy : x ≠ y := fun h => T.irrefl y (by rw [h] at hy; exact hy)
      simp only [act, Function.update_self, Function.update_of_ne hxy, T.symm hy, and_self, if_true, hxs,
        List.drop_left]
      exact ⟨d, f, idx, he.publish xs⟩
    · by_cases hxi : x = i
      · subst hxi
        simp only [act, Function.update_self, Function.update_of_ne hyi, hyi, false_and, if_false]
        exact hE y hy d f idx he
      · simp only [act, Function.update_of_ne hxi, Function.update_of_ne hyi, hyi, false_and, if_false]
        exact ⟨d, f, idx, he⟩

/-- `i` handles the first message on the link from `j`. -/
theorem inv_deliver {s t : Net V α P} {j i : TagID} (hI : Inv c T s) (hB : Bounded s) (hj : j ∈ T.nbrs i)
    (h : deliver c M s j i = some t) : Inv c T t := by
  unfold deliver at h
  split at h
  · cases h
  · rename_i version value rest hch
    obtain ⟨b, hb, rfl⟩ := Option.map_eq_some_iff.mp h
    have hb' := hb
    simp only [L4.Iterative.step, Option.map_eq_some_iff] at hb'
    obtain ⟨⟨ok, job⟩, hjob, rfl⟩ := hb'
    obtain ⟨hfr, hlv⟩ := Job.processData_frame hjob
    refine ⟨fun x => ?_, fun x y hy => ?_⟩
    · by_cases hxi : x = i
      · subst hxi
        simp only [Function.update_self]
        exact (hI.agents x).step rfl rfl hlv rfl rfl Iff.rfl Iff.rfl (hI.agents x).counted
      · simp only [Function.update_of_ne hxi]
        exact hI.agents x
    · obtain ⟨d, f, idx, he⟩ := hI.edges x y hy
      -- the publications of `y` are what they were
      have hpub : (Function.update s.agent i { s.agent i with job := job } y).published =
          (s.agent y).published := by
        by_cases hyi : y = i
        · subst hyi; simp
        · rw [Function.update_of_ne hyi]
      rw [hpub]
      by_cases hxi : x = i
      · subst hxi
        simp only [Function.update_self]
        by_cases hyj : y = j
        · subst hyj
          rw [hch] at he
          simp only [and_self, if_true]
          exact ⟨d + 1, f, idx, he.deliver (hI.agents y).published (hB y) hb⟩
        · simp only [hyj, false_and, if_false]
          have hinfo := hfr y hyj
          exact ⟨d, f, idx, he.step hinfo rfl rfl he.waiters he.awaited id⟩
      · simp only [Function.update_of_ne hxi, hxi, and_false, if_false]
        exact ⟨d, f, idx, he⟩

theorem inv_step {s t : Net V α P} {l : Lbl} (hI : Inv c T s) (hB : Bounded s) (hQ : Quiet T s)
    (h : step c M T s l = some t) : Inv c T t := by
  have hlt : ∀ i, ∀ j ∈ T.nbrs i, ∀ d f idx,
      Edge c (s.agent i) j (s.agent j).published (s.chan j i) d f idx → d < 2 ^ 32 := by
    intro i j hj d f idx he
    exact lt_of_le_of_lt he.delivered (hB j)
  cases l with
  | run i =>
    simp only [step] at h
    split at h
    · rename_i h0
      obtain ⟨b, hb, rfl⟩ := Option.map_eq_some_iff.mp h
      simp only [L4.Iterative.step, h0, true_or, if_true] at hb
      exact inv_act hI ((hI.agents i).run h0 hb) (startRun_published hb)
        fun j hj d f idx he => ⟨d, f, idx, he.run (hI.agents i) hj hb⟩
    · cases h
  | tick i =>
    obtain ⟨b, hb, rfl⟩ := Option.map_eq_some_iff.mp h
    have hs := syncStep_of_runStep c (M i) hb
    have h0 := (runStep_ticks c (M i) .synchronous hb).entered
    have hA : ∀ t ∈ T.nbrs i, ∃ pubs chan d f idx, d < 2 ^ 32 ∧ Edge c (s.agent i) t pubs chan d f idx := by
      intro t ht
      obtain ⟨d, f, idx, he⟩ := hI.edges i t ht
      exact ⟨_, _, d, f, idx, hlt i t ht d f idx he, he⟩
    refine inv_act hI ((hI.agents i).tick hA h0 hs) (syncStep_published hs) fun j hj d f idx he => ?_
    obtain ⟨f', idx', he'⟩ := he.tick (hI.agents i) hj hA (hlt i j hj d f idx he)
      (le_trans he.delivered (hI.ahead hj)) hs
    exact ⟨d, f', idx', he'⟩
  | stop i answer =>
    obtain ⟨b, hb, rfl⟩ := Option.map_eq_some_iff.mp h
    obtain ⟨_, _, _, _, _, _, hbe⟩ := evalStopPolicy_eq hb
    exact inv_act hI ((hI.agents i).eval hb) ⟨[], by rw [hbe]; exact (List.append_nil _).symm⟩
      fun j hj d f idx he => ⟨d, f, idx, he.eval hb⟩
  | deliver j i =>
    by_cases hj : j ∈ T.nbrs i
    · exact inv_deliver hI hB hj h
    · simp [step, deliver, hQ j i hj] at h

/-! ### The start -/

theorem fresh_tags {i : TagID} {a : Agent V α P} (h : Fresh c M T i a) : a.tags = T.nbrs i := by
  obtain ⟨job, p, rfl, _, hj⟩ := h
  refine List.filter_eq_self.mpr fun t ht => ?_
  obtain ⟨cid, hi⟩ := hj t ht
  simp [Job.tagHasActivePublisher, hi]

theorem fresh_local {i : TagID} {a : Agent V α P} (h : Fresh c M T i a) : Local c T i a := by
  have ht := fresh_tags h
  obtain ⟨job, p, rfl, hv, _⟩ := h
  have hver : (job.lastPublishedVersion.lookup i).getD tagNoData = versionAt 0 := by rw [hv]; rfl
  exact ⟨⟨rfl, ht, hver, nofun⟩, fun _ => ⟨rfl, rfl⟩, fun hp => absurd rfl hp, nofun⟩

theorem fresh_edge {i j : TagID} {a : Agent V α P} (h : Fresh c M T i a) (hj : j ∈ T.nbrs i) :
    Edge c a j [] [] 0 0 id := by
  obtain ⟨job, p, rfl, _, hsub⟩ := h
  obtain ⟨cid, hi⟩ := hsub j hj
  exact {
    chan := rfl
    delivered := le_refl 0
    fetched := le_refl 0
    info := ⟨cid, {}, none, hi, DiscardOldVersionTagBuffer.tracks_empty, fun h0 => absurd rfl h0⟩
    waiters := nofun
    value := fun h0 => absurd rfl h0
    awaited := nofun
    round := le_refl 0
    read := nofun
    uses := nofun
    lower := nofun
    upper := nofun
    before := nofun
    increasing := nofun }

theorem inv_init {s : Net V α P} (h : init c M T s) : Inv c T s := by
  refine ⟨fun i => fresh_local (h.1 i), fun i j hj => ⟨0, 0, id, ?_⟩⟩
  have hpub : (s.agent j).published = [] := by
    obtain ⟨job, p, he, _⟩ := h.1 j
    rw [he]; rfl
  rw [hpub, h.2 j i]
  exact fresh_edge (h.1 i) hj

/-! ### Every run -/

theorem quiet_step {s t : Net V α P} {l : Lbl} (hQ : Quiet T s) (h : step c M T s l = some t) :
    Quiet T t := by
  cases l with
  | run i =>
    simp only [step] at h
    split at h
    · obtain ⟨b, _, rfl⟩ := Option.map_eq_some_iff.mp h
      exact quiet_act hQ
    · cases h
  | tick i =>
    obtain ⟨b, _, rfl⟩ := Option.map_eq_some_iff.mp h
    exact quiet_act hQ
  | stop i answer =>
    obtain ⟨b, _, rfl⟩ := Option.map_eq_some_iff.mp h
    exact quiet_act hQ
  | deliver j i =>
    simp only [step, deliver] at h
    split at h
    · cases h
    · rename_i version value rest hch
      obtain ⟨b, _, rfl⟩ := Option.map_eq_some_iff.mp h
      intro x y hxy
      by_cases he : x = j ∧ y = i
      · obtain ⟨rfl, rfl⟩ := he
        rw [hQ x y hxy] at hch
        cases hch
      · simp only [if_neg he]
        exact hQ x y hxy

theorem bounded_step {s t : Net V α P} {l : Lbl} (h : step c M T s l = some t) (hB : Bounded t) :
    Bounded s := by
  have hle : ∀ x, (s.agent x).published.length ≤ (t.agent x).published.length := by
    cases l with
    | run i =>
      simp only [step] at h
      split at h
      · rename_i h0
        obtain ⟨b, hb, rfl⟩ := Option.map_eq_some_iff.mp h
        simp only [L4.Iterative.step, h0, true_or, if_true] at hb
        exact act_published (startRun_published hb)
      · cases h
    | tick i =>
      obtain ⟨b, hb, rfl⟩ := Option.map_eq_some_iff.mp h
      exact act_published (syncStep_published (syncStep_of_runStep c (M i) hb))
    | stop i answer =>
      obtain ⟨b, hb, rfl⟩ := Option.map_eq_some_iff.mp h
      obtain ⟨_, _, _, _, _, _, hbe⟩ := evalStopPolicy_eq hb
      exact act_published ⟨[], by rw [hbe]; exact (List.append_nil _).symm⟩
    | deliver j i =>
      simp only [step, deliver] at h
      split at h
      · cases h
      · obtain ⟨b, hb, rfl⟩ := Option.map_eq_some_iff.mp h
        simp only [L4.Iterative.step, Option.map_eq_some_iff] at hb
        obtain ⟨r, _, rfl⟩ := hb
        intro x
        by_cases hxi : x = i
        · subst hxi; simp
        · simp [Function.update_of_ne hxi]
  exact fun x => lt_of_le_of_lt (hle x) (hB x)

/-- The agent that takes the step, or receives the message. -/
def Lbl.actor : Lbl → TagID
  | .run i | .tick i | .stop i _ | .deliver _ i => i

theorem step_agent_of_ne {s t : Net V α P} {l : Lbl} {x : TagID} (h : step c M T s l = some t)
    (hx : x ≠ l.actor) : t.agent x = s.agent x := by
  cases l with
  | run i =>
    simp only [step] at h
    split at h
    · obtain ⟨b, _, rfl⟩ := Option.map_eq_some_iff.mp h
      exact Function.update_of_ne hx _ _
    · cases h
  | tick i =>
    obtain ⟨b, _, rfl⟩ := Option.map_eq_some_iff.mp h
    exact Function.update_of_ne hx _ _
  | stop i answer =>
    obtain ⟨b, _, rfl⟩ := Option.map_eq_some_iff.mp h
    exact Function.update_of_ne hx _ _
  | deliver j i =>
    simp only [step, deliver] at h
    split at h
    · cases h
    · obtain ⟨b, _, rfl⟩ := Option.map_eq_some_iff.mp h
      exact Function.update_of_ne hx _ _

theorem exec_agent_of_ne {x : TagID} : ∀ {s t : Net V α P} {ls : List Lbl},
    LTS.exec (step c M T) s ls = some t → (∀ l ∈ ls, x ≠ l.actor) → t.agent x = s.agent x
  | s, t, [], h, _ => by
    simp only [LTS.exec, Option.some.injEq] at h
    rw [h]
  | s, t, l :: ls, h, hx => by
    simp only [LTS.exec, Option.bind_eq_some_iff] at h
    obtain ⟨u, hu, ht⟩ := h
    rw [exec_agent_of_ne ht fun l' hl => hx l' (List.mem_cons_of_mem _ hl),
      step_agent_of_ne hu (hx l List.mem_cons_self)]

theorem inv_inductive : (lts c M T).Inductive fun s => Quiet T s ∧ (Bounded s → Inv c T s) where
  init := fun _ h => ⟨fun j i _ => h.2 j i, fun _ => inv_init h⟩
  step := fun _ _ _ hI h =>
    ⟨quiet_step hI.1 h, fun hB => inv_step (hI.2 (bounded_step h hB)) (bounded_step h hB) hI.1 h⟩

/-- **Rounds stay in step.** Update `k` of an agent uses publication `k` or
`k + 1` of each neighbour, and no publication twice. -/
theorem lockstep {s : Net V α P} (h : (lts c M T).Reachable s) (hB : Bounded s) {i j : TagID}
    (hj : j ∈ T.nbrs i) : ∃ idx : Nat → Nat,
      (∀ k, k < (s.agent i).processed.length → (idx k = k ∨ idx k = k + 1) ∧
        Uses c (s.agent j).published (s.agent i).processed j k (idx k)) ∧
      ∀ k, k + 1 < (s.agent i).processed.length → idx k < idx (k + 1) := by
  obtain ⟨d, f, idx, he⟩ := (((inv_inductive).reachable s h).2 hB).edges i j hj
  refine ⟨idx, fun k hk => ⟨?_, he.uses k hk⟩, he.increasing⟩
  have h1 := he.lower k hk
  have h2 := he.upper k hk
  omega

end Run

/-! ## Two agents, one of them slow -/

def agentA : TagID := ['p', 'a']
def agentB : TagID := ['p', 'b']

def pair : Topology where
  nbrs i := if i = agentA then [agentB] else if i = agentB then [agentA] else []
  nodup i := by split <;> [simp; split <;> simp]
  symm := by
    intro i j h
    split at h
    · rename_i hi
      simp only [List.mem_singleton] at h
      subst h hi
      decide
    · split at h
      · rename_i hi
        simp only [List.mem_singleton] at h
        subst h hi
        decide
      · cases h
  irrefl i := by
    split
    · rename_i hi; subst hi; decide
    · split
      · rename_i hi; subst hi; decide
      · exact nofun

/-- Publishes 0, 1, 2 and so on. -/
def countMethod : Method Nat Unit where
  gatherInitialPublications _ := 0
  processAllUpdates _ _ := ()
  gatherDataForPublication v _ := (v + 1, ())
  publishPolicy _ _ _ := (true, ())
  handleDeadNeighbor _ _ _ _ := ()

def pairJob (i : TagID) : Job Nat where
  bufs := (pair.nbrs i).foldr (fun j m => m.insert j ⟨some {}, [], 0, .noError⟩) ∅
  lastPublishedVersion := ∅
  tagsProduced := (∅ : AList fun _ : TagID => List UInt8).insert i []

def pairStart : Net Nat Nat Unit where
  agent i := create countMethod (pairJob i) i (pair.nbrs i) ()
  chan _ _ := []

/-- `agentA` takes its first round and publishes again before `agentB` looks
at what it has. -/
def pairRun : List Lbl :=
  [.run agentA, .run agentB, .deliver agentB agentA] ++ List.replicate 10 (.tick agentA) ++
    [.deliver agentA agentB, .deliver agentA agentB] ++ List.replicate 9 (.tick agentB)

theorem pairStart_init : init plainConverter (fun _ => countMethod) pair pairStart := by
  refine ⟨fun i => ⟨pairJob i, (), rfl, rfl, fun j hj => ⟨0, ?_⟩⟩, fun _ _ => rfl⟩
  simp only [pair] at hj
  split at hj
  · rename_i hi
    simp only [List.mem_singleton] at hj
    subst hj hi; rfl
  · split at hj
    · rename_i hi
      simp only [List.mem_singleton] at hj
      subst hj hi; rfl
    · cases hj

/-- In its first update `agentB` uses the second publication of `agentA`. -/
theorem pairRun_ends : ∃ s, LTS.exec (step plainConverter (fun _ => countMethod) pair) pairStart pairRun = some s ∧
    (s.agent agentA).published = [(0, 0), (1, 1)] ∧ (s.agent agentB).published = [(0, 0)] ∧
      ∃ view, (s.agent agentB).processed = [view] ∧ view.neighborValues.lookup agentA = some 1 :=
  ⟨_, rfl, rfl, rfl, _, rfl, rfl⟩

/-- The first update does not use the first publication. -/
theorem round_skipped : ∃ s : Net Nat Nat Unit,
    (lts plainConverter (fun _ => countMethod) pair).Reachable s ∧
      ¬ ∀ i, ∀ j ∈ pair.nbrs i, ∀ k, k < (s.agent i).processed.length →
        Uses plainConverter (s.agent j).published (s.agent i).processed j k k := by
  obtain ⟨s, hs, hA, hB, view, hp, hv⟩ := pairRun_ends
  refine ⟨s, LTS.reachable_of_exec pairStart_init hs, fun hall => ?_⟩
  obtain ⟨view', v, hview, hval, hpub⟩ := hall agentB agentA (by decide) 0 (by rw [hp]; exact Nat.one_pos)
  rw [hp] at hview
  cases hview
  rw [hv] at hval
  cases hval
  rw [hA] at hpub
  exact absurd hpub (by unfold Published; decide)

theorem lockstep_pair : ∃ s : Net Nat Nat Unit,
    (lts plainConverter (fun _ => countMethod) pair).Reachable s ∧
      (s.agent agentB).processed.length = 1 ∧ ∃ idx : Nat → Nat,
        (∀ k, k < (s.agent agentB).processed.length → (idx k = k ∨ idx k = k + 1) ∧
          Uses plainConverter (s.agent agentA).published (s.agent agentB).processed agentA k (idx k)) ∧
        ∀ k, k + 1 < (s.agent agentB).processed.length → idx k < idx (k + 1) := by
  obtain ⟨s, hs, hA, hB, view, hp, _⟩ := pairRun_ends
  have hr := LTS.reachable_of_exec pairStart_init hs
  have hbound : Bounded s := by
    intro i
    by_cases hiA : i = agentA
    · rw [hiA, hA]; decide
    · by_cases hiB : i = agentB
      · rw [hiB, hB]; decide
      · have hact : ∀ l ∈ pairRun, l.actor = agentA ∨ l.actor = agentB := by decide
        rw [exec_agent_of_ne hs fun l hl => by rcases hact l hl with he | he <;> rw [he] <;> assumption]
        exact Nat.zero_lt_succ _
  exact ⟨s, hr, by rw [hp]; rfl, lockstep hr hbound (by decide)⟩

end Skywing.L5.Lockstep
