import Mathlib.Data.List.Sort
import Mathlib.Logic.Relation
import Skywing.L3Protocol.Feed
import Skywing.L3Protocol.Rebuild
import Skywing.L3Protocol.ValueFrame
import Skywing.L5Concurrency.PublisherKnowledge

/-!
# What is published and what is read

The way of a value through a network of managers and their jobs
(`skywing_core/job.cpp`, `manager.cpp`): a job publishes it, its manager gives
it to its own jobs and sends it to the neighbours that have subscribed to the
tag, and each of these gives it to its jobs, which read when they like. The
jobs run beside the main loops: they declare, publish, subscribe, rebuild and
read between any two steps.

As for `PublisherKnowledge`, the network may lose, delay, reorder and repeat
messages. `published` lists the publications in their order and `fetched` what
a job has read of a tag since it last subscribed to it; both are history.

Results:
* `values_not_invented`: what is sent, held in a buffer and read is what was
  published, with its version, on the machine itself or on one that it has
  sent a subscription to; and a value is only sent to a machine that has.
* `reads_in_order`: of a tag that one machine publishes on, at most `2 ^ 32`
  times, every job reads a subsequence of what was published: nothing twice,
  nothing out of order.
-/
namespace Skywing.L5.PublishedValues

open L2.TagBuffer L3 L4
open L3.Manager (NoValues Via)
open L4.GroupMembers (quietEnv)
open L5.Publishers (Node Record Proper messagesTo mem_messagesTo node_step)

variable {V : Type}

/-! ## Jobs beside their managers -/

structure Publication (V : Type) where
  machine : MachineID
  job : JobID
  tag : TagID
  version : VersionID
  value : V
  deriving DecidableEq, Repr

/-- mirrors skywing/skywing_core/job.cpp:198-226 -/
def declarePublicationIntent (tags : List PublishTagBase) (j : Job V) : Job V :=
  { j with tagsProduced := tags.foldl (fun produced t => produced.insertNew t.id t.expectedTypes) j.tagsProduced }

/-- The version that a read of the tag returns. -/
def storedVersion (j : Job V) (tag : TagID) : VersionID :=
  ((j.bufs.lookup tag).bind (·.buffer)).elim tagNoData (·.storedVersion)

/-- The job, while the program runs. -/
def jobOf (n : Node V) (name : JobID) : Option (Job V) :=
  if n.stopped.isNone then n.manager.jobs.lookup name else none

def setJob (n : Node V) (name : JobID) (j : Job V) : Node V :=
  { n with manager := { n.manager with jobs := n.manager.jobs.insert name j } }

/-! ## The network -/

/-- A machine, a job of it, and a tag. -/
abbrev Reader := MachineID × JobID × TagID

structure Net (V : Type) where
  nodes : MachineID → Node V
  published : List (Publication V)
  fetched : Reader → List (VersionID × V)

inductive Lbl (V : Type)
  /-- a step of a main loop that handles no message, or another call of a job -/
  | act (i : MachineID) (l : Label V)
  /-- the machine handles one of the messages it was sent by the neighbour it
  reads from -/
  | deliver (i : MachineID) (k : Nat) (env : Env)
  | declare (i : MachineID) (name : JobID) (tags : List PublishTagBase)
  | publish (i : MachineID) (name : JobID) (tag : TagID) (value : V) (env : Env)
  | subscribe (i : MachineID) (name : JobID) (tags : List PublishTagBase)
  | rebuildTags (i : MachineID) (name : JobID) (tags : List PublishTagBase)
  | read (i : MachineID) (name : JobID) (w : Job.Waiter)

/-- Messages are delivered, and these two calls come from jobs that have done
their part. -/
def isOwn : Label V → Bool
  | .message _ _ | .publish _ _ _ _ | .reportNewPublishTags _ => false
  | _ => true

def Net.put (s : Net V) (i : MachineID) (n : Node V) : Net V := { s with nodes := Function.update s.nodes i n }

/-- The tags are subscribed to anew. -/
def Net.forget (s : Net V) (i : MachineID) (name : JobID) (tags : List TagID) : Net V :=
  { s with fetched := fun r => if r.1 = i ∧ r.2.1 = name ∧ r.2.2 ∈ tags then [] else s.fetched r }

variable [Typed V]

/-- `none`: the step cannot be taken, or an assertion of a job fails in it. -/
def step (s : Net V) : Lbl V → Option (Net V)
  | .act i l => if isOwn l then ((s.nodes i).step l).map (s.put i) else none
  | .deliver i k env =>
    match (s.nodes i).pc with
    | .messages (some j) _ => (messagesTo (s.nodes j).manager i)[k]?.bind fun msg =>
        ((s.nodes i).step (.message msg env)).map (s.put i)
    | _ => none
  | .declare i name tags => (jobOf (s.nodes i) name).bind fun j =>
      ((setJob (s.nodes i) name (declarePublicationIntent tags j)).step
        (.reportNewPublishTags (tags.map (·.id)))).map (s.put i)
  | .publish i name tag value env => (jobOf (s.nodes i) name).bind fun j =>
      (j.publishImpl tag).bind fun r =>
        ((setJob (s.nodes i) name r.2).step (.publish r.1 tag value env)).map fun n =>
          { s.put i n with published := s.published ++ [⟨i, name, tag, r.1, value⟩] }
  | .subscribe i name tags => (jobOf (s.nodes i) name).bind fun j =>
      (j.subscribeTags tags).map fun j' => (s.put i (setJob (s.nodes i) name j')).forget i name (tags.map (·.id))
  | .rebuildTags i name tags => (jobOf (s.nodes i) name).bind fun j =>
      (j.rebuildTags tags).map fun r => (s.put i (setJob (s.nodes i) name r.2)).forget i name r.1
  | .read i name w => (jobOf (s.nodes i) name).bind fun j =>
      (j.getValue w).map fun r =>
        { s.put i (setJob (s.nodes i) name r.2) with
          fetched := Function.update s.fetched (i, name, w.tag)
            (s.fetched (i, name, w.tag) ++ r.1.toList.map fun v => (storedVersion j w.tag, v)) }

omit [Typed V] in
/-- Managers that were just built, with new jobs. -/
def Initial (s : Net V) : Prop :=
  (∀ i, ∃ port interval jobs, s.nodes i = ⟨.idle, { Manager.create port i interval with jobs := jobs }, none⟩ ∧
    ∀ name j, jobs.lookup name = some j → j = .create) ∧ s.published = [] ∧ ∀ r, s.fetched r = []

def lts (V : Type) [Typed V] : LTS (Net V) (Lbl V) := LTS.ofFn Initial step

omit [Typed V] in
/-- `i` has sent `j` a subscription to the tag. -/
def Asked (s : Net V) (i j : MachineID) (tag : TagID) : Prop :=
  ∃ e, Record (s.nodes i).manager e ∧ e.id = j ∧ tag ∈ e.noticeTags

omit [Typed V] in
/-- Where a value that is held or read on the machine `i` comes from. -/
def Source (s : Net V) (i : MachineID) (tag : TagID) (version : VersionID) (value : V) : Prop :=
  ∃ p ∈ s.published, p.tag = tag ∧ p.version = version ∧ p.value = value ∧ (p.machine = i ∨ Asked s i p.machine tag)

omit [Typed V]

/-! ## A buffer and its reader -/

/-- A value is added that `src` allows. -/
def Adds (src : VersionID → V → Prop) (b b' : Option (DiscardOldVersionTagBuffer V)) : Prop :=
  ∃ b₀ version v, src version v ∧ b = some b₀ ∧ b' = some (b₀.add v version)

/-- What is there to read is from the source, and newer than what was read. -/
structure Buffered (src : VersionID → V → Prop) (reads : List (VersionID × V)) (b : DiscardOldVersionTagBuffer V) :
    Prop where
  stored : b.storedVersion ≠ tagNoData → ∃ v, b.value = some v ∧ src b.storedVersion v
  read : ∀ f ∈ reads, f.1 ≤ b.lastFetchedVersion ∧ b.lastFetchedVersion ≠ tagNoData

section Buffer

variable {src src' : VersionID → V → Prop} {reads : List (VersionID × V)} {b b' : DiscardOldVersionTagBuffer V}

theorem Buffered.mono (h : Buffered src reads b) (hs : ∀ version v, src version v → src' version v) :
    Buffered src' reads b :=
  ⟨fun hne => (h.stored hne).imp fun _ hv => ⟨hv.1, hs _ _ hv.2⟩, h.read⟩

/-- Nothing is stored and nothing was read. -/
theorem Buffered.empty (h : b.storedVersion = tagNoData) : Buffered src [] b :=
  ⟨fun hne => absurd h hne, List.forall_mem_nil _⟩

theorem Buffered.add (h : Buffered src reads b) {version : VersionID} {v : V} (hv : src version v) :
    Buffered src reads (b.add v version) := by
  unfold DiscardOldVersionTagBuffer.add
  split
  · exact ⟨fun _ => ⟨v, rfl, hv⟩, h.read⟩
  · exact h

theorem Buffered.adds {ob ob' : Option (DiscardOldVersionTagBuffer V)} (h : ∀ b, ob = some b → Buffered src reads b)
    (hadds : Relation.ReflTransGen (Adds src) ob ob') : ∀ b, ob' = some b → Buffered src reads b := by
  induction hadds with
  | refl => exact h
  | tail _ hadd ih =>
    obtain ⟨b₀, version, v, hv, rfl, rfl⟩ := hadd
    intro b hb
    obtain rfl := Option.some.inj hb
    exact (ih b₀ rfl).add hv

/-- There is data exactly where it is newer than what was read. -/
theorem newer_of_hasData (h : b.hasData = true) :
    b.storedVersion ≠ tagNoData ∧ (b.lastFetchedVersion ≠ tagNoData → b.lastFetchedVersion < b.storedVersion) := by
  unfold DiscardOldVersionTagBuffer.hasData at h
  rw [Bool.and_eq_true, bne_iff_ne, decide_eq_true_eq] at h
  exact ⟨h.1, fun hne => (Feed.add_one_le_iff hne).mp h.2⟩

/-- A read comes after the ones before it. -/
theorem Buffered.get (h : Buffered src reads b) {v : V} (hg : b.get = some (some v, b')) :
    src b.storedVersion v ∧ (∀ f ∈ reads, f.1 < b.storedVersion) ∧
      Buffered src (reads ++ [(b.storedVersion, v)]) b' := by
  unfold DiscardOldVersionTagBuffer.get at hg
  split at hg
  · rename_i hd
    obtain ⟨hne, hnewer⟩ := newer_of_hasData hd
    obtain ⟨hval, rfl⟩ := Prod.mk.inj (Option.some.inj hg)
    obtain ⟨v', hv', hsrc⟩ := h.stored hne
    obtain rfl : v' = v := Option.some.inj (hv'.symm.trans hval)
    have hlt : ∀ f ∈ reads, f.1 < b.storedVersion := fun f hf =>
      UInt32.lt_of_le_of_lt (h.read f hf).1 (hnewer (h.read f hf).2)
    refine ⟨hsrc, hlt, fun _ => ⟨v', hv', hsrc⟩, fun f hf => ⟨?_, hne⟩⟩
    rcases List.mem_append.mp hf with hf | hf
    · exact UInt32.le_of_lt (hlt f hf)
    · rw [List.mem_singleton.mp hf]
      exact UInt32.le_refl _
  · cases hg

end Buffer

/-! ## A job -/

/-- The job was given values of the source at most. -/
structure Fed (src : TagID → VersionID → V → Prop) (j j' : Job V) : Prop where
  lastPublishedVersion : j'.lastPublishedVersion = j.lastPublishedVersion
  tagsProduced : j'.tagsProduced = j.tagsProduced
  bufs : ∀ tag info', j'.bufs.lookup tag = some info' → ∃ info, j.bufs.lookup tag = some info ∧
    Relation.ReflTransGen (Adds (src tag)) info.buffer info'.buffer

section Job

variable {src : TagID → VersionID → V → Prop} {j j' j'' : Job V}

theorem Fed.refl (j : Job V) : Fed src j j := ⟨rfl, rfl, fun _ info h => ⟨info, h, .refl⟩⟩

theorem Fed.trans (h : Fed src j j') (h' : Fed src j' j'') : Fed src j j'' where
  lastPublishedVersion := h'.lastPublishedVersion.trans h.lastPublishedVersion
  tagsProduced := h'.tagsProduced.trans h.tagsProduced
  bufs tag info'' hi := by
    obtain ⟨info', hi', hadds'⟩ := h'.bufs tag info'' hi
    obtain ⟨info, hi, hadds⟩ := h.bufs tag info' hi'
    exact ⟨info, hi, hadds.trans hadds'⟩

/-- One entry is replaced. -/
theorem Fed.setInfo {tag : TagID} {info info' : TagInfo V} (hi : j.bufs.lookup tag = some info)
    (hadds : Relation.ReflTransGen (Adds (src tag)) info.buffer info'.buffer) : Fed src j (j.setInfo tag info') := by
  refine ⟨rfl, rfl, fun t info₁ h₁ => ?_⟩
  by_cases ht : t = tag
  · subst ht
    rw [Job.setInfo_self] at h₁
    obtain rfl := Option.some.inj h₁
    exact ⟨info, hi, hadds⟩
  · rw [Job.setInfo_of_ne j info' ht] at h₁
    exact ⟨info₁, h₁, .refl⟩

theorem processData_fed [Typed V] {tag : TagID} {data : V} {version : VersionID} {accepted : Bool}
    (hs : src tag version data) (h : j.processData tag data version = some (accepted, j')) : Fed src j j' := by
  unfold Job.processData at h
  split at h
  · cases h
    exact .refl j
  · rename_i info hi
    split at h
    · cases h
      exact .setInfo hi .refl
    · obtain ⟨b, hb, he⟩ := Option.map_eq_some_iff.mp h
      cases he
      exact .setInfo hi (.single ⟨b, version, data, hs, hb, rfl⟩)

theorem markTagAsDead_fed (j : Job V) (tag : TagID) : Fed src j (j.markTagAsDead tag) := by
  unfold Job.markTagAsDead
  split
  · exact .refl j
  · rename_i info hi
    exact .setInfo hi .refl

theorem markTagsAsDead_fed (tags : List TagID) (j : Job V) : Fed src j (tags.foldl Job.markTagAsDead j) := by
  induction tags generalizing j with
  | nil => exact .refl j
  | cons tag tags ih => exact (markTagAsDead_fed j tag).trans (ih _)

/-- A read leaves all but the buffer that it reads from. -/
theorem getValue_cases {w : Job.Waiter} {value : Option V} (h : j.getValue w = some (value, j')) :
    (value = none ∧ j' = j) ∨ ∃ info b b' v, j.bufs.lookup w.tag = some info ∧ info.buffer = some b ∧
      b.get = some (some v, b') ∧ value = some v ∧ j' = j.setInfo w.tag { info with buffer := some b' } := by
  unfold Job.getValue at h
  obtain ⟨info, hi, h⟩ := Option.bind_eq_some_iff.mp h
  obtain ⟨b, hb, h⟩ := Option.bind_eq_some_iff.mp h
  split at h
  · obtain ⟨⟨value', b'⟩, hg, h⟩ := Option.bind_eq_some_iff.mp h
    obtain ⟨v, hv, h⟩ := Option.bind_eq_some_iff.mp h
    cases h
    subst hv
    exact .inr ⟨info, b, b', v, hi, hb, hg, rfl, rfl⟩
  · cases h
    exact .inl ⟨rfl, rfl⟩

/-- A subscription, new or renewed, leaves no data behind. -/
theorem renewed : ∀ {tags : List (TagID × List UInt8 × Option (DiscardOldVersionTagBuffer V))} {j j' : Job V},
    (∀ t ∈ tags, ∀ b, t.2.2 = some b → b.storedVersion = tagNoData) → j.initOrUpdateSubscribe tags = some j' →
    j'.lastPublishedVersion = j.lastPublishedVersion ∧ j'.tagsProduced = j.tagsProduced ∧
      ∀ tag info, j'.bufs.lookup tag = some info →
        (tag ∈ tags.map Prod.fst ∧ ∀ b, info.buffer = some b → b.storedVersion = tagNoData) ∨
          (tag ∉ tags.map Prod.fst ∧ j.bufs.lookup tag = some info)
  | [], j, j', _, h => by
    cases h
    exact ⟨rfl, rfl, fun tag info hi => .inr ⟨List.not_mem_nil, hi⟩⟩
  | (tag, expectedTypes, ptr) :: tags, j, j', hptr, h => by
    obtain ⟨hp, hptrs⟩ := List.forall_mem_cons.mp hptr
    obtain ⟨j₁, h₁, h⟩ := Option.bind_eq_some_iff.mp h
    obtain ⟨hlast, hprod, hbufs⟩ := renewed hptrs h
    have hone : ∃ info₁, j₁ = j.setInfo tag info₁ ∧ ∀ b, info₁.buffer = some b → b.storedVersion = tagNoData := by
      unfold Job.initOrUpdateTag at h₁
      split at h₁
      · cases h₁
        exact ⟨_, rfl, hp⟩
      · obtain ⟨b₀, -, h₁⟩ := Option.map_eq_some_iff.mp h₁
        refine ⟨_, h₁.symm, fun b hb => ?_⟩
        obtain rfl := Option.some.inj hb
        rfl
    obtain ⟨info₁, rfl, hinfo⟩ := hone
    refine ⟨hlast, hprod, fun t info hi => ?_⟩
    rw [List.map_cons, List.mem_cons]
    rcases hbufs t info hi with ⟨ht, hb⟩ | ⟨ht, hi⟩
    · exact .inl ⟨.inr ht, hb⟩
    · by_cases hte : t = tag
      · subst hte
        rw [Job.setInfo_self] at hi
        exact .inl ⟨.inl rfl, Option.some.inj hi ▸ hinfo⟩
      · rw [Job.setInfo_of_ne j info₁ hte] at hi
        exact .inr ⟨not_or.mpr ⟨hte, ht⟩, hi⟩

/-- The same buffer is passed for every tag, or none. -/
theorem renewed_tags {tags : List PublishTagBase} {ptr : Option (DiscardOldVersionTagBuffer V)}
    (hptr : ∀ b, ptr = some b → b.storedVersion = tagNoData)
    (hv : j.initOrUpdateSubscribe (tags.map fun t => (t.id, t.expectedTypes, ptr)) = some j') :
    j'.lastPublishedVersion = j.lastPublishedVersion ∧ j'.tagsProduced = j.tagsProduced ∧
      ∀ tag info, j'.bufs.lookup tag = some info →
        (tag ∈ tags.map (·.id) ∧ ∀ b, info.buffer = some b → b.storedVersion = tagNoData) ∨
          (tag ∉ tags.map (·.id) ∧ j.bufs.lookup tag = some info) := by
  have hrenewed := renewed (fun t ht => by
    obtain ⟨t', -, rfl⟩ := List.mem_map.mp ht
    exact hptr) hv
  rw [List.map_map] at hrenewed
  exact hrenewed

end Job

/-! ## A manager -/

/-- No record is lost, and none forgets what it sent. -/
def Kept (m m' : Manager V) : Prop :=
  ∀ e, Record m e → ∃ e', Record m' e' ∧ e'.id = e.id ∧ ∀ msg ∈ e.sent, msg ∈ e'.sent

/-- On the way from `m` to `m'` nothing but `news` was published to neighbours,
nothing but `subs` subscribed to, and the jobs were given nothing but `src`. -/
structure Carried (news : MachineID → Message V → Prop) (subs : MachineID → TagID → Prop)
    (src : TagID → VersionID → V → Prop) (m m' : Manager V) : Prop where
  sent : ∀ e', Record m' e' → ∀ msg ∈ e'.sent, msg.isPublishData = true →
    (∃ e, Record m e ∧ e.id = e'.id ∧ msg ∈ e.sent) ∨ news e'.id msg
  subscribed : ∀ e', Record m' e' → ∀ tag ∈ e'.remoteSubscriptions,
    (∃ e, Record m e ∧ e.id = e'.id ∧ tag ∈ e.remoteSubscriptions) ∨ subs e'.id tag
  kept : Kept m m'
  jobs : ∀ name, Option.Rel (Fed src) (m.jobs.lookup name) (m'.jobs.lookup name)

namespace Carried

variable {news : MachineID → Message V → Prop} {subs : MachineID → TagID → Prop} {src : TagID → VersionID → V → Prop}
  {m m₁ m₂ : Manager V}

theorem rel_refl (o : Option (Job V)) : Option.Rel (Fed src) o o := by
  cases o with
  | none => exact .none
  | some j => exact .some (.refl j)

theorem rel_trans {o o₁ o₂ : Option (Job V)} (h : Option.Rel (Fed src) o o₁) (h' : Option.Rel (Fed src) o₁ o₂) :
    Option.Rel (Fed src) o o₂ := by
  cases h with
  | none => exact h'
  | some h =>
    cases h' with
    | some h' => exact .some (h.trans h')

theorem trans (h : Carried news subs src m m₁) (h' : Carried news subs src m₁ m₂) : Carried news subs src m m₂ where
  sent e'' he'' msg hm hd := by
    rcases h'.sent e'' he'' msg hm hd with ⟨e', he', hid, hm'⟩ | hnew
    · rcases h.sent e' he' msg hm' hd with ⟨e, he, hid', hm''⟩ | hnew
      · exact .inl ⟨e, he, hid'.trans hid, hm''⟩
      · exact .inr (hid ▸ hnew)
    · exact .inr hnew
  subscribed e'' he'' tag ht := by
    rcases h'.subscribed e'' he'' tag ht with ⟨e', he', hid, ht'⟩ | hnew
    · rcases h.subscribed e' he' tag ht' with ⟨e, he, hid', ht''⟩ | hnew
      · exact .inl ⟨e, he, hid'.trans hid, ht''⟩
      · exact .inr (hid ▸ hnew)
    · exact .inr hnew
  kept e he := by
    obtain ⟨e', he', hid, hm⟩ := h.kept e he
    obtain ⟨e'', he'', hid', hm'⟩ := h'.kept e' he'
    exact ⟨e'', he'', hid'.trans hid, fun msg h => hm' msg (hm msg h)⟩
  jobs name := rel_trans (h.jobs name) (h'.jobs name)

/-- The records changed one by one. -/
theorem of_via {R : ExternalManager V → ExternalManager V → Prop} (hv : Via R m m₁) (hr : m₁.removed = m.removed)
    (hid : ∀ e e', R e e' → e'.id = e.id) (hkept : ∀ e e', R e e' → ∀ msg ∈ e.sent, msg ∈ e'.sent)
    (hsent : ∀ key e e', m.neighbors.lookup key = some e → R e e' → ∀ msg ∈ e'.sent, msg.isPublishData = true →
      msg ∈ e.sent ∨ news e'.id msg)
    (hsubs : ∀ key e e', m.neighbors.lookup key = some e → R e e' → ∀ tag ∈ e'.remoteSubscriptions,
      tag ∈ e.remoteSubscriptions ∨ subs e'.id tag)
    (hjobs : ∀ name, Option.Rel (Fed src) (m.jobs.lookup name) (m₁.jobs.lookup name)) :
    Carried news subs src m m₁ where
  sent e' he' msg hm hd := by
    rcases he' with ⟨key, hk⟩ | hrem
    · obtain ⟨e, he, hR⟩ := hv.of_lookup hk
      exact (hsent key e e' he hR msg hm hd).imp_left fun hm => ⟨e, .inl ⟨key, he⟩, (hid e e' hR).symm, hm⟩
    · exact .inl ⟨e', .inr (hr ▸ hrem), rfl, hm⟩
  subscribed e' he' tag ht := by
    rcases he' with ⟨key, hk⟩ | hrem
    · obtain ⟨e, he, hR⟩ := hv.of_lookup hk
      exact (hsubs key e e' he hR tag ht).imp_left fun ht => ⟨e, .inl ⟨key, he⟩, (hid e e' hR).symm, ht⟩
    · exact .inl ⟨e', .inr (hr ▸ hrem), rfl, ht⟩
  kept e he := by
    rcases he with ⟨key, hk⟩ | hrem
    · rcases hv.lookup key with ⟨hn, -⟩ | ⟨e₀, e', h₀, h', hR⟩
      · rw [hk] at hn
        cases hn
      · obtain rfl := Option.some.inj (hk.symm.trans h₀)
        exact ⟨e', .inl ⟨key, h'⟩, hid e e' hR, hkept e e' hR⟩
    · exact ⟨e, .inr (hr ▸ hrem), rfl, fun _ hm => hm⟩
  jobs := hjobs

theorem of_noValues (h : NoValues m m₁) : Carried news subs src m m₁ := by
  refine of_via h.neighbors h.removed (fun e e' hR => hR.id) (fun e e' hR => hR.mem_sent)
    (fun key e e' _ hR msg hm hd => ?_) (fun key e e' _ hR tag ht => .inl (hR.remoteSubscriptions ▸ ht)) fun name => ?_
  · obtain ⟨msgs, hp, hs⟩ := hR.sent
    rw [hs] at hm
    rcases List.mem_append.mp hm with hm | hm
    · exact .inl hm
    · rw [hp msg hm] at hd
      cases hd
  · rw [h.jobs]
    exact rel_refl _

theorem refl (m : Manager V) : Carried news subs src m m := of_noValues (.refl m)

theorem mono {news' : MachineID → Message V → Prop} {subs' : MachineID → TagID → Prop}
    {src' : TagID → VersionID → V → Prop} (h : Carried news subs src m m₁) (hn : ∀ id msg, news id msg → news' id msg)
    (hs : ∀ id tag, subs id tag → subs' id tag) (hv : ∀ tag version v, src tag version v → src' tag version v) :
    Carried news' subs' src' m m₁ where
  sent e' he' msg hm hd := (h.sent e' he' msg hm hd).imp_right (hn _ _)
  subscribed e' he' tag ht := (h.subscribed e' he' tag ht).imp_right (hs _ _)
  kept := h.kept
  jobs name := by
    have hrel := h.jobs name
    generalize m.jobs.lookup name = o, m₁.jobs.lookup name = o' at hrel ⊢
    cases hrel with
    | none => exact .none
    | some hj =>
      refine .some ⟨hj.lastPublishedVersion, hj.tagsProduced, fun tag info' hi => ?_⟩
      obtain ⟨info, hi, hadds⟩ := hj.bufs tag info' hi
      refine ⟨info, hi, Relation.ReflTransGen.mono (fun b b' hadd => ?_) _ _ hadds⟩
      obtain ⟨b₀, version, v, hsrc, hb, hb'⟩ := hadd
      exact ⟨b₀, version, v, hv tag version v hsrc, hb, hb'⟩

end Carried

section Manager

variable {news : MachineID → Message V → Prop} {subs : MachineID → TagID → Prop} {src : TagID → VersionID → V → Prop}
  {m : Manager V} {env : Env}

/-- A greeting adds a connection to a record, or an empty record. -/
theorem greet_carried (sender : MachineID) (neighbors : List MachineID) (port : UInt16) (ip : Str) :
    Carried news subs src m (m.greet env sender neighbors port ip).2 := by
  unfold Manager.greet
  cases he : m.neighbors.lookup sender with
  | some e₀ =>
    exact .of_noValues (Manager.atNeighbor_noValues (f := ExternalManager.addCommunicator ip)
      (fun e => .of_eq rfl rfl rfl) sender)
  | none =>
    refine ⟨fun e' he' msg hm _ => ?_, fun e' he' tag ht => ?_, fun e hr => ?_, fun name => Carried.rel_refl _⟩
    · rcases he' with ⟨key, hk⟩ | hrem
      · by_cases hks : key = sender
        · subst hks
          rw [AList.lookup_insert] at hk
          obtain rfl := Option.some.inj hk
          cases hm
        · rw [AList.lookup_insert_ne hks] at hk
          exact .inl ⟨e', .inl ⟨key, hk⟩, rfl, hm⟩
      · exact .inl ⟨e', .inr hrem, rfl, hm⟩
    · rcases he' with ⟨key, hk⟩ | hrem
      · by_cases hks : key = sender
        · subst hks
          rw [AList.lookup_insert] at hk
          obtain rfl := Option.some.inj hk
          cases ht
        · rw [AList.lookup_insert_ne hks] at hk
          exact .inl ⟨e', .inl ⟨key, hk⟩, rfl, ht⟩
      · exact .inl ⟨e', .inr hrem, rfl, ht⟩
    · rcases hr with ⟨key, hk⟩ | hrem
      · have hne : key ≠ sender := fun h => by
          rw [h, he] at hk
          cases hk
        exact ⟨e, .inl ⟨key, (AList.lookup_insert_ne hne).trans hk⟩, rfl, fun _ h => h⟩
      · exact ⟨e, .inr hrem, rfl, fun _ h => h⟩

theorem removeNeighbor_carried (id : MachineID) :
    (m.removeNeighbor env id).Ends (fun r => Carried news subs src m r.1) fun _ => True := by
  refine (Manager.removeNeighbor_values id m).mono (fun r h => ?_) fun _ he => he
  rcases h with h | ⟨e, m₁, he, h₁, hjobs, hn, hr⟩
  · rw [h]
    exact .refl m
  · have hc : Carried news subs src m m₁ := .of_noValues h₁
    -- a record of the end was there before, or is the one that leaves
    have hrec : ∀ e', Record r.1 e' → Record m₁ e' ∨ Record m e' := by
      intro e' he'
      rcases he' with ⟨key, hk⟩ | hrem
      · rw [hn] at hk
        exact .inl (.inl ⟨key, (AList.lookup_of_erase hk)⟩)
      · rw [hr] at hrem
        rcases List.mem_append.mp hrem with hrem | hrem
        · exact .inl (.inr hrem)
        · rw [List.mem_singleton.mp hrem]
          exact .inr (.inl ⟨id, he⟩)
    refine ⟨fun e' he' msg hm hd => ?_, fun e' he' tag ht => ?_, fun e₀ he₀ => ?_, fun name => ?_⟩
    · rcases hrec e' he' with h | h
      · exact hc.sent e' h msg hm hd
      · exact .inl ⟨e', h, rfl, hm⟩
    · rcases hrec e' he' with h | h
      · exact hc.subscribed e' h tag ht
      · exact .inl ⟨e', h, rfl, ht⟩
    · rcases he₀ with ⟨key, hk⟩ | hrem
      · by_cases hki : key = id
        · subst hki
          obtain rfl := Option.some.inj (hk.symm.trans he)
          exact ⟨e₀, .inr (by rw [hr]; exact List.mem_append_right _ (List.mem_singleton_self _)), rfl, fun _ h => h⟩
        · rcases h₁.neighbors.lookup key with ⟨hnone, -⟩ | ⟨e₁, e', h₀, h', hR⟩
          · rw [hk] at hnone
            cases hnone
          · obtain rfl := Option.some.inj (hk.symm.trans h₀)
            refine ⟨e', .inl ⟨key, ?_⟩, hR.id, hR.mem_sent⟩
            rw [hn, AList.lookup_erase_ne hki]
            exact h'
      · exact ⟨e₀, .inr (by rw [hr, h₁.removed]; exact List.mem_append_left _ hrem), rfl, fun _ h => h⟩
    · rw [hjobs, AList.lookup_mapVal, h₁.jobs]
      cases m.jobs.lookup name with
      | none => exact .none
      | some j => exact .some (markTagsAsDead_fed _ j)

/-- Every job of the machine is given the value. -/
theorem processAll_fed [Typed V] (src : TagID → VersionID → V → Prop) {tag : TagID} {value : V} {version : VersionID}
    (hs : src tag version value) (l : List (Σ _ : JobID, Job V)) (hl : ∀ e ∈ l, e ∈ m.jobs.entries) :
    (l.foldlM (Manager.processData tag value version) (true, m)).Ends (fun r =>
      (∀ name, Option.Rel (Fed src) (m.jobs.lookup name) (r.2.jobs.lookup name)) ∧
        r.2.neighbors = m.neighbors ∧ r.2.removed = m.removed) fun _ => True := by
  refine .foldlM (I := fun _ (r : Bool × Manager V) =>
      (∀ name, Option.Rel (Fed src) (m.jobs.lookup name) (r.2.jobs.lookup name)) ∧
        r.2.neighbors = m.neighbors ∧ r.2.removed = m.removed)
    ⟨fun _ => Carried.rel_refl _, rfl, rfl⟩ fun e rest r he h => ?_
  obtain ⟨hjobs, hn, hr⟩ := h
  unfold Manager.processData
  cases hp : e.2.processData tag value version with
  | none => trivial
  | some a =>
    obtain ⟨accepted, j⟩ := a
    refine ⟨fun name => ?_, hn, hr⟩
    by_cases hname : name = e.1
    · subst hname
      have hlook : m.jobs.lookup e.1 = some e.2 := AList.mem_entries_iff.mp (hl e he)
      rw [AList.lookup_insert, hlook]
      exact .some (processData_fed hs hp)
    · rw [AList.lookup_insert_ne hname]
      exact hjobs name

theorem handlePublishData_carried [Typed V] (tag : TagID) (value : Option V) (version : VersionID) :
    (m.handlePublishData env tag value version).Ends
      (fun r => Carried news subs (fun t n v => t = tag ∧ n = version ∧ some v = value) m r.2) fun _ => True := by
  unfold Manager.handlePublishData
  split
  · exact Carried.refl m
  · rename_i value
    refine (processAll_fed (fun t n v => t = tag ∧ n = version ∧ some v = some value) ⟨rfl, rfl, rfl⟩ _
      fun e he => env.mem_order.mp he).mono (fun r h => ?_) fun _ h => h
    obtain ⟨hjobs, hn, hr⟩ := h
    exact .of_via (R := fun e e' => e' = e) (.of_eq (fun _ => rfl) hn) hr (fun e e' h => by rw [h])
      (fun e e' h msg hm => h ▸ hm) (fun _ e e' _ h msg hm _ => .inl (h ▸ hm))
      (fun _ e e' _ h tag ht => .inl (h ▸ ht)) hjobs

/-- A value goes to the jobs of the machine and to the neighbours that have
subscribed. -/
theorem publish_carried [Typed V] (version : VersionID) (tag : TagID) (value : V) :
    (m.publish env version tag value).Ends
      (Carried (fun id msg => msg = .publishData tag (some value) version ∧
          ∃ e, Record m e ∧ e.id = id ∧ tag ∈ e.remoteSubscriptions) subs
        (fun t n v => t = tag ∧ n = version ∧ v = value) m) fun _ => True := by
  unfold Manager.publish
  refine .bind (processAll_fed (fun t n v => t = tag ∧ n = version ∧ v = value) ⟨rfl, rfl, rfl⟩ _
    fun e he => env.mem_order.mp he) fun r h => ?_
  obtain ⟨hjobs, hn, hr⟩ := h
  let R (e e' : ExternalManager V) : Prop :=
    e' = if e.isSubscribedTo tag then e.sendMessage env (.publishData tag (some value) version) else e
  have hR : ∀ {e e' : ExternalManager V}, R e e' → e'.id = e.id ∧ e'.remoteSubscriptions = e.remoteSubscriptions ∧
      (e'.sent = e.sent ∨
        tag ∈ e.remoteSubscriptions ∧ e'.sent = e.sent ++ [.publishData tag (some value) version]) := by
    intro e e' h
    rw [show e' = _ from h]
    split
    · rename_i hsub
      rcases ExternalManager.sendMessage_cases env e (.publishData tag (some value) version) with ⟨d, hd⟩ | hs
      · rw [hd]
        exact ⟨rfl, rfl, .inl rfl⟩
      · rw [hs]
        exact ⟨rfl, rfl, .inr ⟨List.contains_iff_mem.mp hsub, rfl⟩⟩
    · exact ⟨rfl, rfl, .inl rfl⟩
  have hv : Via R m (r.2.sendToNeighborsIf env (.publishData tag (some value) version) fun e => e.isSubscribedTo tag) :=
    ⟨_, fun _ e => rfl, by rw [← hn]; rfl⟩
  refine Except.Ends.pure (.of_via hv hr (fun e e' h => (hR h).1) (fun e e' h msg hmsg => ?_)
    (fun key e e' he h msg hmsg _ => ?_) (fun key e e' _ h t ht => .inl ((hR h).2.1 ▸ ht)) hjobs)
  · rcases (hR h).2.2 with hs | ⟨-, hs⟩
    · exact hs ▸ hmsg
    · exact hs ▸ List.mem_append_left _ hmsg
  · rcases (hR h).2.2 with hs | ⟨hsub, hs⟩
    · exact .inl (hs ▸ hmsg)
    · rw [hs] at hmsg
      rcases List.mem_append.mp hmsg with hmsg | hmsg
      · exact .inl hmsg
      · exact .inr ⟨List.mem_singleton.mp hmsg, e, .inl ⟨key, he⟩, ((hR h).1).symm, hsub⟩

/-! ## Messages -/

theorem noteSubscriptions_mem {tag : TagID} : ∀ {subs tags : List TagID},
    tag ∈ (ExternalManager.noteSubscriptions subs tags).1 → tag ∈ subs ∨ tag ∈ tags
  | _, [], h => .inl h
  | subs, t :: tags, h => by
    unfold ExternalManager.noteSubscriptions at h
    split at h
    · exact .inl h
    · split at h
      · exact .inl h
      · rcases noteSubscriptions_mem h with h | h
        · rcases List.mem_cons.mp h with rfl | h
          · exact .inr List.mem_cons_self
          · exact .inl h
        · exact .inr (List.mem_cons_of_mem t h)

/-- The subscriptions of the sender become what it had and what it asks for. -/
theorem notice_carried {sender : ExternalManager V} {tags : List TagID}
    (hs : m.neighbors.lookup sender.id = some sender) :
    Carried news (fun id tag => id = sender.id ∧ tag ∈ tags) src m (m.atNeighbor sender.id
      ({ · with remoteSubscriptions := (ExternalManager.noteSubscriptions sender.remoteSubscriptions tags).1 })) := by
  have hof := fun key e' => @Manager.of_lookup_atNeighbor V m ({ · with
    remoteSubscriptions := (ExternalManager.noteSubscriptions sender.remoteSubscriptions tags).1 }) sender.id key e'
  refine ⟨fun e' he' msg hm _ => ?_, fun e' he' tag ht => ?_, fun e he => ?_, fun name => Carried.rel_refl _⟩
  · rcases he' with ⟨key, hk⟩ | hrem
    · obtain ⟨e, he, rfl⟩ := hof key e' hk
      refine .inl ⟨e, .inl ⟨key, he⟩, ?_⟩
      split at hm
      · exact ⟨by rw [if_pos ‹_›], hm⟩
      · exact ⟨by rw [if_neg ‹_›], hm⟩
    · exact .inl ⟨e', .inr hrem, rfl, hm⟩
  · rcases he' with ⟨key, hk⟩ | hrem
    · obtain ⟨e, he, rfl⟩ := hof key e' hk
      by_cases hkey : key = sender.id
      · subst hkey
        obtain rfl := Option.some.inj (he.symm.trans hs)
        rw [if_pos rfl] at ht ⊢
        rcases noteSubscriptions_mem ht with ht | ht
        · exact .inl ⟨e, .inl ⟨e.id, he⟩, rfl, ht⟩
        · exact .inr ⟨rfl, ht⟩
      · rw [if_neg hkey] at ht ⊢
        exact .inl ⟨e, .inl ⟨key, he⟩, rfl, ht⟩
    · exact .inl ⟨e', .inr hrem, rfl, ht⟩
  · rcases he with ⟨key, hk⟩ | hrem
    · refine ⟨_, .inl ⟨key, (Manager.lookup_atNeighbor _ _ _ _).trans (congrArg _ hk)⟩, ?_⟩
      split <;> exact ⟨rfl, fun _ h => h⟩
    · exact ⟨e, .inr hrem, rfl, fun _ h => h⟩

theorem handleMessage_carried [Typed V] {sender : ExternalManager V} (hs : m.neighbors.lookup sender.id = some sender)
    (msg : Message V) :
    (m.handleMessage env sender msg).Ends (fun r => Carried news (fun id tag => id = sender.id ∧ tag ∈ msg.noticeTags)
      (fun tag version v => msg = .publishData tag (some v) version) m r.2) fun _ => True := by
  by_cases hd : msg.isPublishData = false
  · by_cases hn : msg.isNotice = false
    · exact (Manager.handleMessage_noValues sender hd hn).mono (fun _ h => .of_noValues h) fun _ h => h
    · cases msg with
      | subscriptionNotice tags isUnsubscribe => exact notice_carried hs
      | _ => exact absurd rfl hn
  · cases msg with
    | publishData tag value version =>
      unfold Manager.handleMessage
      dsimp only
      split
      · exact Carried.refl m
      · have hp : (m.handlePublishData env tag value version).Ends (fun r => Carried news (fun _ _ => False)
            (fun t n v => t = tag ∧ n = version ∧ some v = value) m r.2) fun _ => True :=
          handlePublishData_carried tag value version
        refine .bind hp fun r h => h.mono (fun _ _ h => h) (fun _ _ h => h.elim) fun t n v hv => ?_
        obtain ⟨rfl, rfl, rfl⟩ := hv
        rfl
    | _ => exact absurd rfl hd

/-! ## Steps of a machine -/

/-- Every step but a message and a publication carries nothing. -/
theorem act_carried [Typed V] {l : Label V} {pc : Pc} (hmsg : ∀ msg env, l ≠ .message msg env)
    (hpub : ∀ version tag value env, l ≠ .publish version tag value env) :
    (act l pc m).Ends (fun r => Carried news subs src m r.2) fun _ => True := by
  have hof {m' : Manager V} (h : NoValues m m') : Carried news subs src m m' := .of_noValues h
  unfold act
  split
  · exact hof (Manager.subscribe_noValues _)
  · exact .bind (Manager.ipSubscribe_noValues _ _) fun _ h => hof h
  · exact .bind (Manager.connectToServer_noValues _) fun _ h => hof h
  · exact .bind (Manager.reportNewPublishTags_noValues _) fun _ h => hof h
  · exact .bind (Manager.createReduceGroup_noValues _) fun _ h => hof h
  · split
    · trivial
    · exact .bind (Manager.rebuildReduceGroup_noValues _) fun _ h => hof (h.from_same rfl rfl rfl)
  · split
    · trivial
    · split
      · trivial
      · exact .bind (Manager.updateGroup_noValues _ _ _ _) fun _ h => hof h
  · exact absurd rfl (hpub _ _ _ _)
  · exact Carried.refl m
  · split
    · exact Carried.refl m
    · rename_i event env key todo newTags _ info hi
      by_cases hg : ∃ sender neighbors port ip, event = .message (.greeting sender neighbors port) ip
      · obtain ⟨sender, neighbors, port, ip, rfl⟩ := hg
        have hc : (m.handleGreeting env key info sender neighbors port ip).Ends (Carried news subs src m)
            fun _ => True :=
          (Manager.handleGreeting_noValues key info sender neighbors port ip m).mono
            (fun _ h => (greet_carried sender neighbors port ip).trans (.of_noValues h)) fun _ h => h
        have hp : (m.processConn env key info (.message (.greeting sender neighbors port) ip)).Ends
            (fun r => Carried news subs src m r.1) fun _ => True := .bind hc fun _ h => h
        exact .bind hp fun r hr => hr
      · have hp : (m.processConn env key info event).Ends (fun r => NoValues m r.1) fun _ => True :=
          Manager.processConn_noValues key info fun sender neighbors port ip he => hg ⟨sender, neighbors, port, ip, he⟩
        exact .bind hp fun r hr => hof hr
  · show Carried news subs src m _
    split
    · exact hof (Manager.findPublishers_noValues false)
    · exact .refl m
  · exact .bind (Manager.initConnections_noValues m) fun _ h => hof h
  · exact .bind (Manager.initConnections_noValues m) fun m₁ h =>
      hof (h.trans (Manager.atNeighbor_noValues (f := (·.requestAnswered _)) (fun e => .of_eq rfl rfl rfl) _))
  · exact .bind (Manager.acceptConnection_noValues _ _ m) fun _ h => hof h
  · exact Carried.refl m
  · exact Carried.refl m
  · exact absurd rfl (hmsg _ _)
  · exact hof (Manager.atNeighbor_noValues (f := ExternalManager.markAsDead) (fun e => .of_eq rfl rfl rfl) _)
  · exact Carried.refl m
  · exact .bind (removeNeighbor_carried _) fun _ h => h
  · rename_i env todo newTags
    have h₁ : NoValues m (if newTags = true then m.findPublishersForPendingTags env true else m) := by
      split
      · exact Manager.findPublishers_noValues true
      · exact .refl m
    exact hof ((h₁.trans (Manager.findPublishers_noValues false)).trans
      (Manager.mapNeighbors_noValues (ExternalManager.sendHeartbeat_noValues _)))
  · exact Carried.refl m

/-- What a message from `id` carries. -/
theorem handleNext_carried [Typed V] (hm : m.Keyed) {id : MachineID} {todo : List MachineID} {msg : Message V} :
    (handleNext env id todo msg m).Ends (fun r => Carried news (fun j tag => j = id ∧ tag ∈ msg.noticeTags)
      (fun tag version v => msg = .publishData tag (some v) version) m r.2) fun _ => True := by
  have hh : NoValues m (m.atNeighbor id (·.hear env msg)) :=
    Manager.atNeighbor_noValues (f := (·.hear env msg)) (fun e => .of_eq rfl rfl rfl) id
  unfold handleNext
  dsimp only
  split
  · trivial
  · rename_i sender hsender
    have hid : sender.id = id := hm.of_via hh.neighbors (fun _ _ h => h.id) id sender hsender
    have hs : (m.atNeighbor id (·.hear env msg)).neighbors.lookup sender.id = some sender := by
      rw [hid]
      exact hsender
    have hp : ((m.atNeighbor id (·.hear env msg)).handleMessage env sender msg).Ends (fun r =>
        Carried news (fun j tag => j = sender.id ∧ tag ∈ msg.noticeTags)
          (fun tag version v => msg = .publishData tag (some v) version) (m.atNeighbor id (·.hear env msg)) r.2)
        fun _ => True := handleMessage_carried hs msg
    rw [hid] at hp
    refine .bind hp fun r hr => ?_
    have hc := (Carried.of_noValues hh).trans hr
    split
    · exact hc
    · exact hc.trans (.of_noValues (Manager.atNeighbor_noValues (f := ExternalManager.markAsDead)
        (fun e => .of_eq rfl rfl rfl) id))
    · exact hc

/-- Tags are declared once on a machine. -/
theorem reportNewPublishTags_new (tags : List TagID) (m : Manager V) :
    (m.reportNewPublishTags tags).Ends (fun m' => (∀ tag ∈ tags, tag ∉ m.selfSubCount ∧ tag ∈ m'.selfSubCount) ∧
      ∀ tag ∈ m.selfSubCount, tag ∈ m'.selfSubCount) fun _ => True := by
  induction tags generalizing m with
  | nil => exact ⟨List.forall_mem_nil _, fun _ h => h⟩
  | cons tag tags ih =>
    unfold Manager.reportNewPublishTags
    rw [List.foldlM_cons]
    split
    · trivial
    · rename_i hnew
      refine (ih _).mono (fun m' h => ?_) fun _ h => h
      obtain ⟨htags, hkept⟩ := h
      have hmem {t : TagID} (ht : t ∈ m.selfSubCount) : t ∈ m.selfSubCount.insert tag 0 :=
        (AList.mem_insert _).mpr (.inr ht)
      refine ⟨List.forall_mem_cons.mpr ⟨⟨hnew, hkept tag ((AList.mem_insert _).mpr (.inl rfl))⟩, fun t ht => ?_⟩,
        fun t ht => hkept t (hmem ht)⟩
      exact ⟨fun h => (htags t ht).1 (hmem h), (htags t ht).2⟩

end Manager

/-! ## The invariant -/

/-- What a job has published on a tag. -/
def pubsOf (s : Net V) (r : Reader) : List (Publication V) :=
  s.published.filter fun p => p.machine = r.1 ∧ p.job = r.2.1 ∧ p.tag = r.2.2

def Produces (m : Manager V) (name : JobID) (tag : TagID) : Prop :=
  ∃ j, m.jobs.lookup name = some j ∧ tag ∈ j.tagsProduced

/-- The records of the machine `i`. -/
structure Links (s : Net V) (i : MachineID) (m : Manager V) : Prop where
  proper : Proper m
  sent : ∀ e, Record m e → ∀ msg ∈ e.sent, msg.isPublishData = true →
    ∃ p ∈ s.published, p.machine = i ∧ msg = .publishData p.tag (some p.value) p.version ∧ Asked s e.id i p.tag
  subscribed : ∀ e, Record m e → ∀ tag ∈ e.remoteSubscriptions, Asked s e.id i tag

/-- The jobs of the machine `i`. -/
structure Books (s : Net V) (i : MachineID) (m : Manager V) : Prop where
  buffered : ∀ name j, m.jobs.lookup name = some j → ∀ tag info b, j.bufs.lookup tag = some info →
    info.buffer = some b → Buffered (Source s i tag) (s.fetched (i, name, tag)) b
  counter : ∀ name j, m.jobs.lookup name = some j → ∀ tag,
    (j.lastPublishedVersion.lookup tag).getD tagNoData = versionAt (pubsOf s (i, name, tag)).length
  numbered : ∀ name tag, (pubsOf s (i, name, tag)).map (·.version) =
    (List.range (pubsOf s (i, name, tag)).length).map fun k => versionAt (k + 1)
  ordered : ∀ name tag, (s.fetched (i, name, tag)).Pairwise fun f g => f.1 < g.1
  source : ∀ name tag, ∀ f ∈ s.fetched (i, name, tag), Source s i tag f.1 f.2
  produced : ∀ p ∈ s.published, p.machine = i → Produces m p.job p.tag
  single : ∀ p ∈ s.published, ∀ p' ∈ s.published, p.machine = i → p'.machine = i → p'.tag = p.tag → p'.job = p.job

/-- A second declaration of a tag has ended the program. -/
def Declared (n : Node V) : Prop :=
  n.stopped = none → ∀ name tag, Produces n.manager name tag →
    tag ∈ n.manager.selfSubCount ∧ ∀ name', Produces n.manager name' tag → name' = name

structure Inv (s : Net V) : Prop where
  links : ∀ i, Links s i (s.nodes i).manager
  books : ∀ i, Books s i (s.nodes i).manager
  declared : ∀ i, Declared (s.nodes i)

/-! ## What other machines see of a step -/

/-- From `s` to `t` others than `i` published at most. -/
structure Grows (s t : Net V) (i : MachineID) : Prop where
  asked : ∀ a b tag, Asked s a b tag → Asked t a b tag
  published : ∃ ps, t.published = s.published ++ ps ∧ ∀ p ∈ ps, p.machine ≠ i
  fetched : ∀ name tag, t.fetched (i, name, tag) = s.fetched (i, name, tag)

section Grow

variable {s t : Net V} {i : MachineID} {m : Manager V}

theorem Source.grow {tag : TagID} {version : VersionID} {v : V} (h : Source s i tag version v)
    (hask : ∀ a b tag, Asked s a b tag → Asked t a b tag) (hpub : ∀ p ∈ s.published, p ∈ t.published) :
    Source t i tag version v := by
  obtain ⟨p, hp, ht, hv, hval, hfrom⟩ := h
  exact ⟨p, hpub p hp, ht, hv, hval, hfrom.imp_right (hask _ _ _)⟩

theorem Links.grow (h : Links s i m) (hask : ∀ a b tag, Asked s a b tag → Asked t a b tag)
    (hpub : ∀ p ∈ s.published, p ∈ t.published) : Links t i m where
  proper := h.proper
  sent e he msg hm hd := by
    obtain ⟨p, hp, hi, hmsg, ha⟩ := h.sent e he msg hm hd
    exact ⟨p, hpub p hp, hi, hmsg, hask _ _ _ ha⟩
  subscribed e he tag ht := hask _ _ _ (h.subscribed e he tag ht)

theorem Grows.mem (h : Grows s t i) : ∀ p ∈ s.published, p ∈ t.published := by
  obtain ⟨ps, hps, -⟩ := h.published
  intro p hp
  rw [hps]
  exact List.mem_append_left _ hp

theorem Grows.of_mem (h : Grows s t i) {p : Publication V} (hp : p ∈ t.published) (hi : p.machine = i) :
    p ∈ s.published := by
  obtain ⟨ps, hps, hne⟩ := h.published
  rw [hps] at hp
  exact (List.mem_append.mp hp).resolve_right fun hp => hne p hp hi

theorem Grows.pubsOf (h : Grows s t i) (name : JobID) (tag : TagID) :
    pubsOf t (i, name, tag) = pubsOf s (i, name, tag) := by
  obtain ⟨ps, hps, hne⟩ := h.published
  have hnone : ps.filter (fun p => p.machine = i ∧ p.job = name ∧ p.tag = tag) = [] := by
    rw [List.filter_eq_nil_iff]
    intro p hp hd
    exact hne p hp (of_decide_eq_true hd).1
  unfold PublishedValues.pubsOf
  rw [hps, List.filter_append, hnone, List.append_nil]

theorem Books.grow (h : Books s i m) (hg : Grows s t i) : Books t i m where
  buffered name j hj tag info b hi hb := by
    rw [hg.fetched]
    exact (h.buffered name j hj tag info b hi hb).mono fun _ _ hs => hs.grow hg.asked hg.mem
  counter name j hj tag := by
    rw [hg.pubsOf]
    exact h.counter name j hj tag
  numbered name tag := by
    rw [hg.pubsOf]
    exact h.numbered name tag
  ordered name tag := by
    rw [hg.fetched]
    exact h.ordered name tag
  source name tag f hf := by
    rw [hg.fetched] at hf
    exact (h.source name tag f hf).grow hg.asked hg.mem
  produced p hp hi := h.produced p (hg.of_mem hp hi) hi
  single p hp p' hp' hi hi' := h.single p (hg.of_mem hp hi) p' (hg.of_mem hp' hi') hi hi'

end Grow

/-! ## What a machine does to itself -/

section Carry

variable {news : MachineID → Message V → Prop} {subs : MachineID → TagID → Prop} {src : TagID → VersionID → V → Prop}
  {s : Net V} {i : MachineID} {m m' : Manager V}

theorem Carried.produces (hc : Carried news subs src m m') {name : JobID} {tag : TagID} :
    Produces m' name tag ↔ Produces m name tag := by
  have hrel := hc.jobs name
  unfold Produces
  generalize m.jobs.lookup name = o, m'.jobs.lookup name = o' at hrel ⊢
  cases hrel with
  | none => exact Iff.rfl
  | some hj =>
    simp only [Option.some.injEq, exists_eq_left', hj.tagsProduced]

theorem Links.carry (h : Links s i m) (hc : Carried news subs src m m') (hp : Proper m')
    (hnews : ∀ id msg, news id msg →
      ∃ p ∈ s.published, p.machine = i ∧ msg = .publishData p.tag (some p.value) p.version ∧ Asked s id i p.tag)
    (hsubs : ∀ id tag, subs id tag → Asked s id i tag) : Links s i m' where
  proper := hp
  sent e' he' msg hm hd := by
    rcases hc.sent e' he' msg hm hd with ⟨e, he, hid, hm⟩ | hnew
    · exact hid ▸ h.sent e he msg hm hd
    · exact hnews _ _ hnew
  subscribed e' he' tag ht := by
    rcases hc.subscribed e' he' tag ht with ⟨e, he, hid, ht⟩ | hnew
    · exact hid ▸ h.subscribed e he tag ht
    · exact hsubs _ _ hnew

theorem Carried.job (hc : Carried news subs src m m') {name : JobID} {j' : Job V} (hj : m'.jobs.lookup name = some j') :
    ∃ j, m.jobs.lookup name = some j ∧ Fed src j j' := by
  have hrel := hc.jobs name
  rw [hj] at hrel
  generalize m.jobs.lookup name = o at hrel ⊢
  cases hrel with
  | some hf => exact ⟨_, rfl, hf⟩

theorem Books.carry (h : Books s i m) (hc : Carried news subs src m m')
    (hsrc : ∀ tag version v, src tag version v → Source s i tag version v) : Books s i m' where
  buffered name j' hj' tag info' b' hi' hb' := by
    obtain ⟨j, hj, hf⟩ := hc.job hj'
    obtain ⟨info, hi, hadds⟩ := hf.bufs tag info' hi'
    refine Buffered.adds (h.buffered name j hj tag info · hi ·) ?_ b' hb'
    refine Relation.ReflTransGen.mono (fun o o' hadd => ?_) _ _ hadds
    obtain ⟨b₀, version, v, hv, ho, ho'⟩ := hadd
    exact ⟨b₀, version, v, hsrc tag version v hv, ho, ho'⟩
  counter name j' hj' tag := by
    obtain ⟨j, hj, hf⟩ := hc.job hj'
    rw [hf.lastPublishedVersion]
    exact h.counter name j hj tag
  numbered := h.numbered
  ordered := h.ordered
  source := h.source
  produced p hp hi := hc.produces.mpr (h.produced p hp hi)
  single := h.single

theorem Declared.carry {n n' : Node V} (h : Declared n) (hc : Carried news subs src n.manager n'.manager)
    (hself : ∀ tag ∈ n.manager.selfSubCount, tag ∈ n'.manager.selfSubCount)
    (hst : n'.stopped = none → n.stopped = none) : Declared n' := by
  intro hrun name tag hp
  obtain ⟨hmem, huniq⟩ := h (hst hrun) name tag (hc.produces.mp hp)
  exact ⟨hself tag hmem, fun name' hp' => huniq name' (hc.produces.mp hp')⟩

end Carry

/-! ## What jobs do -/

section Jobs

variable {s : Net V} {i : MachineID} {n : Node V} {name : JobID} {j j' : Job V}

theorem lookup_setJob (k : JobID) :
    (setJob n name j).manager.jobs.lookup k = if k = name then some j else n.manager.jobs.lookup k := by
  by_cases hk : k = name
  · rw [if_pos hk, hk]
    exact AList.lookup_insert _
  · rw [if_neg hk]
    exact AList.lookup_insert_ne hk

theorem jobOf_eq (h : jobOf n name = some j) : n.stopped = none ∧ n.manager.jobs.lookup name = some j := by
  unfold jobOf at h
  split at h
  · exact ⟨Option.isNone_iff_eq_none.mp ‹_›, h⟩
  · cases h

theorem Links.setJob (h : Links s i n.manager) : Links s i (setJob n name j).manager :=
  ⟨⟨h.proper.keyed, h.proper.conns⟩, h.sent, h.subscribed⟩

theorem kept_setJob (n : Node V) (name : JobID) (j : Job V) : Kept n.manager (setJob n name j).manager :=
  fun e he => ⟨e, he, rfl, fun _ h => h⟩

theorem produces_setJob {k : JobID} {tag : TagID} (hj : n.manager.jobs.lookup name = some j)
    (hp : ∀ t ∈ j.tagsProduced, t ∈ j'.tagsProduced) (h : Produces n.manager k tag) :
    Produces (setJob n name j').manager k tag := by
  obtain ⟨j₀, hj₀, ht⟩ := h
  unfold Produces
  rw [lookup_setJob]
  split
  · rename_i hk
    subst hk
    rw [hj] at hj₀
    obtain rfl := Option.some.inj hj₀
    exact ⟨j', rfl, hp tag ht⟩
  · exact ⟨j₀, hj₀, ht⟩

/-- A job declares the tags that it did, or new ones. -/
theorem produces_of_setJob {k : JobID} {tag : TagID} (hj : n.manager.jobs.lookup name = some j)
    (h : Produces (setJob n name j').manager k tag) :
    Produces n.manager k tag ∨ k = name ∧ tag ∉ j.tagsProduced ∧ tag ∈ j'.tagsProduced := by
  obtain ⟨j₀, hj₀, ht⟩ := h
  rw [lookup_setJob] at hj₀
  split at hj₀
  · rename_i hk
    subst hk
    obtain rfl := Option.some.inj hj₀
    by_cases hold : tag ∈ j.tagsProduced
    · exact .inl ⟨j, hj, hold⟩
    · exact .inr ⟨rfl, hold, ht⟩
  · exact .inl ⟨j₀, hj₀, ht⟩

theorem Declared.setJob (h : Declared n) (hj : n.manager.jobs.lookup name = some j)
    (hp : j'.tagsProduced = j.tagsProduced) : Declared (setJob n name j') := by
  have hiff (k : JobID) (tag : TagID) (hk : Produces (PublishedValues.setJob n name j').manager k tag) :
      Produces n.manager k tag :=
    (produces_of_setJob hj hk).resolve_right fun hnew => hnew.2.1 (hp ▸ hnew.2.2)
  intro hrun k tag hk
  obtain ⟨hmem, huniq⟩ := h hrun k tag (hiff k tag hk)
  exact ⟨hmem, fun k' hk' => huniq k' (hiff k' tag hk')⟩

/-- A job reads, subscribes or declares. -/
theorem Books.job (h : Books s i n.manager) (hj : n.manager.jobs.lookup name = some j)
    (hlast : j'.lastPublishedVersion = j.lastPublishedVersion) (hprod : ∀ tag ∈ j.tagsProduced, tag ∈ j'.tagsProduced)
    {fetched : Reader → List (VersionID × V)} (hf : ∀ k tag, k ≠ name → fetched (i, k, tag) = s.fetched (i, k, tag))
    (hbuf : ∀ tag info b, j'.bufs.lookup tag = some info → info.buffer = some b →
      Buffered (Source s i tag) (fetched (i, name, tag)) b)
    (hord : ∀ tag, (fetched (i, name, tag)).Pairwise fun f g => f.1 < g.1)
    (hsrc : ∀ tag, ∀ f ∈ fetched (i, name, tag), Source s i tag f.1 f.2) :
    Books { s with fetched := fetched } i (setJob n name j').manager where
  buffered k jk hk tag info b hi hb := by
    rw [lookup_setJob] at hk
    split at hk
    · rename_i hkn
      subst hkn
      obtain rfl := Option.some.inj hk
      exact hbuf tag info b hi hb
    · rename_i hkn
      show Buffered _ (fetched (i, k, tag)) b
      rw [hf k tag hkn]
      exact h.buffered k jk hk tag info b hi hb
  counter k jk hk tag := by
    rw [lookup_setJob] at hk
    split at hk
    · rename_i hkn
      subst hkn
      obtain rfl := Option.some.inj hk
      rw [hlast]
      exact h.counter k j hj tag
    · exact h.counter k jk hk tag
  numbered := h.numbered
  ordered k tag := by
    show (fetched (i, k, tag)).Pairwise _
    by_cases hkn : k = name
    · rw [hkn]
      exact hord tag
    · rw [hf k tag hkn]
      exact h.ordered k tag
  source k tag f hfm := by
    change f ∈ fetched (i, k, tag) at hfm
    by_cases hkn : k = name
    · rw [hkn] at hfm
      exact hsrc tag f hfm
    · rw [hf k tag hkn] at hfm
      exact h.source k tag f hfm
  produced p hp hi := produces_setJob hj hprod (h.produced p hp hi)
  single := h.single

theorem Books.read (h : Books s i n.manager) (hj : n.manager.jobs.lookup name = some j) {w : Job.Waiter}
    {value : Option V} (hv : j.getValue w = some (value, j')) :
    Books { s with
        fetched := Function.update s.fetched (i, name, w.tag)
          (s.fetched (i, name, w.tag) ++ value.toList.map fun v => (storedVersion j w.tag, v)) }
      i (setJob n name j').manager := by
  have hne {k : JobID} {tag : TagID} (hk : k ≠ name ∨ tag ≠ w.tag) :
      ((i, k, tag) : Reader) ≠ (i, name, w.tag) := by
    simp only [Ne, Prod.mk.injEq, true_and, not_and_or]
    exact hk
  rcases getValue_cases hv with ⟨rfl, rfl⟩ | ⟨info, b, b', v, hi, hb, hg, rfl, rfl⟩
  · refine h.job hj rfl (fun _ ht => ht) (fun k tag hk => Function.update_of_ne (hne (.inl hk)) _ _)
      (fun tag info b hi hb => ?_) (fun tag => ?_) fun tag f hf => ?_
    all_goals rw [Option.toList_none, List.map_nil, List.append_nil, Function.update_eq_self] at *
    · exact h.buffered name j' hj tag info b hi hb
    · exact h.ordered name tag
    · exact h.source name tag f hf
  · obtain ⟨hsrc, hlt, hbuf⟩ := (h.buffered name j hj w.tag info b hi hb).get hg
    have hstored : storedVersion j w.tag = b.storedVersion := by
      unfold storedVersion
      rw [hi, Option.bind_some, hb]
      rfl
    rw [hstored]
    refine h.job hj (Job.setInfo_lastPublishedVersion j w.tag _) (fun _ ht => ht)
      (fun k tag hk => Function.update_of_ne (hne (.inl hk)) _ _)
      (fun tag info₁ b₁ hi₁ hb₁ => ?_) (fun tag => ?_) fun tag f hf => ?_
    · by_cases ht : tag = w.tag
      · subst ht
        rw [Job.setInfo_self] at hi₁
        obtain rfl := Option.some.inj hi₁
        obtain rfl := Option.some.inj hb₁
        rw [Function.update_self]
        exact hbuf
      · rw [Job.setInfo_of_ne _ _ ht] at hi₁
        rw [Function.update_of_ne (hne (.inr ht))]
        exact h.buffered name j hj tag info₁ b₁ hi₁ hb₁
    · by_cases ht : tag = w.tag
      · subst ht
        rw [Function.update_self]
        refine List.pairwise_append.mpr ⟨h.ordered name _, List.pairwise_singleton _ _, fun f hf g hg' => ?_⟩
        rw [List.mem_singleton.mp hg']
        exact hlt f hf
      · rw [Function.update_of_ne (hne (.inr ht))]
        exact h.ordered name tag
    · by_cases ht : tag = w.tag
      · subst ht
        rw [Function.update_self] at hf
        rcases List.mem_append.mp hf with hf | hf
        · exact h.source name _ f hf
        · rw [List.mem_singleton.mp hf]
          exact hsrc
      · rw [Function.update_of_ne (hne (.inr ht))] at hf
        exact h.source name tag f hf

/-- A new subscription starts from nothing. -/
theorem Books.renew (h : Books s i n.manager) (hj : n.manager.jobs.lookup name = some j) {tags : List PublishTagBase}
    {ptr : Option (DiscardOldVersionTagBuffer V)} (hptr : ∀ b, ptr = some b → b.storedVersion = tagNoData)
    (hv : j.initOrUpdateSubscribe (tags.map fun t => (t.id, t.expectedTypes, ptr)) = some j') :
    Books (s.forget i name (tags.map (·.id))) i (setJob n name j').manager := by
  obtain ⟨hlast, hprod, hbufs⟩ := renewed_tags hptr hv
  refine h.job hj hlast (fun tag ht => hprod ▸ ht) (fun k tag hk => if_neg fun hc => hk hc.2.1)
    (fun tag info b hi hb => ?_) (fun tag => ?_) fun tag f hf => ?_
  · rcases hbufs tag info hi with ⟨ht, he⟩ | ⟨ht, hi⟩
    · rw [if_pos ⟨rfl, rfl, ht⟩]
      exact .empty (he b hb)
    · rw [if_neg fun hc => ht hc.2.2]
      exact h.buffered name j hj tag info b hi hb
  · split
    · exact .nil
    · exact h.ordered name tag
  · split at hf
    · cases hf
    · exact h.source name tag f hf

theorem publishImpl_cases {tag : TagID} {version : VersionID} (h : j.publishImpl tag = some (version, j')) :
    tag ∈ j.tagsProduced ∧ version = (j.lastPublishedVersion.lookup tag).getD tagNoData + 1 ∧
      j' = { j with lastPublishedVersion := j.lastPublishedVersion.insert tag version } := by
  unfold Job.publishImpl at h
  split at h
  · rename_i hp
    cases h
    exact ⟨AList.lookup_isSome.mp hp, rfl, rfl⟩
  · cases h

theorem Books.publish (h : Books s i n.manager) (hj : n.manager.jobs.lookup name = some j) {tag : TagID}
    {version : VersionID} (hv : j.publishImpl tag = some (version, j'))
    (huniq : ∀ k, Produces n.manager k tag → k = name) (value : V) :
    Books { s with published := s.published ++ [⟨i, name, tag, version, value⟩] } i (setJob n name j').manager := by
  obtain ⟨hprod, hver, rfl⟩ := publishImpl_cases hv
  rw [h.counter name j hj tag, versionAt_add_one] at hver
  have hpubs (k : JobID) (t : TagID) :
      pubsOf { s with published := s.published ++ [⟨i, name, tag, version, value⟩] } (i, k, t) =
        pubsOf s (i, k, t) ++ if k = name ∧ t = tag then [⟨i, name, tag, version, value⟩] else [] := by
    unfold pubsOf
    rw [List.filter_append]
    congr 1
    by_cases hkt : k = name ∧ t = tag
    · rw [if_pos hkt, hkt.1, hkt.2]
      exact List.filter_cons_of_pos (decide_eq_true ⟨rfl, rfl, rfl⟩)
    · rw [if_neg hkt]
      exact List.filter_cons_of_neg fun hd => hkt ⟨(of_decide_eq_true hd).2.1.symm, (of_decide_eq_true hd).2.2.symm⟩
  have hmem : ∀ p ∈ s.published, p ∈ s.published ++ [⟨i, name, tag, version, value⟩] :=
    fun p hp => List.mem_append_left _ hp
  have hold : ∀ p ∈ s.published, p.machine = i → p.tag = tag → p.job = name := fun p hp hi ht =>
    huniq p.job (ht ▸ h.produced p hp hi)
  refine ⟨fun k jk hk t info b hi hb => ?_, fun k jk hk t => ?_, fun k t => ?_, h.ordered, fun k t f hf => ?_,
    fun p hp hi => ?_, fun p hp p' hp' hi hi' ht => ?_⟩
  · have hb' : Buffered (Source s i t) (s.fetched (i, k, t)) b := by
      rw [lookup_setJob] at hk
      split at hk
      · rename_i hkn
        subst hkn
        obtain rfl := Option.some.inj hk
        exact h.buffered k j hj t info b hi hb
      · exact h.buffered k jk hk t info b hi hb
    exact hb'.mono fun _ _ hs => hs.grow (fun _ _ _ h => h) hmem
  · rw [hpubs, List.length_append]
    rw [lookup_setJob] at hk
    split at hk
    · rename_i hkn
      subst hkn
      obtain rfl := Option.some.inj hk
      by_cases ht : t = tag
      · subst ht
        rw [if_pos ⟨rfl, rfl⟩, AList.lookup_insert, Option.getD_some]
        exact hver
      · rw [if_neg fun hc => ht hc.2, AList.lookup_insert_ne ht]
        exact h.counter k j hj t
    · rename_i hkn
      rw [if_neg fun hc => hkn hc.1]
      exact h.counter k jk hk t
  · rw [hpubs, List.map_append, List.length_append, h.numbered]
    split
    · rename_i hkt
      obtain ⟨rfl, rfl⟩ := hkt
      rw [List.length_singleton, List.range_succ, List.map_append, hver]
      rfl
    · rw [List.map_nil, List.append_nil, List.length_nil, Nat.add_zero]
  · exact (h.source k t f hf).grow (fun _ _ _ h => h) hmem
  · rcases List.mem_append.mp hp with hp | hp
    · exact produces_setJob hj (fun _ ht => ht) (h.produced p hp hi)
    · rw [List.mem_singleton.mp hp]
      exact produces_setJob hj (fun _ ht => ht) ⟨j, hj, hprod⟩
  · rcases List.mem_append.mp hp with hp | hp
    · rcases List.mem_append.mp hp' with hp' | hp'
      · exact h.single p hp p' hp' hi hi' ht
      · obtain rfl := List.mem_singleton.mp hp'
        exact (hold p hp hi ht.symm).symm
    · obtain rfl := List.mem_singleton.mp hp
      rcases List.mem_append.mp hp' with hp' | hp'
      · exact hold p' hp' hi' ht
      · rw [List.mem_singleton.mp hp']

theorem mem_declared {tags : List PublishTagBase} {tag : TagID} :
    tag ∈ (declarePublicationIntent tags j).tagsProduced ↔ tag ∈ j.tagsProduced ∨ tag ∈ tags.map (·.id) := by
  unfold declarePublicationIntent
  dsimp only
  generalize j.tagsProduced = produced
  induction tags generalizing produced with
  | nil => simp
  | cons t tags ih =>
    rw [List.foldl_cons, ih, AList.mem_insertNew, List.map_cons, List.mem_cons, or_right_comm, or_comm]

end Jobs

/-! ## Steps -/

section Steps

variable [Typed V] {s s' : Net V} {i : MachineID} {n n' : Node V}

omit [Typed V] in
/-- One machine has moved, and the histories with it. -/
theorem Inv.put (h : Inv s) (hn : s'.nodes = s.nodes) (hothers : ∀ k, k ≠ i → Grows s s' k)
    (hkept : Kept (s.nodes i).manager n.manager) (hl : Links s' i n.manager) (hb : Books s' i n.manager)
    (hd : Declared n) : Inv (s'.put i n) := by
  have hask (a b : MachineID) (tag : TagID) (ha : Asked s' a b tag) : Asked (s'.put i n) a b tag := by
    obtain ⟨e, he, hid, ht⟩ := ha
    by_cases hai : a = i
    · subst hai
      rw [hn] at he
      obtain ⟨e', he', hid', hsent⟩ := hkept e he
      obtain ⟨msg, hm, ht⟩ := List.mem_flatMap.mp ht
      refine ⟨e', ?_, hid'.trans hid, List.mem_flatMap.mpr ⟨msg, hsent msg hm, ht⟩⟩
      show Record (Function.update s'.nodes a n a).manager e'
      rwa [Function.update_self]
    · refine ⟨e, ?_, hid, ht⟩
      show Record (Function.update s'.nodes i n a).manager e
      rwa [Function.update_of_ne hai]
  have hgrow (k : MachineID) : Grows s' (s'.put i n) k :=
    ⟨hask, ⟨[], (List.append_nil _).symm, List.forall_mem_nil _⟩, fun _ _ => rfl⟩
  refine ⟨fun k => ?_, fun k => ?_, fun k => ?_⟩
  · show Links _ k (Function.update s'.nodes i n k).manager
    by_cases hki : k = i
    · subst hki
      rw [Function.update_self]
      exact hl.grow hask fun _ hp => hp
    · rw [Function.update_of_ne hki, hn]
      exact ((h.links k).grow (hothers k hki).asked (hothers k hki).mem).grow hask fun _ hp => hp
  · show Books _ k (Function.update s'.nodes i n k).manager
    by_cases hki : k = i
    · subst hki
      rw [Function.update_self]
      exact hb.grow (hgrow k)
    · rw [Function.update_of_ne hki, hn]
      exact ((h.books k).grow (hothers k hki)).grow (hgrow k)
  · show Declared (Function.update s'.nodes i n k)
    by_cases hki : k = i
    · subst hki
      rw [Function.update_self]
      exact hd
    · rw [Function.update_of_ne hki, hn]
      exact h.declared k

omit [Typed V] in
theorem Grows.refl (s : Net V) (k : MachineID) : Grows s s k :=
  ⟨fun _ _ _ h => h, ⟨[], (List.append_nil _).symm, List.forall_mem_nil _⟩, fun _ _ => rfl⟩

theorem not_stopped {l : Label V} (h : n.step l = some n') : n.stopped = none := by
  unfold Node.step at h
  split at h
  · rename_i he
    exact Option.isNone_iff_eq_none.mp (Bool.and_eq_true_iff.mp he).1
  · cases h

/-- What holds of every step of a machine but a message. -/
theorem act_step {l : Label V} (hp : Proper n.manager) (h : n.step l = some n')
    (hmsg : ∀ msg env, l ≠ .message msg env) :
    Proper n'.manager ∧ ∀ tag ∈ n.manager.selfSubCount, tag ∈ n'.manager.selfSubCount := by
  obtain ⟨he, hact⟩ := node_step h
  have ht : Publishers.Told (fun _ _ => False) n.manager n'.manager := by
    rcases hact with hm | hact
    · rw [hm]
      exact .of_calm (.refl _)
    · exact (Publishers.act_told hp he hmsg).of_ok hact
  exact ⟨ht.proper hp, ht.selfSubCount⟩

theorem own_carried {news : MachineID → Message V → Prop} {subs : MachineID → TagID → Prop}
    {src : TagID → VersionID → V → Prop} {l : Label V} (h : n.step l = some n') (hmsg : ∀ msg env, l ≠ .message msg env)
    (hpub : ∀ version tag value env, l ≠ .publish version tag value env) :
    Carried news subs src n.manager n'.manager := by
  rcases (node_step h).2 with hm | hact
  · rw [hm]
    exact .refl _
  · exact (act_carried hmsg hpub).of_ok hact

theorem inv_act (h : Inv s) {l : Label V} (hstep : (s.nodes i).step l = some n) (hown : isOwn l = true) :
    Inv (s.put i n) := by
  have hmsg : ∀ msg env, l ≠ .message msg env := fun msg env hl => by
    rw [hl] at hown
    cases hown
  have hpub : ∀ version tag value env, l ≠ .publish version tag value env := fun version tag value env hl => by
    rw [hl] at hown
    cases hown
  have hc : Carried (fun _ _ => False) (fun _ _ => False) (fun _ _ _ => False) (s.nodes i).manager n.manager :=
    own_carried hstep hmsg hpub
  obtain ⟨hproper, hself⟩ := act_step (h.links i).proper hstep hmsg
  exact h.put rfl (fun k _ => .refl s k) hc.kept
    ((h.links i).carry hc hproper (fun _ _ h => h.elim) fun _ _ h => h.elim)
    ((h.books i).carry hc fun _ _ _ h => h.elim)
    ((h.declared i).carry hc hself fun _ => not_stopped hstep)

omit [Typed V] in
theorem mem_messagesTo_id {m : Manager V} {id : MachineID} {msg : Message V} (h : msg ∈ messagesTo m id) :
    ∃ e, Record m e ∧ e.id = id ∧ msg ∈ e.sent := by
  obtain ⟨e, he, hm⟩ := List.mem_flatMap.mp h
  obtain ⟨he, hid⟩ := List.mem_filter.mp he
  refine ⟨e, ?_, of_decide_eq_true hid, hm⟩
  rcases List.mem_append.mp he with h | h
  · obtain ⟨⟨key, e'⟩, hk, rfl⟩ := List.mem_map.mp h
    exact .inl ⟨key, AList.mem_entries_iff.mp hk⟩
  · exact .inr h

theorem inv_deliver (h : Inv s) {id : MachineID} {todo : List MachineID} {msg : Message V} {env : Env}
    (hpc : (s.nodes i).pc = .messages (some id) todo) (hmem : msg ∈ messagesTo (s.nodes id).manager i)
    (hstep : (s.nodes i).step (.message msg env) = some n) : Inv (s.put i n) := by
  obtain ⟨e, he, hid, hm⟩ := mem_messagesTo_id hmem
  have hkeyed := (h.links i).proper
  have hboth : Carried (fun _ _ => False) (fun j tag => j = id ∧ tag ∈ msg.noticeTags)
      (fun tag version v => msg = .publishData tag (some v) version) (s.nodes i).manager n.manager ∧
      Proper n.manager ∧ ∀ tag ∈ (s.nodes i).manager.selfSubCount, tag ∈ n.manager.selfSubCount := by
    rcases (node_step hstep).2 with hman | hact
    · rw [hman]
      exact ⟨.refl _, hkeyed, fun _ h => h⟩
    · rw [hpc] at hact
      have ht := (Publishers.handleNext_told hkeyed).of_ok hact
      exact ⟨(handleNext_carried hkeyed.keyed).of_ok hact, ht.proper hkeyed, ht.selfSubCount⟩
  obtain ⟨hc, hproper, hself⟩ := hboth
  refine h.put rfl (fun k _ => .refl s k) hc.kept ((h.links i).carry hc hproper (fun _ _ h => h.elim) ?_)
    ((h.books i).carry hc ?_) ((h.declared i).carry hc hself fun _ => not_stopped hstep)
  · intro j tag hj
    obtain ⟨rfl, ht⟩ := hj
    exact ⟨e, he, hid, List.mem_flatMap.mpr ⟨msg, hm, ht⟩⟩
  · intro tag version v hv
    obtain ⟨p, hp, hmach, hmsg, hask⟩ := (h.links id).sent e he msg hm (by rw [hv]; rfl)
    rw [hv] at hmsg
    cases hmsg
    exact ⟨p, hp, rfl, rfl, rfl, .inr (hmach.symm ▸ hid ▸ hask)⟩

/-- A declaration goes through where the tags are new to the machine. -/
theorem declared_step {tags : List TagID} (h : n.step (.reportNewPublishTags tags) = some n')
    (hrun : n'.stopped = none) :
    (∀ tag ∈ tags, tag ∉ n.manager.selfSubCount ∧ tag ∈ n'.manager.selfSubCount) ∧
      ∀ tag ∈ n.manager.selfSubCount, tag ∈ n'.manager.selfSubCount := by
  have hends : (act (.reportNewPublishTags tags) n.pc n.manager).Ends (fun r =>
      (∀ tag ∈ tags, tag ∉ n.manager.selfSubCount ∧ tag ∈ r.2.selfSubCount) ∧
        ∀ tag ∈ n.manager.selfSubCount, tag ∈ r.2.selfSubCount) fun _ => True :=
    .bind (reportNewPublishTags_new tags n.manager) fun _ h => h
  unfold Node.step at h
  split at h
  · generalize act (.reportNewPublishTags tags) n.pc n.manager = r at h hends
    obtain rfl := Option.some.inj h
    cases r with
    | ok r => exact hends
    | error a => cases hrun
  · cases h

theorem inv_declare (h : Inv s) {name : JobID} {j : Job V} {tags : List PublishTagBase}
    (hj : jobOf (s.nodes i) name = some j)
    (hstep : (setJob (s.nodes i) name (declarePublicationIntent tags j)).step
      (.reportNewPublishTags (tags.map (·.id))) = some n) : Inv (s.put i n) := by
  obtain ⟨hrun, hlook⟩ := jobOf_eq hj
  have hl : Links s i (setJob (s.nodes i) name (declarePublicationIntent tags j)).manager := (h.links i).setJob
  have hlast : (declarePublicationIntent tags j).lastPublishedVersion = j.lastPublishedVersion := rfl
  have hb : Books s i (setJob (s.nodes i) name (declarePublicationIntent tags j)).manager :=
    (h.books i).job hlook hlast (fun _ ht => mem_declared.mpr (.inl ht)) (fun _ _ _ => rfl)
      (fun tag info b hi hb => (h.books i).buffered name j hlook tag info b hi hb) ((h.books i).ordered name)
      ((h.books i).source name)
  have hc : Carried (fun _ _ => False) (fun _ _ => False) (fun _ _ _ => False)
      (setJob (s.nodes i) name (declarePublicationIntent tags j)).manager n.manager :=
    own_carried hstep (fun _ _ hl => by cases hl) fun _ _ _ _ hl => by cases hl
  refine h.put rfl (fun k _ => .refl s k) hc.kept
    (hl.carry hc (act_step hl.proper hstep fun _ _ hl => by cases hl).1 (fun _ _ h => h.elim) fun _ _ h => h.elim)
    (hb.carry hc fun _ _ _ h => h.elim) fun hgoes k tag hk => ?_
  obtain ⟨hnew, hkept⟩ := declared_step hstep hgoes
  -- who declares the tag now did before, or is this job with a new tag
  have hwho {k : JobID} {tag : TagID} (hk : Produces n.manager k tag) :
      Produces (s.nodes i).manager k tag ∨ k = name ∧ tag ∈ tags.map (·.id) := by
    rcases produces_of_setJob hlook (hc.produces.mp hk) with hold | ⟨hk, hno, hyes⟩
    · exact .inl hold
    · exact .inr ⟨hk, (mem_declared.mp hyes).resolve_left hno⟩
  have hself {k : JobID} {tag : TagID} (hk : Produces (s.nodes i).manager k tag) : tag ∉ tags.map (·.id) :=
    fun ht => (hnew tag ht).1 (h.declared i hrun k tag hk).1
  rcases hwho hk with hold | ⟨hkn, ht⟩
  · obtain ⟨hmem, huniq⟩ := h.declared i hrun k tag hold
    exact ⟨hkept tag hmem, fun k' hk' => (hwho hk').elim (huniq k') fun h' => absurd h'.2 (hself hold)⟩
  · refine ⟨(hnew tag ht).2, fun k' hk' => ?_⟩
    rw [hkn]
    exact (hwho hk').elim (fun h' => absurd ht (hself h')) And.left

theorem inv_publish (h : Inv s) {name : JobID} {j j' : Job V} {tag : TagID} {version : VersionID} {value : V}
    {env : Env} (hj : jobOf (s.nodes i) name = some j) (hp : j.publishImpl tag = some (version, j'))
    (hstep : (setJob (s.nodes i) name j').step (.publish version tag value env) = some n) :
    Inv (Net.put { s with published := s.published ++ [⟨i, name, tag, version, value⟩] } i n) := by
  obtain ⟨hrun, hlook⟩ := jobOf_eq hj
  obtain ⟨htag, -, hj'⟩ := publishImpl_cases hp
  have hprod : j'.tagsProduced = j.tagsProduced := by rw [hj']
  have hmem : ∀ p ∈ s.published, p ∈ s.published ++ [⟨i, name, tag, version, value⟩] :=
    fun p hp => List.mem_append_left _ hp
  have hl : Links { s with published := s.published ++ [⟨i, name, tag, version, value⟩] } i
      (setJob (s.nodes i) name j').manager := (h.links i).setJob.grow (fun _ _ _ h => h) hmem
  have hb : Books { s with published := s.published ++ [⟨i, name, tag, version, value⟩] } i
      (setJob (s.nodes i) name j').manager :=
    (h.books i).publish hlook hp (h.declared i hrun name tag ⟨j, hlook, htag⟩).2 value
  have hd : Declared (setJob (s.nodes i) name j') := (h.declared i).setJob hlook hprod
  have hc : Carried (fun id msg => msg = .publishData tag (some value) version ∧
        ∃ e, Record (setJob (s.nodes i) name j').manager e ∧ e.id = id ∧ tag ∈ e.remoteSubscriptions)
      (fun _ _ => False) (fun t v x => t = tag ∧ v = version ∧ x = value)
      (setJob (s.nodes i) name j').manager n.manager := by
    rcases (node_step hstep).2 with hm | hact
    · rw [hm]
      exact .refl _
    · have hends : (act (.publish version tag value env) (setJob (s.nodes i) name j').pc
          (setJob (s.nodes i) name j').manager).Ends (fun r => Carried (fun id msg =>
            msg = .publishData tag (some value) version ∧
              ∃ e, Record (setJob (s.nodes i) name j').manager e ∧ e.id = id ∧ tag ∈ e.remoteSubscriptions)
            (fun _ _ => False) (fun t v x => t = tag ∧ v = version ∧ x = value)
            (setJob (s.nodes i) name j').manager r.2) fun _ => True :=
        .bind (publish_carried version tag value) fun _ h => h
      exact hends.of_ok hact
  obtain ⟨hproper, hself⟩ := act_step hl.proper hstep fun _ _ hl => by cases hl
  have hnew : (⟨i, name, tag, version, value⟩ : Publication V) ∈ s.published ++ [⟨i, name, tag, version, value⟩] :=
    List.mem_append_right _ (List.mem_singleton_self _)
  refine h.put rfl (fun k hk => ?_) hc.kept (hl.carry hc hproper ?_ fun _ _ h => h.elim) (hb.carry hc ?_)
    (hd.carry hc hself fun _ => hrun)
  · refine ⟨fun _ _ _ h => h, ⟨[⟨i, name, tag, version, value⟩], rfl, fun p hp => ?_⟩, fun _ _ => rfl⟩
    rw [List.mem_singleton.mp hp]
    exact hk.symm
  · rintro id msg ⟨rfl, e, he, rfl, ht⟩
    exact ⟨_, hnew, rfl, rfl, hl.subscribed e he tag ht⟩
  · rintro t v x ⟨rfl, rfl, rfl⟩
    exact ⟨_, hnew, rfl, rfl, rfl, .inl rfl⟩

omit [Typed V] in
/-- A job works on its buffers. -/
theorem inv_job (h : Inv s) {name : JobID} {j j' : Job V} (hj : jobOf (s.nodes i) name = some j)
    (hprod : j'.tagsProduced = j.tagsProduced) {fetched : Reader → List (VersionID × V)}
    (hf : ∀ k name tag, k ≠ i → fetched (k, name, tag) = s.fetched (k, name, tag))
    (hb : Books { s with fetched := fetched } i (setJob (s.nodes i) name j').manager) :
    Inv ({ s with fetched := fetched }.put i (setJob (s.nodes i) name j')) := by
  refine h.put rfl (fun k hk => ?_) (kept_setJob _ _ _) ((h.links i).setJob.grow (fun _ _ _ h => h) fun _ h => h) hb
    ((h.declared i).setJob (jobOf_eq hj).2 hprod)
  exact ⟨fun _ _ _ h => h, ⟨[], (List.append_nil _).symm, List.forall_mem_nil _⟩, fun _ _ => hf k _ _ hk⟩

omit [Typed V] in
theorem inv_renew (h : Inv s) {name : JobID} {j j' : Job V} (hj : jobOf (s.nodes i) name = some j)
    {tags : List PublishTagBase} {ptr : Option (DiscardOldVersionTagBuffer V)}
    (hptr : ∀ b, ptr = some b → b.storedVersion = tagNoData)
    (hv : j.initOrUpdateSubscribe (tags.map fun t => (t.id, t.expectedTypes, ptr)) = some j') :
    Inv ((s.put i (setJob (s.nodes i) name j')).forget i name (tags.map (·.id))) := by
  exact inv_job h hj (renewed_tags hptr hv).2.1 (fun k _ _ hk => if_neg fun hc => hk hc.1)
    ((h.books i).renew (jobOf_eq hj).2 hptr hv)

theorem inv_step {t : Net V} {l : Lbl V} (h : Inv s) (hst : step s l = some t) : Inv t := by
  cases l with
  | act i l =>
    simp only [step] at hst
    split at hst
    · rename_i hown
      obtain ⟨n, hn, rfl⟩ := Option.map_eq_some_iff.mp hst
      exact inv_act h hn hown
    · cases hst
  | deliver i k env =>
    simp only [step] at hst
    split at hst
    · rename_i id todo hpc
      obtain ⟨msg, hmsg, hst⟩ := Option.bind_eq_some_iff.mp hst
      obtain ⟨n, hn, rfl⟩ := Option.map_eq_some_iff.mp hst
      exact inv_deliver h hpc (List.mem_of_getElem? hmsg) hn
    · cases hst
  | declare i name tags =>
    obtain ⟨j, hj, hst⟩ := Option.bind_eq_some_iff.mp hst
    obtain ⟨n, hn, rfl⟩ := Option.map_eq_some_iff.mp hst
    exact inv_declare h hj hn
  | publish i name tag value env =>
    obtain ⟨j, hj, hst⟩ := Option.bind_eq_some_iff.mp hst
    obtain ⟨⟨version, j'⟩, hp, hst⟩ := Option.bind_eq_some_iff.mp hst
    obtain ⟨n, hn, rfl⟩ := Option.map_eq_some_iff.mp hst
    exact inv_publish h hj hp hn
  | subscribe i name tags =>
    obtain ⟨j, hj, hst⟩ := Option.bind_eq_some_iff.mp hst
    obtain ⟨j', hj', rfl⟩ := Option.map_eq_some_iff.mp hst
    exact inv_renew h hj (fun b hb => Option.some.inj hb ▸ rfl) hj'
  | rebuildTags i name tags =>
    obtain ⟨j, hj, hst⟩ := Option.bind_eq_some_iff.mp hst
    obtain ⟨r, hr, rfl⟩ := Option.map_eq_some_iff.mp hst
    obtain ⟨j', hj', rfl⟩ := Option.map_eq_some_iff.mp hr
    exact inv_renew h hj (fun b hb => by cases hb) hj'
  | read i name w =>
    obtain ⟨j, hj, hst⟩ := Option.bind_eq_some_iff.mp hst
    obtain ⟨⟨value, j'⟩, hv, rfl⟩ := Option.map_eq_some_iff.mp hst
    have hprod : j'.tagsProduced = j.tagsProduced := by
      rcases getValue_cases hv with ⟨-, rfl⟩ | ⟨_, _, _, _, -, -, -, -, rfl⟩
      · rfl
      · rfl
    refine inv_job h hj hprod (fun k name' tag hk => Function.update_of_ne (fun he => hk ?_) _ _)
      ((h.books i).read (jobOf_eq hj).2 hv)
    exact congrArg Prod.fst he

end Steps

omit [Typed V] in
theorem inv_init {s : Net V} (h : Initial s) : Inv s := by
  obtain ⟨hn, hpub, hf⟩ := h
  have hm (i : MachineID) : (s.nodes i).manager.neighbors = ∅ ∧ (s.nodes i).manager.removed = [] ∧
      ∀ name j, (s.nodes i).manager.jobs.lookup name = some j → j = .create := by
    obtain ⟨port, interval, jobs, hi, hjobs⟩ := hn i
    rw [hi]
    exact ⟨rfl, rfl, hjobs⟩
  have hno (i : MachineID) (e : ExternalManager V) : ¬ Record (s.nodes i).manager e := by
    rintro (⟨id, h⟩ | h)
    · rw [(hm i).1] at h
      cases h
    · rw [(hm i).2.1] at h
      cases h
  have hpubs (r : Reader) : pubsOf s r = [] := by
    unfold pubsOf
    rw [hpub]
    rfl
  refine ⟨fun i => ⟨⟨fun key e h => ((hno i e) (.inl ⟨key, h⟩)).elim, fun key e h => ((hno i e) (.inl ⟨key, h⟩)).elim⟩,
    fun e he => (hno i e he).elim, fun e he => (hno i e he).elim⟩, fun i => ?_, fun i _ name tag hp => ?_⟩
  · refine ⟨fun name j hj tag info b hi => ?_, fun name j hj tag => ?_, fun name tag => ?_, fun name tag => ?_,
      fun name tag f hm => ?_, fun p hp => ?_, fun p hp => ?_⟩
    · rw [(hm i).2.2 name j hj] at hi
      cases hi
    · rw [(hm i).2.2 name j hj, hpubs]
      rfl
    · rw [hpubs]
      rfl
    · rw [hf]
      exact .nil
    · rw [hf] at hm
      cases hm
    · rw [hpub] at hp
      cases hp
    · rw [hpub] at hp
      cases hp
  · obtain ⟨j, hj, ht⟩ := hp
    rw [(hm i).2.2 name j hj] at ht
    cases ht

theorem inv_inductive [Typed V] : (lts V).Inductive Inv where
  init _ h := inv_init h
  step _ _ _ h hst := inv_step h hst

/-! ## What is read -/

/-- Lists by rising versions: what is in the other comes in its order. -/
theorem sublist_of_increasing {l l' : List (VersionID × V)} (h : l.Pairwise fun f g => f.1 < g.1)
    (h' : l'.Pairwise fun f g => f.1 < g.1) (hsub : ∀ f ∈ l, f ∈ l') : l.Sublist l' := by
  have hnodup : l.Nodup := h.imp fun hlt he => (UInt32.ne_of_lt hlt) (congrArg Prod.fst he)
  have : Std.Antisymm fun f g : VersionID × V => f.1 < g.1 :=
    ⟨fun _ _ hlt hgt => absurd (UInt32.lt_trans hlt hgt) (UInt32.lt_irrefl _)⟩
  exact List.sublist_of_subperm_of_pairwise (List.subperm_of_subset hnodup hsub) h h'

/-- The versions of a job rise until they wrap around. -/
theorem Books.increasing {s : Net V} {i : MachineID} {m : Manager V} (h : Books s i m) {name : JobID} {tag : TagID}
    (hn : (pubsOf s (i, name, tag)).length ≤ 2 ^ 32) :
    (pubsOf s (i, name, tag)).Pairwise fun p q => p.version < q.version := by
  refine List.pairwise_map.mp ?_
  rw [h.numbered, List.pairwise_map]
  refine List.pairwise_lt_range.imp_of_mem fun {a b} ha hb hlt => ?_
  rw [List.mem_range] at ha hb
  exact (versionAt_lt (by omega) (by omega) (by omega) (by omega)).mpr (by omega)

/-- On a machine one job publishes on a tag. -/
theorem Books.filter_tag {s : Net V} {i : MachineID} {m : Manager V} (h : Books s i m) {tag : TagID}
    (hi : ∀ p ∈ s.published, p.tag = tag → p.machine = i) {p : Publication V} (hp : p ∈ s.published)
    (ht : p.tag = tag) : s.published.filter (·.tag = tag) = pubsOf s (i, p.job, tag) := by
  refine List.filter_congr fun q hq => ?_
  by_cases hqt : q.tag = tag
  · have hjob : q.job = p.job := h.single p hp q hq (hi p hp ht) (hi q hq hqt) (hqt.trans ht.symm)
    rw [decide_eq_true hqt, eq_comm, decide_eq_true_eq]
    exact ⟨hi q hq hqt, hjob, hqt⟩
  · rw [decide_eq_false hqt, eq_comm, decide_eq_false_iff_not]
    exact fun hc => hqt hc.2.2

section Reads

variable [Typed V] {s : Net V}

/-- **Values are not invented.** In every state of every run of a network, a
published value that was ever sent is a publication of its sender, and its
receiver has sent the sender a subscription to the tag; and what a job has in a
buffer or has read was published, under the version it is known by, on its own
machine or on one that its machine has sent a subscription to. -/
theorem values_not_invented (h : (lts V).Reachable s) :
    (∀ i e, Record (s.nodes i).manager e → ∀ msg ∈ e.sent, msg.isPublishData = true →
      ∃ p ∈ s.published, p.machine = i ∧ msg = .publishData p.tag (some p.value) p.version ∧ Asked s e.id i p.tag) ∧
      (∀ i name j, (s.nodes i).manager.jobs.lookup name = some j → ∀ tag info b, j.bufs.lookup tag = some info →
        info.buffer = some b → b.storedVersion ≠ tagNoData → ∃ v, b.value = some v ∧ Source s i tag b.storedVersion v) ∧
      ∀ i name tag, ∀ f ∈ s.fetched (i, name, tag), Source s i tag f.1 f.2 :=
  have hs := inv_inductive.reachable s h
  ⟨fun i => (hs.links i).sent,
    fun i name j hj tag info b hi hb => ((hs.books i).buffered name j hj tag info b hi hb).stored,
    fun i => (hs.books i).source⟩

/-- **Reads are in order.** A job reads a subsequence of what was published on
a tag, where one machine publishes on it, and not so often that the versions
repeat. -/
theorem reads_in_order (h : (lts V).Reachable s) {tag : TagID} {k : MachineID}
    (hk : ∀ p ∈ s.published, p.tag = tag → p.machine = k)
    (hn : (s.published.filter (·.tag = tag)).length ≤ 2 ^ 32) (i : MachineID) (name : JobID) :
    (s.fetched (i, name, tag)).Sublist
      ((s.published.filter (·.tag = tag)).map fun p => (p.version, p.value)) := by
  have hs := inv_inductive.reachable s h
  have hmem : ∀ f ∈ s.fetched (i, name, tag),
      f ∈ (s.published.filter (·.tag = tag)).map fun p => (p.version, p.value) := by
    intro f hf
    obtain ⟨p, hp, ht, hv, hval, -⟩ := (hs.books i).source name tag f hf
    exact List.mem_map.mpr ⟨p, List.mem_filter.mpr ⟨hp, decide_eq_true ht⟩, Prod.ext hv hval⟩
  have hrise : ((s.published.filter (·.tag = tag)).map fun p => (p.version, p.value)).Pairwise
      fun f g => f.1 < g.1 := by
    rw [List.pairwise_map]
    cases hl : s.published.filter (·.tag = tag) with
    | nil => exact .nil
    | cons p l =>
      have hp : p ∈ s.published.filter (·.tag = tag) := by
        rw [hl]
        exact List.mem_cons_self
      obtain ⟨hp, ht⟩ := List.mem_filter.mp hp
      have hpubs := (hs.books k).filter_tag hk hp (of_decide_eq_true ht)
      rw [← hl, hpubs]
      exact (hs.books k).increasing (hpubs ▸ hn)
  exact sublist_of_increasing ((hs.books i).ordered name tag) hrise hmem

end Reads

/-! ## One value overtakes another -/

/-- Machines that have just started, each with a job. -/
def started : Net Nat where
  nodes i := ⟨.idle, { Manager.create 1 i 5000 with jobs := AList.singleton ['j'] .create }, none⟩
  published := []
  fetched _ := []

theorem started_initial : Initial started := by
  refine ⟨fun _ => ⟨1, 5000, AList.singleton ['j'] .create, rfl, fun name j hj => ?_⟩, rfl, fun _ => rfl⟩
  obtain ⟨-, hj⟩ : name = ['j'] ∧ j = .create := by
    have hmem := AList.mem_entries_iff.mpr hj |> List.mem_singleton.mp
    cases hmem
    exact ⟨rfl, rfl⟩
  exact hj

def level : PublishTagBase := .create ['p'] []

/-- `i` connects to `j` and is about to read from it. -/
def connects (i j : MachineID) : List (Lbl Nat) :=
  [.act i (.connectToServer (j, 1) quietEnv),
    .act i (.beginPass quietEnv), .act i (.conn (.connected .noError) quietEnv), .act i (.endConns quietEnv),
    .act i (.endAccept quietEnv), .act i (.endMessages quietEnv), .act i (.endPass quietEnv),
    .act i (.beginPass quietEnv), .act i (.conn (.message (.greeting j [] 1) j) quietEnv),
    .act i (.endConns quietEnv), .act i (.endAccept quietEnv), .act i .nextNeighbor]

/-- A job of `a` subscribes to what a job of `b` declares. -/
def subscribed : List (Lbl Nat) :=
  [.declare ['b'] ['j'] [level], .subscribe ['a'] ['j'] [level], .act ['a'] (.subscribe [level.id] quietEnv)] ++
    connects ['a'] ['b'] ++ connects ['b'] ['a'] ++
    [.deliver ['b'] 0 quietEnv, .deliver ['a'] 0 quietEnv, .act ['a'] (.init quietEnv), .deliver ['b'] 1 quietEnv,
      .act ['b'] (.endMessages quietEnv), .act ['b'] (.remove quietEnv), .act ['b'] (.endPass quietEnv)]

/-- The second of three values arrives before the first. -/
def overtaken : List (Lbl Nat) :=
  subscribed ++
    [.publish ['b'] ['j'] level.id 5 quietEnv, .publish ['b'] ['j'] level.id 6 quietEnv, .deliver ['a'] 2 quietEnv,
      .read ['a'] ['j'] ⟨level.id, 0⟩, .deliver ['a'] 1 quietEnv, .read ['a'] ['j'] ⟨level.id, 0⟩,
      .publish ['b'] ['j'] level.id 7 quietEnv, .deliver ['a'] 3 quietEnv, .read ['a'] ['j'] ⟨level.id, 0⟩]

theorem overtaken_ends : ∃ s, LTS.exec step started overtaken = some s ∧
    s.published = [⟨['b'], ['j'], level.id, 0, 5⟩, ⟨['b'], ['j'], level.id, 1, 6⟩, ⟨['b'], ['j'], level.id, 2, 7⟩] ∧
      s.fetched (['a'], ['j'], level.id) = [(1, 6), (2, 7)] :=
  ⟨_, rfl, rfl, rfl⟩

theorem values_not_invented_overtaken : ∃ s : Net Nat, Source s ['a'] level.id 1 6 ∧ Asked s ['a'] ['b'] level.id := by
  obtain ⟨s, hx, hp, hf⟩ := overtaken_ends
  obtain ⟨p, hp', ht, hv, hval, hfrom⟩ :=
    (values_not_invented (LTS.reachable_of_exec started_initial hx)).2.2 ['a'] ['j'] level.id (1, 6)
      (by rw [hf]; exact List.mem_cons_self)
  refine ⟨s, ⟨p, hp', ht, hv, hval, hfrom⟩, ?_⟩
  have hm : p.machine = ['b'] := by
    rw [hp] at hp'
    simp only [List.mem_cons, List.not_mem_nil, or_false] at hp'
    rcases hp' with rfl | rfl | rfl <;> rfl
  rw [hm] at hfrom
  exact hfrom.resolve_left (by decide)

theorem reads_in_order_overtaken : ∃ s : Net Nat, s.fetched (['a'], ['j'], level.id) = [(1, 6), (2, 7)] ∧
    (s.fetched (['a'], ['j'], level.id)).Sublist [(0, 5), (1, 6), (2, 7)] := by
  obtain ⟨s, hx, hp, hf⟩ := overtaken_ends
  have hk : ∀ p ∈ s.published, p.tag = level.id → p.machine = ['b'] := by
    rw [hp]
    decide
  have hsub := reads_in_order (LTS.reachable_of_exec started_initial hx) hk (by rw [hp]; decide) ['a'] ['j']
  rw [hp] at hsub
  exact ⟨s, hf, hsub⟩

end Skywing.L5.PublishedValues
