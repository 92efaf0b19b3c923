import Skywing.Core.LTS
import Skywing.Core.Maps
import Skywing.L3Protocol.ExternalManager
import Skywing.L3Protocol.Job

/-!
# Rebuilding broken tags

`Job::rebuild_missing_tag_connections` (`skywing_core/job.hpp`) collects the
ids of the entries with an error. An id begins with its kind; the collection
takes that letter off and lets the constructor of a publish tag put one on
again. It passes null buffers, since `init_or_update_subscribe` only needs a
buffer for an id that it does not find.

The id of a private tag comes back as that of a publish tag: the entry stays
broken, and the other id is entered with the null buffer.

Results:
* `rebuilt_iff`: in every run, a rebuild rebuilds exactly the broken tags
  exactly where no private tag is broken.
* `not_rebuilt`: one private tag.
-/
namespace Skywing.L3

open L2.TagBuffer

/-! ## Tags -/

/-- A publish tag or a private one.
mirrors skywing/skywing_core/internal/tag_buffer.hpp:64-90 -/
structure PublishTagBase where
  id : TagID
  expectedTypes : List UInt8
  marked : marker id = publishTagMarker ∨ marker id = privateTagMarker

namespace PublishTagBase

/-- mirrors skywing/skywing_core/internal/tag_buffer.hpp:67-69 -/
def create (id : TagID) (expectedTypes : List UInt8) : PublishTagBase :=
  ⟨publishTagMarker :: id, expectedTypes, .inl rfl⟩

/-- `PrivateTag`, which overrides the prefix.
mirrors skywing/skywing_core/job.hpp:93-96 -/
def createPrivate (id : TagID) (expectedTypes : List UInt8) : PublishTagBase :=
  ⟨privateTagMarker :: id, expectedTypes, .inr rfl⟩

end PublishTagBase

/-! ## Subscribing and rebuilding -/

namespace Job

variable {α : Type}

/-- A job that has just been built. -/
def create : Job α := ⟨∅, ∅, ∅⟩

/-- The buffers of `subscribe`, `subscribe_range` and `ip_subscribe` are new
ones. The ids are passed to the manager.
mirrors skywing/skywing_core/job.hpp:212-257 -/
def subscribeTags (tags : List PublishTagBase) (j : Job α) : Option (Job α) :=
  j.initOrUpdateSubscribe (tags.map fun t => (t.id, t.expectedTypes, some {}))

/-- The ids passed to `Manager::subscribe`, and the job.
mirrors skywing/skywing_core/job.hpp:349-357 -/
def rebuildTags (tags : List PublishTagBase) (j : Job α) : Option (List TagID × Job α) :=
  (j.initOrUpdateSubscribe (tags.map fun t => (t.id, t.expectedTypes, none))).map fun j' => (tags.map (·.id), j')

/-- `substr(1)` of an empty id throws.
mirrors skywing/skywing_core/job.hpp:373-376 -/
def withoutMarker : TagID → Option PublishTagBase
  | [] => none
  | _ :: id => some (.create id [])

/-- The entries with an error, in the order of the map. -/
def broken (env : Env) (j : Job α) : List (Σ _ : TagID, TagInfo α) :=
  (env.order j.bufs.entries).filter fun e => e.2.errorOccurred != .noError

/-- mirrors skywing/skywing_core/job.hpp:363-382 -/
def rebuildMissingTagConnections (env : Env) (j : Job α) : Option (List TagID × Job α) := do
  let tags ← (j.broken env).mapM fun e => withoutMarker e.1
  j.rebuildTags tags

end Job

namespace Rebuild

open PublishTagBase (create createPrivate)

variable {α : Type}

/-! ## The job over time -/

/-- What happens to a job: calls of its own, and what the manager tells it. -/
inductive Lbl (α : Type)
  | subscribe (tags : List PublishTagBase)
  | processData (tag : TagID) (data : α) (version : VersionID)
  | markTagAsDead (tag : TagID)
  | getValue (w : Job.Waiter)
  | rebuildTags (tags : List PublishTagBase)
  | rebuildMissing (env : Env)

variable [Typed α]

def step (j : Job α) : Lbl α → Option (Job α)
  | .subscribe tags => j.subscribeTags tags
  | .processData tag data version => (j.processData tag data version).map (·.2)
  | .markTagAsDead tag => some (j.markTagAsDead tag)
  | .getValue w => (j.getValue w).map (·.2)
  | .rebuildTags tags => (j.rebuildTags tags).map (·.2)
  | .rebuildMissing env => (j.rebuildMissingTagConnections env).map (·.2)

def lts (α : Type) [Typed α] : LTS (Job α) (Lbl α) := LTS.ofFn (· = Job.create) step

/-! ## The property -/

/-- `passed` goes to the manager, and `j'` is the job after the call. -/
structure Rebuilt (env : Env) (j : Job α) (passed : List TagID) (j' : Job α) : Prop where
  passed : passed = (j.broken env).map (·.1)
  cleared : ∀ id info, j.bufs.lookup id = some info → info.errorOccurred ≠ .noError → ∃ info',
    j'.bufs.lookup id = some info' ∧ info'.errorOccurred = .noError ∧ info'.buffer = info.buffer.map (·.reset)
  kept : ∀ id info, j.bufs.lookup id = some info → info.errorOccurred = .noError → j'.bufs.lookup id = some info
  noNew : ∀ id ∈ j'.bufs, id ∈ j.bufs
  buffers : ∀ id info, j'.bufs.lookup id = some info → info.buffer.isSome = true

def Rebuilds (env : Env) (j : Job α) : Prop :=
  ∃ passed j', j.rebuildMissingTagConnections env = some (passed, j') ∧ Rebuilt env j passed j'

/-! ## The condition -/

/-- No private tag is broken. -/
def BrokenArePublish (j : Job α) : Prop :=
  ∀ id info, j.bufs.lookup id = some info → info.errorOccurred ≠ .noError → marker id = publishTagMarker

/-- Tags are rebuilt that are there. -/
def cond (j : Job α) : Lbl α → Prop
  | .rebuildTags tags => ∀ t ∈ tags, t.id ∈ j.bufs
  | .rebuildMissing _ => BrokenArePublish j
  | _ => True

/-! ## The invariant -/

/-- Every entry has a kind and a buffer. -/
def Inv (j : Job α) : Prop :=
  ∀ id info, j.bufs.lookup id = some info →
    (marker id = publishTagMarker ∨ marker id = privateTagMarker) ∧ info.buffer.isSome = true

variable {j j' : Job α} {env : Env}

omit [Typed α] in
theorem Inv.setInfo (h : Inv j) {tag : TagID} {info : TagInfo α}
    (ht : marker tag = publishTagMarker ∨ marker tag = privateTagMarker) (hb : info.buffer.isSome = true) :
    Inv (j.setInfo tag info) := by
  intro id i hi
  by_cases hid : id = tag
  · subst hid
    rw [Job.setInfo_self] at hi
    cases hi
    exact ⟨ht, hb⟩
  · rw [Job.setInfo_of_ne j info hid] at hi
    exact h id i hi

omit [Typed α] in
/-- An id that is there needs no buffer. -/
theorem Inv.initOrUpdateTag (h : Inv j) {tag : TagID} {types : List UInt8} {ptr : Option (DiscardOldVersionTagBuffer α)}
    (ht : marker tag = publishTagMarker ∨ marker tag = privateTagMarker) (hp : tag ∈ j.bufs ∨ ptr.isSome = true)
    (hj : j.initOrUpdateTag tag types ptr = some j') : Inv j' := by
  unfold Job.initOrUpdateTag at hj
  cases hi : j.bufs.lookup tag with
  | none =>
    rw [hi] at hj
    cases hj
    exact h.setInfo ht (hp.resolve_left (AList.lookup_eq_none.mp hi))
  | some info =>
    rw [hi] at hj
    obtain ⟨b, hb, rfl⟩ := Option.map_eq_some_iff.mp hj
    exact h.setInfo ht rfl

omit [Typed α] in
theorem mem_initOrUpdateTag {tag id : TagID} {types : List UInt8} {ptr : Option (DiscardOldVersionTagBuffer α)}
    (hj : j.initOrUpdateTag tag types ptr = some j') (h : id ∈ j.bufs) : id ∈ j'.bufs := by
  unfold Job.initOrUpdateTag at hj
  split at hj
  · cases hj
    exact (AList.mem_insert _).mpr (.inr h)
  · obtain ⟨b, -, rfl⟩ := Option.map_eq_some_iff.mp hj
    exact (AList.mem_insert _).mpr (.inr h)

omit [Typed α] in
theorem Inv.initOrUpdate : ∀ {tags : List PublishTagBase} {j j' : Job α} {ptr : Option (DiscardOldVersionTagBuffer α)},
    Inv j → (∀ t ∈ tags, t.id ∈ j.bufs ∨ ptr.isSome = true) →
      j.initOrUpdateSubscribe (tags.map fun t => (t.id, t.expectedTypes, ptr)) = some j' → Inv j'
  | [], _, _, _, h, _, hj => by
    cases hj
    exact h
  | t :: tags, j, j', ptr, h, hp, hj => by
    obtain ⟨j₁, h₁, hrest⟩ := Option.bind_eq_some_iff.mp hj
    obtain ⟨ht, hts⟩ := List.forall_mem_cons.mp hp
    exact Inv.initOrUpdate (h.initOrUpdateTag t.marked ht h₁)
      (fun u hu => (hts u hu).imp_left (mem_initOrUpdateTag h₁)) hrest

theorem withoutMarker_publish {id : TagID} (h : marker id = publishTagMarker) :
    ∃ t, Job.withoutMarker id = some t ∧ t.id = id := by
  cases id with
  | nil => cases h
  | cons c id =>
    cases h
    exact ⟨_, rfl, rfl⟩

omit [Typed α] in
/-- What is collected from entries of publish tags. -/
theorem collect_publish : ∀ {l : List (Σ _ : TagID, TagInfo α)}, (∀ e ∈ l, marker e.1 = publishTagMarker) →
    ∃ tags, l.mapM (fun e => Job.withoutMarker e.1) = some tags ∧ tags.map (·.id) = l.map (·.1)
  | [], _ => ⟨[], rfl, rfl⟩
  | e :: l, h => by
    obtain ⟨he, hl⟩ := List.forall_mem_cons.mp h
    obtain ⟨t, ht, hid⟩ := withoutMarker_publish he
    obtain ⟨tags, hts, hids⟩ := collect_publish hl
    exact ⟨t :: tags, by simp [List.mapM_cons, ht, hts], by simp [hid, hids]⟩

omit [Typed α] in
/-- What is collected is taken for publish tags. -/
theorem collect_marker : ∀ {l : List (Σ _ : TagID, TagInfo α)} {tags : List PublishTagBase},
    l.mapM (fun e => Job.withoutMarker e.1) = some tags → ∀ id ∈ tags.map (·.id), marker id = publishTagMarker
  | [], _, h, id, hid => by
    cases h
    cases hid
  | e :: l, tags, h, id, hid => by
    simp only [List.mapM_cons, Option.bind_eq_bind, Option.bind_eq_some_iff, Option.pure_def,
      Option.some.injEq] at h
    obtain ⟨t, ht, ts, hts, rfl⟩ := h
    rcases List.mem_cons.mp hid with rfl | hid
    · unfold Job.withoutMarker at ht
      split at ht
      · cases ht
      · cases ht
        rfl
    · exact collect_marker hts id hid

omit [Typed α] in
theorem mem_broken {e : Σ _ : TagID, TagInfo α} :
    e ∈ j.broken env ↔ j.bufs.lookup e.1 = some e.2 ∧ e.2.errorOccurred ≠ .noError := by
  unfold Job.broken
  rw [List.mem_filter, env.mem_order, bne_iff_ne]
  exact and_congr_left fun _ => AList.mem_entries_iff (k := e.1) (v := e.2)

/-! ## What a rebuild does -/

/-- An entry that was there already. -/
def renewed (info : TagInfo α) : TagInfo α :=
  { info with connectionId := info.connectionId + 1, buffer := info.buffer.map (·.reset), errorOccurred := .noError }

omit [Typed α] in
/-- The entries of the tags are renewed, and no other. -/
theorem update_present : ∀ {tags : List PublishTagBase} {j : Job α}, Inv j → (tags.map (·.id)).Nodup →
    (∀ t ∈ tags, t.id ∈ j.bufs) → ∃ j',
      j.initOrUpdateSubscribe (tags.map fun t => (t.id, t.expectedTypes, none)) = some j' ∧
      ∀ id, j'.bufs.lookup id = if id ∈ tags.map (·.id) then (j.bufs.lookup id).map renewed else j.bufs.lookup id
  | [], j, _, _, _ => ⟨j, rfl, fun _ => rfl⟩
  | t :: tags, j, h, hnd, hp => by
    obtain ⟨ht, hts⟩ := List.forall_mem_cons.mp hp
    obtain ⟨hno, hnd⟩ := List.nodup_cons.mp hnd
    obtain ⟨info, hi⟩ := Option.isSome_iff_exists.mp (AList.lookup_isSome.mpr ht)
    obtain ⟨b, hb⟩ := Option.isSome_iff_exists.mp (h t.id info hi).2
    have hone : j.initOrUpdateTag t.id t.expectedTypes none = some (j.setInfo t.id (renewed info)) := by
      simp [Job.initOrUpdateTag, hi, hb, renewed]
    have h₁ : Inv (j.setInfo t.id (renewed info)) := h.setInfo t.marked (by simp [renewed, hb])
    obtain ⟨j', hj', hl⟩ := update_present h₁ hnd fun u hu => (AList.mem_insert _).mpr (.inr (hts u hu))
    refine ⟨j', by rw [List.map_cons, Job.initOrUpdateSubscribe, hone]; exact hj', fun id => ?_⟩
    rw [hl id, List.map_cons]
    by_cases hid : id = t.id
    · subst hid
      rw [if_neg hno, if_pos List.mem_cons_self, Job.setInfo_self, hi]
      rfl
    · rw [Job.setInfo_of_ne j _ hid]
      simp [hid]

omit [Typed α] in
theorem broken_nodup (env : Env) (j : Job α) : ((j.broken env).map (·.1)).Nodup := by
  have hkeys : (env.order j.bufs.entries).keys.Nodup :=
    ((env.order_perm _).map Sigma.fst).nodup_iff.mpr j.bufs.nodupKeys
  exact hkeys.sublist (List.Sublist.map Sigma.fst List.filter_sublist)

omit [Typed α] in
theorem broken_lookup {id : TagID} : id ∈ (j.broken env).map (·.1) ↔
    ∃ info, j.bufs.lookup id = some info ∧ info.errorOccurred ≠ .noError := by
  constructor
  · intro h
    obtain ⟨e, he, rfl⟩ := List.mem_map.mp h
    exact ⟨e.2, mem_broken.mp he⟩
  · intro hex
    obtain ⟨info, hi, hne⟩ := hex
    exact List.mem_map.mpr ⟨⟨id, info⟩, mem_broken.mpr ⟨hi, hne⟩, rfl⟩

omit [Typed α] in
/-- The call, where no private tag is broken. -/
theorem rebuild_publish (env : Env) (h : Inv j) (hp : BrokenArePublish j) : ∃ j',
    j.rebuildMissingTagConnections env = some ((j.broken env).map (·.1), j') ∧ ∀ id, j'.bufs.lookup id =
      if id ∈ (j.broken env).map (·.1) then (j.bufs.lookup id).map renewed else j.bufs.lookup id := by
  obtain ⟨tags, hts, hids⟩ := collect_publish (l := j.broken env) fun e he => by
    obtain ⟨hi, hne⟩ := mem_broken.mp he
    exact hp e.1 e.2 hi hne
  have hpresent : ∀ t ∈ tags, t.id ∈ j.bufs := by
    intro t ht
    have hmem : t.id ∈ (j.broken env).map (·.1) := hids ▸ List.mem_map_of_mem ht
    obtain ⟨info, hi, -⟩ := broken_lookup.mp hmem
    exact AList.lookup_isSome.mp (hi ▸ rfl)
  obtain ⟨j', hj', hl⟩ := update_present h (hids ▸ broken_nodup env j) hpresent
  refine ⟨j', ?_, hids ▸ hl⟩
  simp [Job.rebuildMissingTagConnections, hts, Job.rebuildTags, hj', hids]

omit [Typed α] in
theorem rebuilds_publish (env : Env) (h : Inv j) (hp : BrokenArePublish j) : Rebuilds env j := by
  obtain ⟨j', hj', hl⟩ := rebuild_publish env h hp
  have hbroken {id : TagID} {info : TagInfo α} (hi : j.bufs.lookup id = some info) :
      id ∈ (j.broken env).map (·.1) ↔ info.errorOccurred ≠ .noError := by
    rw [broken_lookup, hi]
    simp
  refine ⟨_, j', hj', rfl, fun id info hi hne => ?_, fun id info hi he => ?_, fun id hid => ?_, fun id info hi => ?_⟩
  · exact ⟨renewed info, by rw [hl, if_pos ((hbroken hi).mpr hne), hi]; rfl, rfl, rfl⟩
  · rw [hl, if_neg fun hmem => (hbroken hi).mp hmem he, hi]
  · rw [← AList.lookup_isSome, hl] at hid
    rw [← AList.lookup_isSome]
    split at hid
    · rwa [Option.isSome_map] at hid
    · exact hid
  · rw [hl] at hi
    split at hi
    · obtain ⟨info₀, hi₀, rfl⟩ := Option.map_eq_some_iff.mp hi
      simpa [renewed] using (h id info₀ hi₀).2
    · exact (h id info hi).2

omit [Typed α] in
theorem publish_of_rebuilds (h : Rebuilds env j) : BrokenArePublish j := by
  intro id info hi hne
  obtain ⟨passed, j', hj', hr⟩ := h
  obtain ⟨tags, hts, hj'⟩ := Option.bind_eq_some_iff.mp hj'
  obtain ⟨j₁, -, heq⟩ := Option.map_eq_some_iff.mp hj'
  have hpassed : tags.map (·.id) = (j.broken env).map (·.1) := (Prod.mk.inj heq).1.trans hr.passed
  have hmem : id ∈ tags.map (·.id) := hpassed ▸ broken_lookup.mpr ⟨info, hi, hne⟩
  exact collect_marker hts id hmem

/-! ## Runs -/

theorem inv_step {l : Lbl α} (h : Inv j) (hc : cond j l) (hs : step j l = some j') : Inv j' := by
  cases l with
  | subscribe tags => exact h.initOrUpdate (fun _ _ => .inr rfl) hs
  | processData tag data version =>
    obtain ⟨⟨ok, j₁⟩, hj, rfl⟩ := Option.map_eq_some_iff.mp hs
    unfold Job.processData at hj
    cases hi : j.bufs.lookup tag with
    | none =>
      rw [hi] at hj
      cases hj
      exact h
    | some info =>
      obtain ⟨ht, hb⟩ := h tag info hi
      simp only [hi] at hj
      split at hj
      · cases hj
        exact h.setInfo ht hb
      · obtain ⟨b, -, heq⟩ := Option.map_eq_some_iff.mp hj
        cases heq
        exact h.setInfo ht rfl
  | markTagAsDead tag =>
    cases hs
    unfold Job.markTagAsDead
    cases hi : j.bufs.lookup tag with
    | none => exact h
    | some info =>
      obtain ⟨ht, hb⟩ := h tag info hi
      exact h.setInfo ht hb
  | getValue w =>
    obtain ⟨⟨v, j₁⟩, hj, rfl⟩ := Option.map_eq_some_iff.mp hs
    obtain ⟨info, hi, hj⟩ := Option.bind_eq_some_iff.mp hj
    obtain ⟨b, hb, hj⟩ := Option.bind_eq_some_iff.mp hj
    split at hj
    · obtain ⟨⟨value, b'⟩, -, hj⟩ := Option.bind_eq_some_iff.mp hj
      obtain ⟨x, -, hj⟩ := Option.bind_eq_some_iff.mp hj
      cases hj
      exact h.setInfo (h w.tag info hi).1 rfl
    · cases hj
      exact h
  | rebuildTags tags =>
    obtain ⟨⟨ids, j₁⟩, hj, rfl⟩ := Option.map_eq_some_iff.mp hs
    obtain ⟨j₂, hj, heq⟩ := Option.map_eq_some_iff.mp hj
    cases heq
    exact h.initOrUpdate (fun t ht => .inl (hc t ht)) hj
  | rebuildMissing env =>
    obtain ⟨passed, j₁, hj, hr⟩ := rebuilds_publish env h hc
    obtain ⟨r, hj', rfl⟩ := Option.map_eq_some_iff.mp hs
    rw [hj] at hj'
    cases hj'
    intro id info hi
    have hid : id ∈ j.bufs := hr.noNew id (AList.lookup_isSome.mp (hi ▸ rfl))
    obtain ⟨info₀, hi₀⟩ := Option.isSome_iff_exists.mp (AList.lookup_isSome.mpr hid)
    exact ⟨(h id info₀ hi₀).1, hr.buffers id info hi⟩

theorem inv_inductive : ((lts α).restrict cond).Inductive Inv where
  init := by
    intro j hj
    subst hj
    exact nofun
  step := fun _ _ _ h hst => inv_step h hst.2 hst.1

/-- **A rebuild rebuilds exactly the broken tags exactly where no private tag
is broken**, in every run whose earlier rebuilds were such. -/
theorem rebuilt_iff (h : ((lts α).restrict cond).Reachable j) (env : Env) : Rebuilds env j ↔ BrokenArePublish j :=
  ⟨publish_of_rebuilds, rebuilds_publish env (inv_inductive.reachable j h)⟩

/-- A private tag whose publisher is gone. -/
theorem not_rebuilt : ∃ j : Job Nat, (lts Nat).Reachable j ∧ ∀ env, ¬ Rebuilds env j := by
  obtain ⟨j, hx, info, hi, hne⟩ : ∃ j, LTS.exec step (Job.create : Job Nat)
      [.subscribe [createPrivate ['t'] []], .markTagAsDead ['x', 't']] = some j ∧
      ∃ info, j.bufs.lookup ['x', 't'] = some info ∧ info.errorOccurred = .disconnected :=
    ⟨_, rfl, _, rfl, rfl⟩
  refine ⟨j, LTS.reachable_of_exec rfl hx, fun env h => ?_⟩
  have hp := publish_of_rebuilds h ['x', 't'] info hi (by rw [hne]; decide)
  cases hp

/-- A publish tag beside a private one. -/
theorem rebuilt_publish_tag : ∃ j : Job Nat, (∃ info, j.bufs.lookup ['p', 't'] = some info ∧
    info.errorOccurred = .disconnected) ∧ ∀ env, Rebuilds env j := by
  have hrun : ((lts Nat).restrict cond).Reachable
      ((((Job.create : Job Nat).setInfo ['p', 't'] ⟨some {}, [], 0, .noError⟩).setInfo ['x', 't']
        ⟨some {}, [], 0, .noError⟩).setInfo ['p', 't'] ⟨some {}, [], 1, .disconnected⟩) :=
    ⟨Job.create, [.subscribe [create ['t'] [], createPrivate ['t'] []], .markTagAsDead ['p', 't']], rfl,
      .cons ⟨rfl, trivial⟩ (.cons ⟨rfl, trivial⟩ (.nil _))⟩
  refine ⟨_, ⟨_, rfl, rfl⟩, fun env => (rebuilt_iff hrun env).mpr fun id info hi hne => ?_⟩
  by_cases hid : id = ['p', 't']
  · rw [hid]
    rfl
  · rw [Job.setInfo_of_ne _ _ hid] at hi
    by_cases hx : id = ['x', 't']
    · rw [hx, Job.setInfo_self] at hi
      cases hi
      exact absurd rfl hne
    · rw [Job.setInfo_of_ne _ _ hx, Job.setInfo_of_ne _ _ hid] at hi
      cases hi

end Rebuild

end Skywing.L3
