import Skywing.L4App.TagSteps
import Skywing.L4App.CutOff

/-!
# Tags and the routines that finalise them

Publish tags, parent tags of reduce groups and private tags whose neighbour
died all wait in `pending_tags_` (`skywing_core/manager.cpp`). The tags for
one address become one list, and the first character of the list decides
whether all of it goes to `finalize_subscription` or to
`group_from_parent_tag`, which asserts that there is a group.

Results:
* `own_routine`: in a run in which no attempt to connect mixes kinds for one
  address or moves a tag that is neither a publish tag nor the parent tag of a
  local group, each tag is finalised by the routine of its kind, and the
  assertion is never reached.
* `mixed`: a parent tag behind a publish tag is subscribed to.
-/
namespace Skywing.L4.TagKinds

open L3 L1.Text
open L3.Manager (InitLoop Still Route addPending bindTags Completes boundBy carried ofGroups startConnection IsParent
  NoGroup parentTags isParent_congr)
open CutOff (connected)
open GroupMembers (quietEnv machine initial_machine)

variable {V : Type}

/-! ## The property -/

structure OwnRoutine (m : Manager V) : Prop where
  subscription : ∀ tag ptr, Finalized.subscription tag ptr ∈ m.finalized → marker tag ≠ reduceValueMarker
  reduceGroup : ∀ tag groupId, Finalized.reduceGroup tag groupId ∈ m.finalized →
    marker tag ≠ publishTagMarker ∧ ∃ ns, m.groupTags groupId = some ns ∧ ns.parent = tag
  /-- a root has no parent -/
  parents : ∀ tag, m.IsParent tag → tag = [] ∨ marker tag = reduceValueMarker

/-! ## The condition -/

def isParent (m : Manager V) (tag : TagID) : Bool :=
  m.reduceTagData.entries.any fun e => e.2.group.tagNeighbors.parent == tag

/-- A publish tag, or the parent tag of a local group; without the separator. -/
def movable (m : Manager V) (tag : TagID) : Bool :=
  decide (nul ∉ tag) && (marker tag == publishTagMarker || (marker tag == reduceValueMarker && isParent m tag))

/-- The tag may move, and with it only tags of its kind. -/
def movesWell (env : Env) (m : Manager V) (tag : TagID) : Bool :=
  match m.route env tag with
  | .ok (.finalize _ _) => movable m tag
  | .ok (.connect address) =>
    movable m tag && m.pendingTags.all fun t =>
      match m.route env t with
      | .ok (.connect address') =>
        address' != address || (marker t == publishTagMarker) == (marker tag == publishTagMarker)
      | _ => true
  | _ => true

def cond : Sys V → Label V → Bool
  | .running _ m, .init env => m.pendingTags.all (movesWell env m)
  | .running _ _, .createReduceGroup group _ =>
    group.tagNeighbors.parent.isEmpty || marker group.tagNeighbors.parent == reduceValueMarker
  | .running _ _, .ipSubscribe addr tagIds env =>
    match Manager.toCanonical env addr with
    | .ok key =>
      (boundBy ⟨true, .waitingForConn, .specificIp, joinAfter (addressString key) tagIds⟩).all fun tag =>
        marker tag != reduceValueMarker
    | .error _ => true
  | _, _ => true

/-! ## The invariant -/

/-- The kind of the tags of an entry is the one its routine is for. -/
structure OwnKind (m : Manager V) (info : PendingInfo) : Prop where
  subscription : info.type = .subscription → ∀ tag ∈ split info.tag nul 0, marker tag = publishTagMarker
  reduceGroup : ∀ tag ∈ ofGroups info, m.IsParent tag ∧ marker tag = reduceValueMarker
  specificIp : info.type = .specificIp → ∀ tag ∈ boundBy info, marker tag ≠ reduceValueMarker

structure Inv (m : Manager V) : Prop where
  finalized : OwnRoutine m
  pending : ∀ key info, m.pendingConns.lookup key = some info → OwnKind m info

variable {m m₁ : Manager V} {env : Env}

theorem isParent_iff {tag : TagID} : isParent m tag = true ↔ m.IsParent tag := by
  unfold isParent IsParent
  rw [List.any_eq_true]
  constructor
  · intro hex
    obtain ⟨e, he, hp⟩ := hex
    refine ⟨e.1, e.2.group.tagNeighbors, ?_, by simpa using hp⟩
    rw [Manager.groupTags, AList.mem_entries_iff.mp he]
    rfl
  · intro hex
    obtain ⟨groupId, ns, hg, hp⟩ := hex
    obtain ⟨data, hdata, rfl⟩ := Option.map_eq_some_iff.mp hg
    exact ⟨⟨groupId, data⟩, AList.mem_entries_iff.mpr hdata, by simpa using hp⟩

theorem OwnKind.mono {info : PendingInfo} (h : OwnKind m info) (hp : ∀ tag, m.IsParent tag → m₁.IsParent tag) :
    OwnKind m₁ info :=
  ⟨h.subscription, fun tag ht => ⟨hp tag (h.reduceGroup tag ht).1, (h.reduceGroup tag ht).2⟩, h.specificIp⟩

/-- What a complete connection binds is not for a group. -/
theorem OwnKind.boundBy {info : PendingInfo} (h : OwnKind m info) : ∀ tag ∈ boundBy info,
    marker tag ≠ reduceValueMarker := by
  intro tag ht
  cases htype : info.type with
  | subscription =>
    rw [Manager.boundBy, htype] at ht
    rw [h.subscription htype tag ht]
    decide
  | specificIp => exact h.specificIp htype tag ht
  | _ =>
    rw [Manager.boundBy, htype] at ht
    cases ht

/-- The groups are the same, and nothing new is finalised or entered. -/
theorem Inv.of_eq (h : Inv m) (hg : ∀ groupId, m₁.groupTags groupId = m.groupTags groupId)
    (hf : m₁.finalized = m.finalized)
    (hc : ∀ key info, m₁.pendingConns.lookup key = some info → ∃ key', m.pendingConns.lookup key' = some info) :
    Inv m₁ where
  finalized := by
    refine ⟨fun tag ptr hmem => h.finalized.subscription tag ptr (hf ▸ hmem), fun tag groupId hmem => ?_,
      fun tag ht => h.finalized.parents tag ((isParent_congr hg tag).mp ht)⟩
    rw [hg]
    exact h.finalized.reduceGroup tag groupId (hf ▸ hmem)
  pending key info hl := by
    obtain ⟨key', hl'⟩ := hc key info hl
    exact (h.pending key' info hl').mono fun tag => (isParent_congr hg tag).mpr

theorem Inv.still (h : Inv m) (hs : Still m m₁) : Inv m₁ :=
  h.of_eq hs.groupTags hs.finalized fun key _ hl => ⟨key, hs.pendingConns ▸ hl⟩

theorem Inv.addPending (h : Inv m) (key : AddrPort) {info : PendingInfo} (hi : OwnKind m info) :
    Inv (m.addPending key info) where
  finalized := ⟨h.finalized.subscription, h.finalized.reduceGroup, h.finalized.parents⟩
  pending key' info' hl := by
    by_cases hk : key' = key
    · subst hk
      rw [Manager.addPending, AList.lookup_insert] at hl
      cases hl
      exact ⟨hi.subscription, hi.reduceGroup, hi.specificIp⟩
    · rw [Manager.addPending, AList.lookup_insert_ne hk] at hl
      obtain ⟨hsub, hgroup, hip⟩ := h.pending key' info' hl
      exact ⟨hsub, hgroup, hip⟩

theorem OwnRoutine.bindTags (h : OwnRoutine m) {tags : List TagID} (source : Nat)
    (ht : ∀ tag ∈ tags, marker tag ≠ reduceValueMarker) : OwnRoutine (m.bindTags tags source) where
  subscription tag ptr hmem := by
    rcases List.mem_append.mp hmem with hmem | hmem
    · exact h.subscription tag ptr hmem
    · obtain ⟨t, htags, he⟩ := List.mem_map.mp hmem
      cases he
      exact ht tag htags
  reduceGroup tag groupId hmem := by
    rcases List.mem_append.mp hmem with hmem | hmem
    · exact h.reduceGroup tag groupId hmem
    · obtain ⟨t, -, he⟩ := List.mem_map.mp hmem
      cases he
  parents := h.parents

theorem OwnRoutine.handOver (h : OwnRoutine m) {tags : List TagID} {fin : List Finalized}
    (hf : m.HandedOver tags fin) (ht : ∀ tag ∈ tags, marker tag ≠ publishTagMarker) :
    OwnRoutine { m with finalized := m.finalized ++ fin } where
  subscription tag ptr hmem := by
    rcases List.mem_append.mp hmem with hmem | hmem
    · exact h.subscription tag ptr hmem
    · obtain ⟨t, groupId, ns, he, -⟩ := hf _ hmem
      cases he
  reduceGroup tag groupId hmem := by
    rcases List.mem_append.mp hmem with hmem | hmem
    · exact h.reduceGroup tag groupId hmem
    · obtain ⟨t, g, ns, he, hmem, hg, hp⟩ := hf _ hmem
      cases he
      exact ⟨ht tag hmem, ns, hg, hp⟩
  parents := h.parents

theorem OwnRoutine.still (h : OwnRoutine m) (hs : Still m m₁) : OwnRoutine m₁ where
  subscription tag ptr hmem := h.subscription tag ptr (hs.finalized ▸ hmem)
  reduceGroup tag groupId hmem := by
    rw [hs.groupTags]
    exact h.reduceGroup tag groupId (hs.finalized ▸ hmem)
  parents tag ht := h.parents tag ((isParent_congr hs.groupTags tag).mp ht)

/-! ## The attempts to connect -/

/-- The kind of the tags of a list. -/
def AllOf (m : Manager V) (publish : Prop) (tags : List TagID) : Prop :=
  ∀ tag ∈ tags, (publish ∧ marker tag = publishTagMarker) ∨
    (¬ publish ∧ m.IsParent tag ∧ marker tag = reduceValueMarker)

/-- What the first loop has done: the tags it has finalised had their
routines, and each list is of one kind, which its first character tells. -/
structure Sorted (env : Env) (m : Manager V) (s : InitLoop V) : Prop where
  groupTags : ∀ groupId, s.m.groupTags groupId = m.groupTags groupId
  pendingConns : s.m.pendingConns = m.pendingConns
  finalized : OwnRoutine s.m
  lists : ∀ address list, s.toConn.lookup address = some list → list ≠ [] ∧
    (∃ t ∈ m.pendingTags, m.route env t = .ok (.connect address) ∧ marker t = marker list) ∧
      AllOf m (marker list = publishTagMarker) (split list nul 0)

theorem movable_iff {tag : TagID} : movable m tag = true ↔ nul ∉ tag ∧
    (marker tag = publishTagMarker ∨ (marker tag = reduceValueMarker ∧ m.IsParent tag)) := by
  simp [movable, isParent_iff]

theorem publish_ne_reduce {tag : TagID} (h : marker tag = publishTagMarker) : marker tag ≠ reduceValueMarker := by
  rw [h]
  decide

theorem marker_append {s : Str} (t : Str) (h : s ≠ []) : marker (s ++ t) = marker s := by
  cases s with
  | nil => exact absurd rfl h
  | cons c s => rfl

theorem initLoop_sorted (hm : Inv m) (hC : ∀ tag ∈ m.pendingTags, movesWell env m tag = true) :
    (m.pendingTags.foldlM (Manager.initTag env) ⟨m, [], ∅⟩).Ends (Sorted env m) Abort.Other := by
  refine Manager.initLoop_rule (P := fun _ => Sorted env m) (fun _ h => h)
    ⟨fun _ => rfl, rfl, hm.finalized, fun address list hl => by cases hl⟩
    (fun {before tag rest s} _ hr h => ?_) (fun {before tag rest s} _ hr h => ?_)
    (fun {before tag rest s ptr id} hb hr _ h => ?_) (fun {before tag rest s address} hb hr h => ?_)
  · exact ⟨h.groupTags, h.pendingConns, ⟨h.finalized.subscription, h.finalized.reduceGroup, h.finalized.parents⟩,
      h.lists⟩
  · exact ⟨h.groupTags, h.pendingConns, h.finalized, h.lists⟩
  · have hmove := hC tag (hb ▸ List.mem_append_right before List.mem_cons_self)
    rw [movesWell, hr] at hmove
    obtain ⟨hnul, hkind⟩ := movable_iff.mp hmove
    have hsplit : split tag nul 0 = [tag] := split_of_notMem hnul
    refine (Manager.finalizePending_still env ptr id tag s.m).mono ?_ ?_
    · intro m' hex
      obtain ⟨-, hm'⟩ := hex
      by_cases hp : marker tag = publishTagMarker
      · rw [if_pos hp, hsplit] at hm'
        refine ⟨fun g => (hm'.groupTags g).trans (h.groupTags g), hm'.pendingConns.trans h.pendingConns,
          (h.finalized.bindTags ptr ?_).still hm', h.lists⟩
        exact List.forall_mem_singleton.mpr (publish_ne_reduce hp)
      · rw [if_neg hp, hsplit] at hm'
        obtain ⟨fin, hfin, hs⟩ := hm'
        exact ⟨fun g => (hs.groupTags g).trans (h.groupTags g), hs.pendingConns.trans h.pendingConns,
          (h.finalized.handOver hfin (List.forall_mem_singleton.mpr hp)).still hs, h.lists⟩
    · rintro a ⟨hp, ha⟩ t rfl
      obtain ⟨hmem, hno⟩ := ha t rfl
      rw [hsplit, List.mem_singleton] at hmem
      subst hmem
      exact hno ((isParent_congr h.groupTags t).mpr (hkind.resolve_left hp).2)
  · have htag : tag ∈ m.pendingTags := hb ▸ List.mem_append_right before List.mem_cons_self
    have hmove := hC tag htag
    rw [movesWell, hr] at hmove
    obtain ⟨hmov, hsame⟩ := (Bool.and_eq_true _ _).mp hmove
    obtain ⟨hnul, hkind⟩ := movable_iff.mp hmov
    have hne : tag ≠ [] := by
      rintro rfl
      rcases hkind with hk | ⟨hk, -⟩ <;> exact absurd hk (by decide)
    refine ⟨h.groupTags, h.pendingConns, h.finalized, fun address' list hl => ?_⟩
    by_cases ha : address' = address
    · subst ha
      rw [Manager.addToConn, AList.lookup_insert] at hl
      cases hold : s.toConn.lookup address' with
      | none =>
        rw [hold] at hl
        cases hl
        refine ⟨hne, ⟨tag, htag, hr, rfl⟩, ?_⟩
        rw [split_of_notMem hnul]
        refine List.forall_mem_singleton.mpr ?_
        by_cases hp : marker tag = publishTagMarker
        · exact .inl ⟨hp, hp⟩
        · exact .inr ⟨hp, (hkind.resolve_left hp).2, (hkind.resolve_left hp).1⟩
      | some old =>
        rw [hold] at hl
        cases hl
        obtain ⟨hne', ⟨t, ht, hrt, hmt⟩, hall⟩ := h.lists address' old hold
        have hmark : marker (appendTag old tag) = marker old := by
          rw [appendTag, if_neg (by simpa using hne'), List.append_assoc, marker_append _ hne']
        have hkinds : marker old = publishTagMarker ↔ marker tag = publishTagMarker := by
          have hk := List.all_eq_true.mp hsame t ht
          rw [hrt] at hk
          rw [← hmt]
          simpa using hk
        refine ⟨?_, ⟨t, ht, hrt, hmt.trans hmark.symm⟩, ?_⟩
        · show appendTag old tag ≠ []
          rw [appendTag, if_neg (by simpa using hne')]
          exact List.append_ne_nil_of_right_ne_nil _ hne
        · rw [hmark, split_appendTag hne' hnul]
          intro t' ht'
          rcases List.mem_append.mp ht' with ht' | ht'
          · exact hall t' ht'
          · rw [List.mem_singleton.mp ht']
            by_cases hp : marker tag = publishTagMarker
            · exact .inl ⟨hkinds.mpr hp, hp⟩
            · exact .inr ⟨fun hc => hp (hkinds.mp hc), (hkind.resolve_left hp).2, (hkind.resolve_left hp).1⟩
    · rw [Manager.addToConn, AList.lookup_insert_ne ha] at hl
      exact h.lists address' list hl

/-- The entry for a list. -/
theorem OwnKind.of_list {list : Str} {conn : Bool} (h : AllOf m (marker list = publishTagMarker) (split list nul 0)) :
    OwnKind m ⟨conn, .waitingForConn, Manager.connTypeOf list, list⟩ := by
  unfold Manager.connTypeOf
  split
  · rename_i hp
    refine ⟨fun _ tag ht => ?_, nofun, nofun⟩
    exact ((h tag ht).resolve_right fun hc => hc.1 hp).2
  · rename_i hp
    refine ⟨nofun, fun tag ht => ?_, nofun⟩
    exact ((h tag ht).resolve_left fun hc => hp hc.1).2

theorem initConnections_inv (hm : Inv m) (hC : ∀ tag ∈ m.pendingTags, movesWell env m tag = true) :
    (m.initConnections env).Ends Inv Abort.Other := by
  unfold Manager.initConnections
  refine .bind (initLoop_sorted hm hC) fun s hs => ?_
  refine .bind (P := Inv) ?_ fun m₁ h₁ => h₁.of_eq (fun _ => rfl) rfl fun key _ hl => ⟨key, hl⟩
  have hs₀ : Inv s.m := by
    refine ⟨hs.finalized, fun key info hl => ?_⟩
    rw [hs.pendingConns] at hl
    exact (hm.pending key info hl).mono fun tag => (isParent_congr hs.groupTags tag).mpr
  have hloop : ((env.order s.toConn.entries).foldlM (startConnection env) s.m).Ends
      (fun m₁ => (∀ groupId, m₁.groupTags groupId = m.groupTags groupId) ∧ Inv m₁) Abort.Other := by
    refine .foldlM (I := fun _ m₁ => (∀ groupId, m₁.groupTags groupId = m.groupTags groupId) ∧ Inv m₁)
      ⟨hs.groupTags, hs₀⟩ fun e rest m₁ he h => ?_
    obtain ⟨hg, h₁⟩ := h
    refine (Manager.startConnection_cases e m₁).mono ?_ fun _ h => h
    intro m₂ hor
    rcases hor with ⟨-, rfl⟩ | ⟨key, conn, -, rfl, -⟩
    · exact ⟨hg, h₁⟩
    · have hl : s.toConn.lookup e.1 = some e.2 := AList.mem_entries_iff.mp (env.mem_order.mp he)
      have hkind : OwnKind m ⟨conn, .waitingForConn, Manager.connTypeOf e.2, e.2⟩ := .of_list (hs.lists e.1 e.2 hl).2.2
      exact ⟨hg, h₁.addPending key (hkind.mono fun tag => (isParent_congr hg tag).mpr)⟩
  exact hloop.mono (fun _ h => h.2) fun _ h => h

/-! ## Steps -/

theorem tagRule : TagRule (V := V) (fun s l => cond s l = true) Inv Abort.Other where
  initial port id interval jobs :=
    ⟨⟨nofun, nofun, fun tag ⟨_, _, hg, _⟩ => by cases hg⟩, fun key info hl => by cases hl⟩
  other _ h := h
  still hs hm := hm.still hs
  subscribe _ hm _ _ := hm.of_eq (fun _ => rfl) rfl fun key _ hl => ⟨key, hl⟩
  ipSubscribe := by
    intro pc m addr tagIds env key hC hm hkey _
    simp only [cond, hkey] at hC
    refine hm.addPending key ⟨nofun, nofun, fun _ tag ht => ?_⟩
    simpa using List.all_eq_true.mp hC tag ht
  connects hm _ := hm.addPending _ ⟨nofun, nofun, nofun⟩
  createReduceGroup := by
    intro pc m group env data hC hm _
    have hparent : group.tagNeighbors.parent = [] ∨ marker group.tagNeighbors.parent = reduceValueMarker := by
      simpa [cond] using hC
    refine ⟨⟨hm.finalized.subscription, fun tag groupId hf => ?_, fun tag ht => ?_⟩, fun key info hl => ?_⟩
    · obtain ⟨hmark, ns, hg, hp⟩ := hm.finalized.reduceGroup tag groupId hf
      exact ⟨hmark, ns, Manager.groupTags_mono group hg, hp⟩
    · obtain ⟨groupId, ns, hg, rfl⟩ := ht
      rcases Manager.groupTags_insertNew group hg with hg | rfl
      · exact hm.finalized.parents _ ⟨groupId, ns, hg, rfl⟩
      · exact hparent
    · refine OwnKind.mono (hm.pending key info hl) fun tag ht => ?_
      obtain ⟨groupId, ns, hg, hp⟩ := ht
      exact ⟨groupId, ns, Manager.groupTags_mono group hg, hp⟩
  rebuildReduceGroup _ hm _ := hm.of_eq (fun _ => rfl) rfl fun key _ hl => ⟨key, hl⟩
  handshakeSent hm hl := by
    obtain ⟨hsub, hgroup, hip⟩ := hm.pending _ _ hl
    exact hm.addPending _ ⟨hsub, hgroup, hip⟩
  handshakeFailed _ hm _ _ _ := hm.of_eq (fun _ => rfl) rfl fun key _ hl => ⟨key, AList.lookup_of_erase hl⟩
  dropped _ hm _ _ _ := hm.of_eq (fun _ => rfl) rfl fun key _ hl => ⟨key, AList.lookup_of_erase hl⟩
  greeted := by
    intro key todo new m m₁ info sender neighbors port ip env _ hm hl _ hc
    have hkind := hm.pending key info hl
    obtain ⟨records, addresses, next, hg⟩ := greet_eq env sender neighbors port ip m
    rw [hg] at hc
    have hpending {m₂ : Manager V} (hf : OwnRoutine m₂) (hp : ∀ tag, m.IsParent tag → m₂.IsParent tag)
        (hconns : m₂.pendingConns = m.pendingConns.erase key) : Inv m₂ :=
      ⟨hf, fun key' info' hl' => (hm.pending key' info' (AList.lookup_of_erase (hconns ▸ hl'))).mono hp⟩
    obtain ⟨hsub, hgroup, hparents⟩ := hm.finalized
    cases hc with
    | nothing htype htype' => exact hpending ⟨hsub, hgroup, hparents⟩ (fun _ h => h) rfl
    | binds =>
      obtain ⟨h₁, h₂, h₃⟩ := hm.finalized.bindTags (m.greet env sender neighbors port ip).1.ptr hkind.boundBy
      exact hpending ⟨h₁, h₂, h₃⟩ (fun _ h => h) rfl
    | joins htype hf =>
      have ho : ofGroups info = split info.tag nul 0 := by rw [ofGroups, htype]; rfl
      have hnot (tag : TagID) (ht : tag ∈ split info.tag nul 0) : marker tag ≠ publishTagMarker := by
        rw [(hkind.reduceGroup tag (ho ▸ ht)).2]
        decide
      obtain ⟨h₁, h₂, h₃⟩ := hm.finalized.handOver hf hnot
      exact hpending ⟨h₁, h₂, h₃⟩ (fun _ h => h) rfl
  noGroup := by
    intro key m info a hm hl _ ha tag hat
    obtain ⟨hmem, hno⟩ := ha tag hat
    exact hno ((hm.pending key info hl).reduceGroup tag hmem).1
  init hC hm := initConnections_inv hm (List.all_eq_true.mp hC)
  remove hm _ _ _ := hm.of_eq (fun _ => rfl) rfl fun key _ hl => ⟨key, hl⟩

variable [Typed V]

/-- **Each tag is finalised by its own routine**, and no assertion about
groups fails, in a run whose steps meet the condition. -/
theorem own_routine (s : Sys V) (h : ((lts V).restrict fun s l => cond s l = true).Reachable s) :
    Holds (fun _ => OwnRoutine) Abort.Other s := by
  have hs := tagRule.holds.reachable s h
  cases s with
  | running pc m => exact hs.finalized
  | aborted a => exact hs

/-! ## A publish tag and a parent tag -/

def published : TagID := ['p', 't']

def ofParent : TagID := ['r', '1']

def child : ReduceGroup Nat := ReduceGroup.create ⟨fun i => if i = 0 then ofParent else []⟩ ['g'] ['r', '2'] []

/-- A tag is subscribed to and a group is created; a neighbour reports where
the two tags are published. -/
def told (addresses : List (List Str)) : List (Label Nat) :=
  [.subscribe [published] quietEnv, .createReduceGroup child quietEnv] ++ connected ++
    [.message (.reportPublishers [published, ofParent] addresses [[['x']], [['x']]] []) quietEnv, .init quietEnv]

/-- The connections are set up: the greetings come with the second pass. -/
def met (greetings : List (Label Nat)) : List (Label Nat) :=
  [.endMessages quietEnv, .remove quietEnv, .endPass quietEnv, .beginPass quietEnv] ++
    greetings.map (fun _ => .conn (.connected .noError) quietEnv) ++
    [.endConns quietEnv, .endAccept quietEnv, .nextNeighbor, .endMessages quietEnv, .remove quietEnv,
      .endPass quietEnv, .beginPass quietEnv] ++ greetings

def greetingFrom (id : MachineID) (ip : Str) : Label Nat := .conn (.message (.greeting id [] 1) ip) quietEnv

/-- Both tags are published at one address: the list begins with the publish
tag, and the parent tag is subscribed to. -/
theorem mixed : ∃ (pc : Pc) (m : Manager Nat), (lts Nat).Reachable (.running pc m) ∧ ¬ OwnRoutine m := by
  obtain ⟨pc, m, hx, hf⟩ : ∃ (pc : Pc) (m : Manager Nat),
      LTS.exec step machine (told [[['a', ':', '1']], [['a', ':', '1']]] ++ met [greetingFrom ['x'] ['a']]) =
        some (.running pc m) ∧ m.finalized = [.subscription published 1, .subscription ofParent 1] := ⟨_, _, rfl, rfl⟩
  refine ⟨pc, m, LTS.reachable_of_exec initial_machine hx, fun h => ?_⟩
  refine h.subscription ofParent 1 ?_ rfl
  rw [hf]
  exact List.mem_cons_of_mem _ (List.mem_singleton_self _)

/-- Published at two addresses, each goes its way. -/
theorem own_routine_apart : ∃ m : Manager Nat,
    m.finalized = [.reduceGroup ofParent ['g'], .subscription published 2] ∧ OwnRoutine m := by
  obtain ⟨pc, m, hx, hf⟩ : ∃ (pc : Pc) (m : Manager Nat),
      LTS.exec (LTS.guarded step fun s l => cond s l = true) machine (told [[['a', ':', '1']], [['b', ':', '1']]] ++
        met [greetingFrom ['y'] ['b'], greetingFrom ['x'] ['a']]) = some (.running pc m) ∧
      m.finalized = [.reduceGroup ofParent ['g'], .subscription published 2] := ⟨_, _, rfl, rfl⟩
  exact ⟨m, hf, own_routine _ (LTS.restrict_reachable_of_exec initial_machine hx)⟩

end Skywing.L4.TagKinds
