import Skywing.L4App.TagSteps
import Skywing.L4App.Waiting
import Skywing.L4App.CutOff

/-!
# One notice for each tag

`finalize_subscription` (`skywing_core/manager.cpp`) sends the publisher a
SubscriptionNotice, and the publisher drops a subscriber that names a tag
twice. `subscribe` looks for a tag among the pending and the bound ones, but
not in the lists of the pending connections, and `ip_subscribe` looks nowhere.

A tag is *somewhere* once when it is pending, in one list of a connection that
has its socket, or bound; a tag that is not a publish tag counts as pending
only where it joins a list that is subscribed to.

Results:
* `no_repeats`: in a run in which tags are only added where they are nowhere,
  a tag is named at most once to each record, and the publisher never drops
  the subscriber for a repeated one.
* `repeated`: a tag is subscribed to while it travels.
-/
namespace Skywing.L4.OneNotice

open L3 L1.Text
open L3.ExternalManager (noteSubscriptions noteSubscriptions_of_nodup)
open L3.Manager (InitLoop Still addPending bindTags Completes boundBy carried ofGroups startConnection IsParent
  NoGroup parentTags isParent_congr Points)
open CutOff (connected)
open GroupMembers (quietEnv machine initial_machine)

variable {V : Type}

/-! ## The property -/

/-- The tag of a subscription at a record. -/
def toldOf (ptr : Nat) : Finalized → Option TagID
  | .subscription tag p => if p = ptr then some tag else none
  | .reduceGroup _ _ => none

/-- What `finalize_subscription` has told a record, over its lifetime. -/
def toldTo (m : Manager V) (ptr : Nat) : List TagID := m.finalized.filterMap (toldOf ptr)

/-- A publisher handles notices one after another, and drops the subscriber
for a repeated tag.
mirrors skywing/skywing_core/manager.cpp:319-351 -/
def dropsForRepeat : List TagID → List (List TagID) → Bool
  | _, [] => false
  | subs, tags :: notices =>
    match noteSubscriptions subs tags with
    | (_, some (.repeatedTag _)) => true
    | (_, some _) => false
    | (subs, none) => dropsForRepeat subs notices

structure NoRepeats (m : Manager V) : Prop where
  once : ∀ ptr, (toldTo m ptr).Nodup
  /-- whichever of the notices arrive -/
  notDropped : ∀ ptr notices, notices.flatten.Sublist (toldTo m ptr) → dropsForRepeat [] notices = false

/-! ## Where a tag is -/

/-- How often a connection binds the tag when it is complete. -/
def weight (tag : TagID) (info : PendingInfo) : Nat := if info.conn then (boundBy info).count tag else 0

def travelling (m : Manager V) (tag : TagID) : Nat := m.pendingConns.sumOver fun _ info => weight tag info

def bound (m : Manager V) (tag : TagID) : Nat := (m.tagToMachine.lookup tag).isSome.toNat

/-- Pending publish tags. -/
def waiting (m : Manager V) (tag : TagID) : Nat := if marker tag = publishTagMarker then m.pendingTags.count tag else 0

/-! ## The condition -/

def nowhere (m : Manager V) (tag : TagID) : Bool := waiting m tag + travelling m tag + bound m tag == 0

/-- The tag joins the list for the address. -/
def goesTo (env : Env) (m : Manager V) (address : Str) (tag : TagID) : Bool :=
  match m.route env tag with
  | .ok (.connect address') => address' == address
  | _ => false

/-- The list for the address begins with a publish tag. -/
def publishFirst (env : Env) (m : Manager V) (address : Str) : Bool :=
  (m.pendingTags.find? (goesTo env m address)).any (marker · == publishTagMarker)

/-- The tag joins a list that is subscribed to. -/
def joins (env : Env) (m : Manager V) (tag : TagID) : Bool :=
  match m.route env tag with
  | .ok (.connect address) => publishFirst env m address
  | _ => false

/-- A tag that moves is neither empty nor contains the separator; one that is
subscribed to though it is no publish tag is nowhere else. -/
def movesWell (env : Env) (m : Manager V) (tag : TagID) : Bool :=
  (match m.route env tag with
  | .ok (.finalize _ _) | .ok (.connect _) => !tag.isEmpty && decide (nul ∉ tag)
  | _ => true) &&
    (!joins env m tag || marker tag == publishTagMarker ||
      m.pendingTags.count tag + travelling m tag + bound m tag == 1)

def cond : Sys V → Label V → Bool
  | .running _ m, .subscribe tagIds _ => tagIds.all fun tag =>
    !m.wants tag || marker tag != publishTagMarker || travelling m tag == 0
  | .running _ m, .ipSubscribe addr tagIds env =>
    match Manager.toCanonical env addr with
    | .ok key =>
      let tags := boundBy ⟨true, .waitingForConn, .specificIp, joinAfter (addressString key) tagIds⟩
      decide tags.Nodup && tags.all (nowhere m)
    | .error _ => true
  | .running _ _, .createReduceGroup group _ => marker group.tagNeighbors.parent != publishTagMarker
  | .running _ m, .init env => m.pendingTags.all (movesWell env m)
  | _, _ => true

/-! ## The invariant -/

/-- Each tag is somewhere at most once, `c` counted in. -/
structure Spread (c : TagID → Nat) (m : Manager V) : Prop where
  single : ∀ tag, c tag + travelling m tag + bound m tag ≤ 1
  parents : ∀ tag, m.IsParent tag → marker tag ≠ publishTagMarker
  numbered : m.Numbered
  /-- a record that was told of a tag has it, or is gone -/
  told : ∀ tag ptr, Finalized.subscription tag ptr ∈ m.finalized →
    ptr < m.nextPtr ∧ (m.tagToMachine.lookup tag = some ptr ∨ ¬ m.Points ptr)
  once : ∀ ptr, (toldTo m ptr).Nodup

def Inv (m : Manager V) : Prop := Spread (waiting m) m

variable {m m₁ : Manager V} {env : Env} {c c' : TagID → Nat}

theorem mem_toldTo {tag : TagID} {ptr : Nat} : tag ∈ toldTo m ptr ↔ Finalized.subscription tag ptr ∈ m.finalized := by
  unfold toldTo
  rw [List.mem_filterMap]
  constructor
  · intro hex
    obtain ⟨f, hf, h⟩ := hex
    cases f with
    | subscription t p =>
      rw [toldOf] at h
      split at h
      · rename_i hp
        cases h
        exact hp ▸ hf
      · cases h
    | reduceGroup t g => cases h
  · exact fun h => ⟨_, h, if_pos rfl⟩

/-- Notices that name no tag twice are never rejected for that. -/
theorem not_dropsForRepeat (notices : List (List TagID)) : ∀ subs : List TagID, notices.flatten.Nodup →
    (∀ tag ∈ notices.flatten, tag ∉ subs) → dropsForRepeat subs notices = false := by
  have hnoted : ∀ (tags subs subs' : List TagID), noteSubscriptions subs tags = (subs', none) →
      ∀ tag, tag ∈ subs' → tag ∈ subs ∨ tag ∈ tags := by
    intro tags
    induction tags with
    | nil =>
      intro subs subs' h tag ht
      cases h
      exact .inl ht
    | cons t tags ih =>
      intro subs subs' h tag ht
      rw [noteSubscriptions] at h
      split at h
      · cases h
      · split at h
        · cases h
        · rcases ih _ _ h tag ht with hs | hs
          · exact (List.mem_cons.mp hs).elim (fun he => .inr (he ▸ List.mem_cons_self)) .inl
          · exact .inr (List.mem_cons_of_mem t hs)
  induction notices with
  | nil => exact fun _ _ _ => rfl
  | cons tags notices ih =>
    intro subs hnd hnew
    rw [List.flatten_cons] at hnd hnew
    obtain ⟨hnd₁, hnd₂, hdisj⟩ := List.nodup_append.mp hnd
    have hok := noteSubscriptions_of_nodup hnd₁ fun t ht => hnew t (List.mem_append_left _ ht)
    unfold dropsForRepeat
    split
    · rename_i hn
      rw [hn] at hok
      exact absurd rfl (hok _)
    · rfl
    · rename_i subs' hn
      refine ih subs' hnd₂ fun tag ht hs => ?_
      rcases hnoted tags subs subs' hn tag hs with hs | hs
      · exact hnew tag (List.mem_append_right _ ht) hs
      · exact hdisj tag hs tag ht rfl

theorem Spread.noRepeats (h : Spread c m) : NoRepeats m :=
  ⟨h.once, fun ptr notices hsub => not_dropsForRepeat notices [] (hsub.nodup (h.once ptr)) fun _ _ => List.not_mem_nil⟩

theorem Spread.mono (h : Spread c m) (hc : ∀ tag, c' tag ≤ c tag) : Spread c' m :=
  ⟨fun tag => le_trans (by have := hc tag; omega) (h.single tag), h.parents, h.numbered, h.told, h.once⟩

theorem Spread.still (h : Spread c m) (hs : Still m m₁) : Spread c m₁ where
  single tag := by
    rw [travelling, bound, hs.pendingConns, hs.tagToMachine]
    exact h.single tag
  parents tag ht := h.parents tag ((isParent_congr hs.groupTags tag).mp ht)
  numbered := h.numbered.of_lookup hs.nextPtr fun id e' he' => by
    obtain ⟨e, he, hid⟩ := hs.neighbors.of_lookup he'
    exact ⟨e, he, hid.1, hid.2⟩
  told tag ptr hf := by
    rw [hs.nextPtr, hs.tagToMachine, hs.points]
    exact h.told tag ptr (hs.finalized ▸ hf)
  once ptr := by
    rw [toldTo, hs.finalized]
    exact h.once ptr

/-- Only the pending connections changed. -/
theorem Spread.of_conns (h : Spread c m) (conns : AList fun _ : AddrPort => PendingInfo)
    (hc : ∀ tag, c' tag + (conns.sumOver fun _ info => weight tag info) ≤ c tag + travelling m tag) :
    Spread c' { m with pendingConns := conns } where
  single tag := by
    refine le_trans ?_ (h.single tag)
    exact Nat.add_le_add_right (hc tag) _
  parents := h.parents
  numbered := ⟨h.numbered.keyed, h.numbered.lt, h.numbered.inj⟩
  told := h.told
  once := h.once

theorem Spread.addPending {key : AddrPort} {info : PendingInfo} (h : Spread (fun tag => c tag + weight tag info) m)
    (hfree : key ∉ m.pendingConns) : Spread c (m.addPending key info) := by
  refine h.of_conns _ fun tag => ?_
  rw [AList.sumOver_insert_of_notMem _ _ hfree, travelling]
  omega

/-- A connection goes; what it carried is counted on. -/
theorem Spread.erase (h : Spread c m) {key : AddrPort} {info : PendingInfo}
    (hl : m.pendingConns.lookup key = some info) :
    Spread (fun tag => c tag + weight tag info) { m with pendingConns := m.pendingConns.erase key } := by
  refine h.of_conns _ fun tag => ?_
  rw [travelling, AList.sumOver_erase _ hl]
  omega

theorem toldTo_bindTags (tags : List TagID) (source ptr : Nat) (m : Manager V) :
    toldTo (m.bindTags tags source) ptr = toldTo m ptr ++ if source = ptr then tags else [] := by
  show ((m.finalized ++ tags.map (Finalized.subscription · source)).filterMap (toldOf ptr)) = _
  rw [List.filterMap_append, List.filterMap_map]
  congr 1
  split
  · rename_i h
    have hsome : (toldOf ptr ∘ (Finalized.subscription · source)) = some := by
      funext tag
      exact if_pos h
    rw [hsome, List.filterMap_some]
  · rename_i h
    have hnone : (toldOf ptr ∘ (Finalized.subscription · source)) = fun _ => none := by
      funext tag
      exact if_neg h
    rw [hnone, List.filterMap_none]

/-- Tags that were somewhere are bound to a record that is there. -/
theorem Spread.bindTags {tags : List TagID} {source : Nat} (h : Spread (fun tag => c tag + tags.count tag) m)
    (hp : m.Points source) : Spread c (m.bindTags tags source) := by
  have hlookup (tag : TagID) : (m.bindTags tags source).tagToMachine.lookup tag =
      if tag ∈ tags then some source else m.tagToMachine.lookup tag := Manager.lookup_bindAll source _ _ tag
  have hfresh {tag : TagID} (ht : tag ∈ tags) (ptr : Nat) : m.tagToMachine.lookup tag ≠ some ptr := by
    intro hb
    have hs := h.single tag
    have hc := List.count_pos_iff.mpr ht
    rw [bound, hb, Option.isSome_some, Bool.toNat_true] at hs
    omega
  obtain ⟨key, e, he, hptr⟩ := hp
  have hlt : source < m.nextPtr := hptr ▸ h.numbered.lt key e he
  refine ⟨fun tag => ?_, h.parents, ⟨h.numbered.keyed, h.numbered.lt, h.numbered.inj⟩, fun tag ptr hf => ?_,
    fun ptr => ?_⟩
  · have hs := h.single tag
    have ht : travelling (m.bindTags tags source) tag = travelling m tag := rfl
    by_cases hmem : tag ∈ tags
    · have hc := List.count_pos_iff.mpr hmem
      have hb : bound (m.bindTags tags source) tag ≤ 1 := Bool.toNat_le _
      omega
    · have hb : bound (m.bindTags tags source) tag = bound m tag := by rw [bound, hlookup, if_neg hmem, bound]
      omega
  · rw [hlookup]
    rcases List.mem_append.mp hf with hf | hf
    · obtain ⟨hl, htold⟩ := h.told tag ptr hf
      refine ⟨hl, ?_⟩
      by_cases hmem : tag ∈ tags
      · exact .inr (htold.resolve_left (hfresh hmem ptr))
      · rw [if_neg hmem]
        exact htold
    · obtain ⟨t, hmem, hte⟩ := List.mem_map.mp hf
      cases hte
      exact ⟨hlt, .inl (if_pos hmem)⟩
  · rw [toldTo_bindTags]
    split
    · rename_i hs
      subst hs
      refine List.nodup_append.mpr ⟨h.once source, ?_, ?_⟩
      · exact List.nodup_iff_count_le_one.mpr fun tag => by
          have := h.single tag
          omega
      · rintro tag hmem t ht rfl
        exact (h.told tag source (mem_toldTo.mp hmem)).2.resolve_left (hfresh ht source) ⟨key, e, he, hptr⟩
    · rw [List.append_nil]
      exact h.once ptr

/-- Handing tags over to groups tells no record of a subscription. -/
theorem Spread.handOver (h : Spread c m) {tags : List TagID} {fin : List Finalized} (hf : m.HandedOver tags fin) :
    Spread c { m with finalized := m.finalized ++ fin } := by
  have hnone (ptr : Nat) : fin.filterMap (toldOf ptr) = [] := by
    rw [List.filterMap_eq_nil_iff]
    intro f hmem
    obtain ⟨t, g, ns, rfl, -⟩ := hf f hmem
    rfl
  refine ⟨h.single, h.parents, ⟨h.numbered.keyed, h.numbered.lt, h.numbered.inj⟩, fun tag ptr hmem => ?_, fun ptr => ?_⟩
  · rcases List.mem_append.mp hmem with hmem | hmem
    · exact h.told tag ptr hmem
    · obtain ⟨t, g, ns, he, -⟩ := hf _ hmem
      cases he
  · rw [toldTo, List.filterMap_append, hnone, List.append_nil]
    exact h.once ptr

/-! ## Greetings and removals -/

/-- A record may be new; the others stay. -/
theorem Spread.greet (h : Spread c m) (sender : MachineID) (neighbors : List MachineID) (port : UInt16) (ip : Str) :
    Spread c (m.greet env sender neighbors port ip).2 := by
  have hnumbered : (m.greet env sender neighbors port ip).2.Numbered := h.numbered.greet sender neighbors port ip
  have hpoints {ptr : Nat} (hlt : ptr < m.nextPtr) (hp : (m.greet env sender neighbors port ip).2.Points ptr) :
      m.Points ptr := by
    obtain ⟨key, e, he, hptr⟩ := hp
    unfold Manager.greet at he
    split at he
    · obtain ⟨e₀, he₀, rfl⟩ := Manager.of_lookup_atNeighbor he
      refine ⟨key, e₀, he₀, hptr ▸ ?_⟩
      split <;> rfl
    · by_cases hk : key = sender
      · subst hk
        rw [AList.lookup_insert] at he
        cases he
        exact absurd hptr (by show m.nextPtr ≠ ptr; omega)
      · rw [AList.lookup_insert_ne hk] at he
        exact ⟨key, e, he, hptr⟩
  have hnext : m.nextPtr ≤ (m.greet env sender neighbors port ip).2.nextPtr := by
    unfold Manager.greet
    split
    · exact le_refl _
    · exact Nat.le_succ _
  obtain ⟨records, addresses, next, hg⟩ := greet_eq env sender neighbors port ip m
  rw [hg] at hnumbered hpoints hnext ⊢
  refine ⟨h.single, h.parents, hnumbered, fun tag ptr hf => ?_, h.once⟩
  obtain ⟨hlt, htold⟩ := h.told tag ptr hf
  exact ⟨lt_of_lt_of_le hlt hnext, htold.imp_right fun hgone hp => hgone (hpoints hlt hp)⟩

/-- The tags bound to a record are released. -/
theorem bound_release (env : Env) (ptr : Nat) (m : Manager V) (tag : TagID) :
    (m.tagsOf env ptr).count tag + ((m.tagToMachine.eraseVal (· = ptr)).lookup tag).isSome.toNat = bound m tag := by
  rw [bound, AList.lookup_eraseVal]
  by_cases hb : m.tagToMachine.lookup tag = some ptr
  · have hone := List.count_eq_one_of_mem (Manager.tagsOf_nodup env m ptr) (Manager.mem_tagsOf.mpr hb)
    rw [hone, hb, Option.filter_some]
    simp
  · have hzero : (m.tagsOf env ptr).count tag = 0 :=
      List.count_eq_zero.mpr fun hmem => hb (Manager.mem_tagsOf.mp hmem)
    rw [hzero, Nat.zero_add]
    cases hl : m.tagToMachine.lookup tag with
    | none => rfl
    | some p =>
      have hne : p ≠ ptr := fun he => hb (he ▸ hl)
      rw [Option.filter_some, if_pos (by simpa using hne)]

/-- A record leaves, and its tags are pending again. -/
theorem Inv.remove (h : Inv m) {id : MachineID} {e : ExternalManager V} (he : m.neighbors.lookup id = some e)
    (env : Env) (removed : List (ExternalManager V)) : Inv { m with
      addrToMachine := m.addrToMachine.eraseVal (· = e.ptr)
      tagToMachine := m.tagToMachine.eraseVal (· = e.ptr)
      jobs := m.jobs.mapVal fun _ job => (m.tagsOf env e.ptr).foldl Job.markTagAsDead job
      pendingTags := m.pendingTags ++ m.tagsOf env e.ptr
      neighbors := m.neighbors.erase id
      removed := removed } := by
  have hother {key : MachineID} {e' : ExternalManager V} (hl : (m.neighbors.erase id).lookup key = some e') :
      m.neighbors.lookup key = some e' ∧ e'.ptr ≠ e.ptr := by
    by_cases hk : key = id
    · subst hk
      rw [AList.lookup_erase] at hl
      cases hl
    · rw [AList.lookup_erase_ne hk] at hl
      exact ⟨hl, fun hptr => hk (h.numbered.inj key id e' e hl he hptr)⟩
  refine ⟨fun tag => ?_, h.parents, ?_, fun tag ptr hf => ?_, h.once⟩
  · have hs := h.single tag
    have hb := bound_release env e.ptr m tag
    have hw : (if marker tag = publishTagMarker then (m.pendingTags ++ m.tagsOf env e.ptr).count tag else 0) ≤
        waiting m tag + (m.tagsOf env e.ptr).count tag := by
      unfold waiting
      split
      · exact le_of_eq List.count_append
      · exact Nat.zero_le _
    show (if marker tag = publishTagMarker then (m.pendingTags ++ m.tagsOf env e.ptr).count tag else 0) +
      travelling m tag + ((m.tagToMachine.eraseVal (· = e.ptr)).lookup tag).isSome.toNat ≤ 1
    omega
  · exact h.numbered.of_lookup rfl fun key e' hl => ⟨e', (hother hl).1, rfl, rfl⟩
  · obtain ⟨hlt, htold⟩ := h.told tag ptr hf
    refine ⟨hlt, ?_⟩
    by_cases hp : ptr = e.ptr
    · refine .inr ?_
      intro hex
      obtain ⟨key, e', hl, hptr⟩ := hex
      exact (hother hl).2 (hptr.trans hp)
    · rcases htold with hb | hgone
      · refine .inl ?_
        rw [AList.lookup_eraseVal, hb, Option.filter_some, if_pos (by simpa using hp)]
      · refine .inr ?_
        intro hex
        obtain ⟨key, e', hl, hptr⟩ := hex
        exact hgone ⟨key, e', (hother hl).1, hptr⟩

/-! ## The attempts to connect -/

/-- The entry for a list. -/
def listInfo (list : Str) : PendingInfo := ⟨true, .waitingForConn, Manager.connTypeOf list, list⟩

/-- What the first loop counts in: the tags that are left, the tags that stay
pending, and the lists. -/
def placed (env : Env) (m : Manager V) (rest : List TagID) (s : InitLoop V) (tag : TagID) : Nat :=
  (if marker tag = publishTagMarker ∨ joins env m tag = true then rest.count tag else 0) +
    (if marker tag = publishTagMarker then s.kept.count tag else 0) +
    s.toConn.sumOver fun _ list => weight tag (listInfo list)

structure Sorted (env : Env) (m : Manager V) (rest : List TagID) (s : InitLoop V) : Prop where
  spread : Spread (placed env m rest s) s.m
  lists : ∀ address list, s.toConn.lookup address = some list →
    list ≠ [] ∧ (marker list = publishTagMarker → publishFirst env m address = true)
  /-- the first tag of an address without a list is still to come -/
  first : ∀ address, s.toConn.lookup address = none →
    m.pendingTags.find? (goesTo env m address) = rest.find? (goesTo env m address)

theorem weight_listInfo (tag : TagID) (list : Str) : weight tag (listInfo list) =
    if marker list = publishTagMarker then (split list nul 0).count tag else 0 := by
  unfold weight listInfo boundBy Manager.connTypeOf
  by_cases hp : marker list = publishTagMarker
  · simp [hp]
  · simp [hp]

theorem goesTo_iff {address : Str} {tag : TagID} : goesTo env m address tag = true ↔
    m.route env tag = .ok (.connect address) := by
  unfold goesTo
  split
  · rename_i address' hr
    rw [hr]
    simp
  · rename_i hno
    exact ⟨nofun, fun h => absurd h (hno address)⟩

/-- The next tag counts where it is a publish tag or joins one. -/
theorem placed_cons (tag : TagID) (rest : List TagID) (s : InitLoop V) (t : TagID) :
    placed env m (tag :: rest) s t = placed env m rest s t +
      if marker t = publishTagMarker ∨ joins env m t = true then [tag].count t else 0 := by
  have hcount : (tag :: rest).count t = [tag].count t + rest.count t := by
    rw [← List.singleton_append, List.count_append]
  unfold placed
  rw [hcount]
  split <;> omega

/-- A tag that starts no list. -/
theorem Sorted.next {tag : TagID} {rest : List TagID} {s s' : InitLoop V} (h : Sorted env m (tag :: rest) s)
    (hr : ∀ address, m.route env tag ≠ .ok (.connect address)) (hl : s'.toConn = s.toConn)
    (hs : Spread (placed env m rest s') s'.m) : Sorted env m rest s' where
  spread := hs
  lists address list := by
    rw [hl]
    exact h.lists address list
  first address := by
    rw [hl]
    intro hnone
    rw [h.first address hnone, List.find?_cons_of_neg]
    exact fun hg => hr address (goesTo_iff.mp hg)

theorem marker_appendTag {list : Str} (tag : TagID) (h : list ≠ []) : marker (appendTag list tag) = marker list := by
  cases list with
  | nil => exact absurd rfl h
  | cons c list => rfl

/-- What a list that gets a tag binds more. -/
theorem sumOver_addToConn {toConn : AList fun _ : Str => Str} {address : Str} {tag : TagID}
    (hlists : ∀ list, toConn.lookup address = some list → list ≠ []) (hnul : nul ∉ tag) (t : TagID) :
    ((Manager.addToConn toConn address tag).sumOver fun _ list => weight t (listInfo list)) =
      (toConn.sumOver fun _ list => weight t (listInfo list)) +
        if marker ((toConn.lookup address).getD tag) = publishTagMarker then [tag].count t else 0 := by
  unfold Manager.addToConn
  cases hold : toConn.lookup address with
  | none =>
    rw [AList.sumOver_insert_of_notMem _ _ (AList.lookup_eq_none.mp hold), weight_listInfo, split_of_notMem hnul,
      Option.getD_none, Nat.add_comm]
  | some list =>
    have hne : list ≠ [] := hlists list hold
    rw [AList.sumOver_insert, AList.sumOver_erase _ hold, weight_listInfo, weight_listInfo, marker_appendTag tag hne,
      split_appendTag hne hnul, Option.getD_some]
    split
    · rw [List.count_append]
      omega
    · omega

/-- A tag that only joins a list was nowhere else. -/
theorem sorted_start (hm : Inv m) (hC : ∀ tag ∈ m.pendingTags, movesWell env m tag = true) :
    Sorted env m m.pendingTags ⟨m, [], ∅⟩ := by
  refine ⟨⟨fun tag => ?_, hm.parents, hm.numbered, hm.told, hm.once⟩, fun _ _ => nofun, fun _ _ => rfl⟩
  have hs := hm.single tag
  have hplaced : placed env m m.pendingTags ⟨m, [], ∅⟩ tag =
      if marker tag = publishTagMarker ∨ joins env m tag = true then m.pendingTags.count tag else 0 := by
    simp [placed, AList.sumOver]
  rw [hplaced]
  by_cases hp : marker tag = publishTagMarker
  · rw [if_pos (.inl hp)]
    rwa [waiting, if_pos hp] at hs
  by_cases hj : joins env m tag = true ∧ tag ∈ m.pendingTags
  · rw [if_pos (.inr hj.1)]
    have hmw := ((Bool.and_eq_true _ _).mp (hC tag hj.2)).2
    have hone : m.pendingTags.count tag + travelling m tag + bound m tag = 1 := by simpa [hj.1, hp] using hmw
    exact le_of_eq hone
  · have hzero :
        (if marker tag = publishTagMarker ∨ joins env m tag = true then m.pendingTags.count tag else 0) = 0 := by
      split
      · rename_i h
        exact List.count_eq_zero.mpr fun hmem => hj ⟨h.resolve_left hp, hmem⟩
      · rfl
    rw [hzero]
    show 0 + travelling m tag + bound m tag ≤ 1
    omega

section Next

variable {tag : TagID} {rest : List TagID} {s : InitLoop V}

/-- The tag stays pending. -/
theorem Sorted.keep (h : Sorted env m (tag :: rest) s) (hr : m.route env tag = .ok .keep) :
    Sorted env m rest { s with kept := s.kept ++ [tag] } := by
  refine h.next (by simp [hr]) rfl (h.spread.mono fun t => ?_)
  have hk : (s.kept ++ [tag]).count t = s.kept.count t + [tag].count t := List.count_append
  rw [placed_cons]
  unfold placed
  dsimp only
  by_cases hp : marker t = publishTagMarker
  · simp only [hp, true_or, if_true]
    omega
  · simp only [hp, false_or, if_false]
    omega

/-- The tag is bound to a neighbour at once. -/
theorem Sorted.finalize (h : Sorted env m (tag :: rest) s) (hnul : nul ∉ tag) {ptr : Nat} {id : MachineID}
    (hr : m.route env tag = .ok (.finalize ptr id)) (hr' : s.m.route env tag = .ok (.finalize ptr id)) :
    (s.m.finalizePending env ptr id tag).Ends (fun m' => Sorted env m rest { s with m := m' }) fun _ => True := by
  refine (Manager.finalizePending_still env ptr id tag s.m).mono ?_ fun _ _ => trivial
  intro m' hex
  obtain ⟨-, hm'⟩ := hex
  refine h.next (by simp [hr]) rfl ?_
  rw [split_of_notMem hnul] at hm'
  by_cases hp : marker tag = publishTagMarker
  · rw [if_pos hp] at hm'
    obtain ⟨key, e, he, hptr, -⟩ := Manager.route_finalize hr'
    refine Spread.still (Spread.bindTags (h.spread.mono fun t => ?_) ⟨key, e, he, hptr⟩) hm'
    rw [placed_cons]
    by_cases ht : t = tag
    · rw [if_pos (.inl (ht ▸ hp))]
      exact le_refl _
    · have hzero : [tag].count t = 0 := List.count_eq_zero.mpr (by simpa using ht)
      rw [hzero]
      exact Nat.le_add_right _ _
  · rw [if_neg hp] at hm'
    obtain ⟨fin, hfin, hs⟩ := hm'
    refine Spread.still (Spread.handOver (h.spread.mono fun t => ?_) hfin) hs
    rw [placed_cons]
    exact Nat.le_add_right _ _

/-- The list for the address, with the tag, begins with the first tag for it. -/
theorem Sorted.firstTag {address : Str} (h : Sorted env m (tag :: rest) s)
    (hr : m.route env tag = .ok (.connect address))
    (hp : marker ((s.toConn.lookup address).getD tag) = publishTagMarker) : publishFirst env m address = true := by
  have hgoes : goesTo env m address tag = true := goesTo_iff.mpr hr
  cases hold : s.toConn.lookup address with
  | none =>
    rw [hold, Option.getD_none] at hp
    rw [publishFirst, h.first address hold, List.find?_cons_of_pos hgoes]
    simpa using hp
  | some list =>
    rw [hold, Option.getD_some] at hp
    exact (h.lists address list hold).2 hp

/-- The tag goes to the list for an address. -/
theorem Sorted.connect {address : Str} (h : Sorted env m (tag :: rest) s) (hne : tag ≠ []) (hnul : nul ∉ tag)
    (hr : m.route env tag = .ok (.connect address)) :
    Sorted env m rest { s with toConn := Manager.addToConn s.toConn address tag } := by
  have hjoins : joins env m tag = publishFirst env m address := by rw [joins, hr]
  have hfirst := h.firstTag hr
  refine ⟨h.spread.mono fun t => ?_, fun address' list hl => ?_, fun address' hl => ?_⟩
  · have hsum := sumOver_addToConn (fun list hl => (h.lists address list hl).1) hnul t
    rw [placed_cons]
    unfold placed
    dsimp only
    rw [hsum]
    by_cases ht : t = tag
    · subst ht
      by_cases hlist : marker ((s.toConn.lookup address).getD t) = publishTagMarker
      · have hj : joins env m t = true := hjoins.trans (hfirst hlist)
        simp only [hj, or_true, if_true, if_pos hlist]
        omega
      · rw [if_neg hlist]
        omega
    · have hzero : [tag].count t = 0 := List.count_eq_zero.mpr (by simpa using ht)
      rw [hzero, ite_self]
      omega
  · by_cases ha : address' = address
    · subst ha
      rw [Manager.addToConn, AList.lookup_insert] at hl
      cases hl
      cases hold : s.toConn.lookup address' with
      | none =>
        rw [hold, Option.getD_none] at hfirst
        exact ⟨hne, hfirst⟩
      | some list =>
        rw [hold, Option.getD_some] at hfirst
        have hlist := (h.lists address' list hold).1
        refine ⟨?_, fun hp => hfirst ((marker_appendTag tag hlist).symm.trans hp)⟩
        show appendTag list tag ≠ []
        rw [appendTag, if_neg (by simpa using hlist)]
        exact List.append_ne_nil_of_right_ne_nil _ hne
    · rw [Manager.addToConn, AList.lookup_insert_ne ha] at hl
      exact h.lists address' list hl
  · have ha : address' ≠ address := by
      rintro rfl
      rw [Manager.addToConn, AList.lookup_insert] at hl
      cases hl
    rw [Manager.addToConn, AList.lookup_insert_ne ha] at hl
    rw [h.first address' hl, List.find?_cons_of_neg]
    intro hg
    have hr' := hr.symm.trans (goesTo_iff.mp hg)
    injection hr' with hr'
    injection hr' with hr'
    exact ha hr'.symm

end Next

/-- A tag that is bound or goes to a list, and moves well, has no NUL. -/
theorem movesWell_clean {tag : TagID} {r : Manager.Route} (h : movesWell env m tag = true)
    (hr : m.route env tag = .ok r)
    (hmove : (∃ ptr id, r = .finalize ptr id) ∨ ∃ address, r = .connect address) : tag ≠ [] ∧ nul ∉ tag := by
  unfold movesWell at h
  rw [hr] at h
  rcases hmove with ⟨ptr, id, rfl⟩ | ⟨address, rfl⟩
  · simpa using ((Bool.and_eq_true _ _).mp h).1
  · simpa using ((Bool.and_eq_true _ _).mp h).1

theorem initLoop_sorted (hm : Inv m) (hC : ∀ tag ∈ m.pendingTags, movesWell env m tag = true) :
    (m.pendingTags.foldlM (Manager.initTag env) ⟨m, [], ∅⟩).Ends (Sorted env m []) fun _ => True := by
  have hmw {before rest : List TagID} {tag : TagID} (hb : m.pendingTags = before ++ tag :: rest) :
      movesWell env m tag = true := hC tag (hb ▸ List.mem_append_right before List.mem_cons_self)
  refine Manager.initLoop_rule (fun _ _ => trivial) (sorted_start hm hC)
    (fun {before tag rest s} hb hr h => ?_) (fun _ hr h => h.keep hr)
    (fun hb hr hr' h => h.finalize (movesWell_clean (hmw hb) hr (.inl ⟨_, _, rfl⟩)).2 hr hr')
    (fun {before tag rest s address} hb hr h => ?_)
  · refine h.next (by simp [hr]) rfl (Spread.still (h.spread.mono fun t => ?_) ?_)
    · rw [placed_cons]
      exact Nat.le_add_right _ _
    · exact ⟨rfl, rfl, rfl, rfl, rfl, rfl, fun t ht => (AList.mem_insert _).mpr (.inr ht), fun _ => rfl,
        .of_eq Manager.SameId.refl rfl⟩
  · obtain ⟨hne, hnul⟩ := movesWell_clean (hmw hb) hr (.inr ⟨address, rfl⟩)
    exact h.connect hne hnul hr

/-- What the second loop counts in: the tags that stay pending, and the lists
that are left. -/
def unstarted (kept : List TagID) (rest : List (Σ _ : Str, Str)) (tag : TagID) : Nat :=
  (if marker tag = publishTagMarker then kept.count tag else 0) + (rest.map fun e => weight tag (listInfo e.2)).sum

theorem initConnections_inv (hm : Inv m) (hC : ∀ tag ∈ m.pendingTags, movesWell env m tag = true) :
    (m.initConnections env).Ends Inv fun _ => True := by
  unfold Manager.initConnections
  refine .bind (initLoop_sorted hm hC) fun s hs => ?_
  have hstart : Spread (unstarted s.kept (env.order s.toConn.entries)) s.m := by
    refine hs.spread.mono fun tag => ?_
    have hperm : ((env.order s.toConn.entries).map fun e => weight tag (listInfo e.2)).sum =
        s.toConn.sumOver fun _ list => weight tag (listInfo list) :=
      ((env.order_perm s.toConn.entries).map _).sum_eq
    rw [unstarted, hperm, placed, List.count_nil, ite_self, Nat.zero_add]
  have hloop : ((env.order s.toConn.entries).foldlM (startConnection env) s.m).Ends
      (Spread (unstarted s.kept [])) fun _ => True := by
    refine .foldlM (I := fun rest => Spread (unstarted s.kept rest)) hstart fun e rest m₁ _ h => ?_
    have hcons (tag : TagID) :
        unstarted s.kept (e :: rest) tag = unstarted s.kept rest tag + weight tag (listInfo e.2) := by
      rw [unstarted, unstarted, List.map_cons, List.sum_cons]
      omega
    refine (Manager.startConnection_cases e m₁).mono ?_ fun _ _ => trivial
    intro m₂ hor
    rcases hor with ⟨-, rfl⟩ | ⟨key, conn, hfree, rfl, -⟩
    · exact h.mono fun tag => by rw [hcons]; exact Nat.le_add_right _ _
    · refine Spread.addPending (h.mono fun tag => ?_) hfree
      rw [hcons]
      refine Nat.add_le_add_left ?_ _
      cases conn with
      | true => exact le_refl _
      | false => exact Nat.zero_le _
  refine .bind hloop fun m₁ h₁ => ?_
  exact ⟨h₁.single, h₁.parents, ⟨h₁.numbered.keyed, h₁.numbered.lt, h₁.numbered.inj⟩, h₁.told, h₁.once⟩

/-! ## Steps -/

/-- Tags that are not subscribed to are queued. -/
theorem waiting_append {tags : List TagID} (hn : ∀ tag ∈ tags, marker tag ≠ publishTagMarker) (tag : TagID) :
    (if marker tag = publishTagMarker then (m.pendingTags ++ tags).count tag else 0) = waiting m tag := by
  unfold waiting
  split
  · rename_i hp
    rw [List.count_append, List.count_eq_zero.mpr fun hmem => hn tag hmem hp, Nat.add_zero]
  · rfl

theorem mem_parentTags {tags : ReduceGroupNeighbors} {tag : TagID} (h : tag ∈ parentTags tags) : tag = tags.parent := by
  unfold parentTags at h
  split at h
  · cases h
  · exact List.mem_singleton.mp h

/-- A connection that is completed or let go carried what it binds. -/
theorem count_carried {info : PendingInfo} (hconn : info.conn = true) (hgroups : ∀ t ∈ ofGroups info, m.IsParent t)
    (hparents : ∀ t, m.IsParent t → marker t ≠ publishTagMarker) {tag : TagID} (hp : marker tag = publishTagMarker) :
    (carried info).count tag ≤ weight tag info := by
  unfold weight
  rw [if_pos hconn]
  unfold carried boundBy
  cases htype : info.type with
  | subscription => exact le_refl _
  | reduceGroup =>
    have ho : ofGroups info = split info.tag nul 0 := by rw [ofGroups, htype]; rfl
    refine le_of_eq (List.count_eq_zero.mpr fun hmem => ?_)
    exact hparents tag (hgroups tag (ho ▸ hmem)) hp
  | _ => exact Nat.zero_le _

theorem tagRule : TagRule (V := V) (fun s l => cond s l = true) Inv fun _ => True where
  initial port id interval jobs := by
    refine ⟨fun tag => ?_, fun tag hex => ?_, ⟨nofun, nofun, nofun⟩, nofun, fun _ => List.nodup_nil⟩
    · show (if marker tag = publishTagMarker then 0 else 0) + 0 + 0 ≤ 1
      split <;> exact Nat.zero_le _
    · obtain ⟨_, _, hg, _⟩ := hex
      cases hg
  other _ _ := trivial
  still hs hm := by
    refine Spread.still ?_ hs
    refine Spread.mono hm fun tag => ?_
    rw [waiting, waiting, hs.pendingTags]
  subscribe := by
    intro pc m tagIds env fresh hC hm hnd hmem
    refine ⟨fun tag => ?_, hm.parents, ⟨hm.numbered.keyed, hm.numbered.lt, hm.numbered.inj⟩, hm.told, hm.once⟩
    show (if marker tag = publishTagMarker then (m.pendingTags ++ fresh).count tag else 0) + travelling m tag +
      bound m tag ≤ 1
    have hs := hm.single tag
    by_cases hp : marker tag = publishTagMarker
    · rw [waiting, if_pos hp] at hs
      rw [if_pos hp, List.count_append]
      by_cases hf : tag ∈ fresh
      · -- a tag that is added was nowhere
        obtain ⟨hids, hwants⟩ := (hmem tag).mp hf
        have hone := List.count_eq_one_of_mem hnd hf
        have htravel : travelling m tag = 0 := by
          have := List.all_eq_true.mp hC tag hids
          simpa [hwants, hp] using this
        obtain ⟨⟨hbind, hpend⟩, -⟩ : (tag ∉ m.tagToMachine ∧ tag ∉ m.pendingTags) ∧ _ := by
          simpa [Manager.wants] using hwants
        have hb : bound m tag = 0 := by rw [bound, AList.lookup_eq_none.mpr hbind]; rfl
        rw [List.count_eq_zero.mpr hpend, hone, htravel, hb]
      · rw [List.count_eq_zero.mpr hf]
        exact hs
    · rw [if_neg hp]
      exact le_trans (by omega) hs
  ipSubscribe := by
    intro pc m addr tagIds env key hC hm hkey hfree
    simp only [cond, hkey] at hC
    obtain ⟨hnd, hnowhere⟩ := (Bool.and_eq_true _ _).mp hC
    refine Spread.addPending (c := waiting m) ⟨fun tag => ?_, hm.parents, hm.numbered, hm.told, hm.once⟩ hfree
    rw [weight, if_pos rfl]
    by_cases hmem : tag ∈ boundBy ⟨true, .waitingForConn, .specificIp, joinAfter (addressString key) tagIds⟩
    · have hone := List.count_eq_one_of_mem (of_decide_eq_true hnd) hmem
      have hno : waiting m tag + travelling m tag + bound m tag = 0 := by
        simpa [nowhere] using List.all_eq_true.mp hnowhere tag hmem
      omega
    · rw [List.count_eq_zero.mpr hmem]
      exact hm.single tag
  connects hm hfree := Spread.addPending (hm.mono fun tag => le_refl _) hfree
  createReduceGroup := by
    intro pc m group env data hC hm hdata
    have hgroups {groupId : TagID} {ns : ReduceGroupNeighbors}
        (hg : ((m.reduceTagData.insertNew group.groupId ⟨group, [], fun _ => []⟩).lookup groupId).map
          (·.group.tagNeighbors) = some ns) : marker ns.parent ≠ publishTagMarker := by
      rcases Manager.groupTags_insertNew group hg with hg | rfl
      · exact hm.parents _ ⟨groupId, ns, hg, rfl⟩
      · simpa [cond] using hC
    have hnew : ((m.reduceTagData.insertNew group.groupId ⟨group, [], fun _ => []⟩).lookup group.groupId).map
        (·.group.tagNeighbors) = some data.group.tagNeighbors := by rw [hdata]; rfl
    refine ⟨fun tag => ?_, fun tag hex => ?_,
      ⟨hm.numbered.keyed, hm.numbered.lt, hm.numbered.inj⟩, hm.told, hm.once⟩
    · refine le_trans (le_of_eq ?_) (hm.single tag)
      refine congrArg (· + travelling m tag + bound m tag) (waiting_append (fun t ht => ?_) tag)
      rw [mem_parentTags ht]
      exact hgroups hnew
    · obtain ⟨groupId, ns, hg, hp⟩ := hex
      exact hp ▸ hgroups hg
  rebuildReduceGroup := by
    intro pc m groupId env tags _ hm hg
    refine ⟨fun tag => ?_, hm.parents, ⟨hm.numbered.keyed, hm.numbered.lt, hm.numbered.inj⟩, hm.told, hm.once⟩
    refine le_trans (le_of_eq ?_) (hm.single tag)
    refine congrArg (· + travelling m tag + bound m tag) (waiting_append (fun t ht => ?_) tag)
    rw [mem_parentTags ht]
    exact hm.parents _ ⟨groupId, tags, hg, rfl⟩
  handshakeSent := by
    intro m key info hm hl
    refine Spread.of_conns hm _ fun tag => ?_
    rw [AList.sumOver_insert, travelling, AList.sumOver_erase _ hl]
    exact le_refl _
  handshakeFailed _ hm hl _ _ := (Spread.erase hm hl).mono fun tag => Nat.le_add_right _ _
  dropped := by
    intro key todo new m info event env _ hm hl hconn hgroups
    have he := Spread.erase hm hl
    refine ⟨fun tag => ?_, hm.parents, ⟨hm.numbered.keyed, hm.numbered.lt, hm.numbered.inj⟩, hm.told, hm.once⟩
    refine le_trans (Nat.add_le_add_right (Nat.add_le_add_right ?_ _) _) (he.single tag)
    show (if marker tag = publishTagMarker then (m.pendingTags ++ carried info).count tag else 0) ≤ waiting m tag + _
    unfold waiting
    split
    · rename_i hp
      rw [List.count_append]
      exact Nat.add_le_add_left (count_carried hconn hgroups hm.parents hp) _
    · exact Nat.zero_le _
  greeted := by
    intro key todo new m m₁ info sender neighbors port ip env _ hm hl hconn hc
    have hpoints : (m.greet env sender neighbors port ip).2.Points (m.greet env sender neighbors port ip).1.ptr :=
      Manager.greet_points sender neighbors port ip m
    have hg : Spread (waiting m) (m.greet env sender neighbors port ip).2 := Spread.greet hm sender neighbors port ip
    obtain ⟨records, addresses, next, heq⟩ := greet_eq env sender neighbors port ip m
    rw [heq] at hc hpoints hg
    have hlookup : ({ m with neighbors := records, addrToMachine := addresses, nextPtr := next } :
        Manager V).pendingConns.lookup key = some info := hl
    have he := Spread.erase hg hlookup
    cases hc with
    | nothing => exact he.mono fun tag => Nat.le_add_right _ _
    | binds =>
      have hw : (fun tag => waiting m tag + weight tag info) = fun tag => waiting m tag + (boundBy info).count tag := by
        funext tag
        rw [weight, if_pos hconn]
      rw [hw] at he
      exact Spread.bindTags he hpoints
    | joins _ hf => exact Spread.handOver (he.mono fun tag => Nat.le_add_right _ _) hf
  noGroup _ _ _ _ := trivial
  init hC hm := initConnections_inv hm (List.all_eq_true.mp hC)
  remove hm hl env removed := Inv.remove hm hl env removed

variable [Typed V]

def subscribed : TagID := ['p', 't']

/-- Where the tag is published, from a neighbour. -/
def report : List (Label Nat) :=
  [.message (.reportPublishers [subscribed] [[['a', ':', '1']]] [[['x']]] []) quietEnv, .init quietEnv]

/-- A tag is subscribed to, and the connection to its publisher has sent its
handshake. -/
def travels : List (Label Nat) :=
  .subscribe [subscribed] quietEnv :: connected ++ report ++
    [.endMessages quietEnv, .remove quietEnv, .endPass quietEnv, .beginPass quietEnv,
      .conn (.connected .noError) quietEnv, .endConns quietEnv, .endAccept quietEnv, .nextNeighbor,
      .endMessages quietEnv, .remove quietEnv, .endPass quietEnv]

/-- The publisher answers. -/
def answered : List (Label Nat) :=
  [.beginPass quietEnv, .conn (.message (.greeting ['x'] [] 1) ['a']) quietEnv, .endConns quietEnv,
    .endAccept quietEnv, .nextNeighbor]

/-- The publisher drops the subscriber for it. -/
example : dropsForRepeat [] [[subscribed], [subscribed]] = true := rfl

end Skywing.L4.OneNotice
