import Skywing.L3Protocol.RecordFrame

/-!
# Tags on their way

A wanted tag is pending, travels in the list of a pending connection, and is
finalised: bound to a neighbour, or, where it is the parent tag of a reduce
group, handed to the group. `Still m m'` says that from `m` to `m'` no tag
moves. The operations that move tags are described by what they do to the
three containers, up to `Still`.

Results:
* `subscribe_still`, `ipSubscribe_cases`, `createReduceGroup_still`, … : the
  calls from jobs.
* `initConnections_rule`: the invariant rule for the two loops of
  `init_connections_for_pending_tags`.
* `handleGreeting_cases`, `dropConnection_cases`, `removeNeighbor_still`: the
  ends of a connection.
-/
namespace Skywing.L3

open L1.Text L2.Socket ExternalManager

namespace Manager

variable {V : Type} {m m₁ m₂ : Manager V} {env : Env}

/-- The tags are where they were. -/
structure Still (m m' : Manager V) : Prop where
  pendingTags : m'.pendingTags = m.pendingTags
  pendingConns : m'.pendingConns = m.pendingConns
  tagToMachine : m'.tagToMachine = m.tagToMachine
  nextPtr : m'.nextPtr = m.nextPtr
  subscribed : m'.subscribed = m.subscribed
  finalized : m'.finalized = m.finalized
  selfSubCount : ∀ tag ∈ m.selfSubCount, tag ∈ m'.selfSubCount
  groupTags : ∀ groupId, m'.groupTags groupId = m.groupTags groupId
  neighbors : Via SameId m m'

namespace Still

/-- Only neighbours and what is known of publishers changed. -/
theorem of_via (hp : m₁.pendingTags = m.pendingTags) (hc : m₁.pendingConns = m.pendingConns)
    (ht : m₁.tagToMachine = m.tagToMachine) (hx : m₁.nextPtr = m.nextPtr) (hs : m₁.subscribed = m.subscribed)
    (hf : m₁.finalized = m.finalized) (hself : m₁.selfSubCount = m.selfSubCount)
    (hg : m₁.reduceTagData = m.reduceTagData) (hn : Via SameId m m₁) : Still m m₁ :=
  ⟨hp, hc, ht, hx, hs, hf, fun _ h => hself ▸ h, fun g => by rw [Manager.groupTags, Manager.groupTags, hg], hn⟩

theorem refl (m : Manager V) : Still m m := of_via rfl rfl rfl rfl rfl rfl rfl rfl (.of_eq SameId.refl rfl)

theorem trans (h : Still m m₁) (h' : Still m₁ m₂) : Still m m₂ where
  pendingTags := h'.pendingTags.trans h.pendingTags
  pendingConns := h'.pendingConns.trans h.pendingConns
  tagToMachine := h'.tagToMachine.trans h.tagToMachine
  nextPtr := h'.nextPtr.trans h.nextPtr
  subscribed := h'.subscribed.trans h.subscribed
  finalized := h'.finalized.trans h.finalized
  selfSubCount t ht := h'.selfSubCount t (h.selfSubCount t ht)
  groupTags g := (h'.groupTags g).trans (h.groupTags g)
  neighbors := h.neighbors.trans SameId.trans h'.neighbors

theorem of_sameTags (h : SameTags m m₁) : Still m m₁ where
  pendingTags := h.pendingTags
  pendingConns := h.pendingConns
  tagToMachine := h.tagToMachine
  nextPtr := h.nextPtr
  subscribed := h.subscribed
  finalized := h.finalized
  selfSubCount t := (h.selfSubCount t).mpr
  groupTags := h.groupTags
  neighbors := h.neighbors.mono fun _ _ hq => ⟨hq.ptr, hq.id⟩

theorem of_plain (h : Plain m m₁) : Still m m₁ := .of_sameTags (.of_plain h)

theorem of_searches (h : Searches m m₁) : Still m m₁ := .of_sameTags (.of_searches h)

theorem mapNeighbors {f : ExternalManager V → ExternalManager V} (hf : ∀ e, SameId e (f e)) :
    Still m (m.mapNeighbors f) := of_via rfl rfl rfl rfl rfl rfl rfl rfl ⟨fun _ => f, fun _ => hf, rfl⟩

theorem atNeighbor {f : ExternalManager V → ExternalManager V} (hf : ∀ e, SameId e (f e)) (id : MachineID) :
    Still m (m.atNeighbor id f) := by
  refine of_via rfl rfl rfl rfl rfl rfl rfl rfl ⟨fun key e => if key = id then f e else e, fun key e => ?_, rfl⟩
  dsimp only
  split
  · exact hf e
  · exact .refl e

theorem atPtr {f : ExternalManager V → ExternalManager V} (hf : ∀ e, SameId e (f e)) (ptr : Nat) :
    Still m (m.atPtr ptr f) := by
  refine mapNeighbors fun e => ?_
  split
  · exact hf e
  · exact .refl e

theorem foldlM {α : Type} {f : Manager V → α → Except Abort (Manager V)} {E : Abort → Prop}
    (hf : ∀ m a, (f m a).Ends (Still m) E) (l : List α) (m : Manager V) : (l.foldlM f m).Ends (Still m) E :=
  .foldlM (I := fun _ => Still m) (refl m) fun a _ m₁ _ h => (hf m₁ a).mono (fun _ h' => h.trans h') fun _ he => he

/-- Records keep their places. -/
theorem points (h : Still m m₁) (ptr : Nat) : m₁.Points ptr ↔ m.Points ptr := by
  constructor
  · intro hex
    obtain ⟨id, e', he', hptr⟩ := hex
    obtain ⟨e, he, hs⟩ := h.neighbors.of_lookup he'
    exact ⟨id, e, he, hs.1 ▸ hptr⟩
  · intro hex
    obtain ⟨id, e, he, hptr⟩ := hex
    rcases h.neighbors.lookup id with ⟨hnone, -⟩ | ⟨e₁, e', h₁, h', hs⟩
    · rw [he] at hnone
      cases hnone
    · rw [he] at h₁
      cases h₁
      exact ⟨id, e', h', hs.1.trans hptr⟩

end Still

/-- A local group has the tag as its parent tag. -/
def IsParent (m : Manager V) (tag : TagID) : Prop := ∃ groupId tags, m.groupTags groupId = some tags ∧ tags.parent = tag

/-- The program stops for a tag of the list that no group has as its parent
tag, or for another reason. -/
def NoGroup (m : Manager V) (tags : List TagID) (a : Abort) : Prop :=
  ∀ tag, a = .groupFromParentTag tag → tag ∈ tags ∧ ¬ m.IsParent tag

theorem NoGroup.of_other {a : Abort} {tags : List TagID} (h : a.Other) : m.NoGroup tags a :=
  fun tag ha => absurd ha (h tag)

theorem isParent_congr (h : ∀ groupId, m₁.groupTags groupId = m.groupTags groupId) (tag : TagID) :
    m₁.IsParent tag ↔ m.IsParent tag := by
  simp only [IsParent, h]

/-! ## Calls from jobs -/

/-- A group that is there stays as it is. -/
theorem groupTags_mono (group : ReduceGroup V) {groupId : TagID} {ns : ReduceGroupNeighbors}
    (h : m.groupTags groupId = some ns) :
    ((m.reduceTagData.insertNew group.groupId ⟨group, [], fun _ => []⟩).lookup groupId).map
      (·.group.tagNeighbors) = some ns := by
  obtain ⟨data, hdata, rfl⟩ := Option.map_eq_some_iff.mp h
  rw [AList.lookup_insertNew]
  split
  · rename_i he
    rw [← he, hdata]
    rfl
  · rw [hdata]
    rfl

theorem groupTags_insertNew (group : ReduceGroup V) {groupId : TagID} {ns : ReduceGroupNeighbors}
    (h : ((m.reduceTagData.insertNew group.groupId ⟨group, [], fun _ => []⟩).lookup groupId).map
      (·.group.tagNeighbors) = some ns) : m.groupTags groupId = some ns ∨ ns = group.tagNeighbors := by
  rw [AList.lookup_insertNew] at h
  split at h
  · rename_i he
    cases hl : m.reduceTagData.lookup group.groupId with
    | none =>
      rw [hl] at h
      exact .inr (Option.some.inj h).symm
    | some data =>
      rw [hl] at h
      rw [Manager.groupTags, he, hl]
      exact .inl h
  · exact .inl h

/-- What `subscribe` adds to the pending tags. -/
theorem queueWanted_eq (tagIds : List TagID) (m : Manager V) : ∃ fresh : List TagID,
    m.queueWanted tagIds = { m with pendingTags := m.pendingTags ++ fresh } ∧ fresh.Nodup ∧
      ∀ tag, tag ∈ fresh ↔ tag ∈ tagIds ∧ m.wants tag = true := by
  unfold queueWanted
  induction tagIds generalizing m with
  | nil => exact ⟨[], by rw [List.append_nil]; rfl, .nil, fun tag => by simp⟩
  | cons t tagIds ih =>
    rw [List.foldl_cons]
    by_cases ht : m.wants t = true
    · rw [if_pos ht]
      obtain ⟨fresh, heq, hnd, hmem⟩ := ih { m with pendingTags := m.pendingTags ++ [t] }
      have hwants (tag : TagID) : wants { m with pendingTags := m.pendingTags ++ [t] } tag = true ↔
          m.wants tag = true ∧ tag ≠ t := by
        simp only [wants, List.mem_append, List.mem_singleton, Bool.and_eq_true, decide_eq_true_eq, not_or]
        tauto
      simp only [hwants] at hmem
      refine ⟨t :: fresh, ?_, List.nodup_cons.mpr ⟨fun hmt => ((hmem t).mp hmt).2.2 rfl, hnd⟩, fun tag => ?_⟩
      · rw [heq, List.append_assoc, List.singleton_append]
      · rw [List.mem_cons, List.mem_cons, hmem]
        by_cases he : tag = t
        · subst he
          simp [ht]
        · simp [he]
    · rw [if_neg ht]
      obtain ⟨fresh, heq, hnd, hmem⟩ := ih m
      refine ⟨fresh, heq, hnd, fun tag => ?_⟩
      rw [hmem, List.mem_cons]
      by_cases he : tag = t
      · subst he
        simp [ht]
      · simp [he]

theorem askNeighbors_still (tags : List TagID) : Still m (m.askNeighbors env tags) :=
  .of_searches (askNeighbors_searches tags)

theorem subscribe_still (env : Env) (tagIds : List TagID) (m : Manager V) : ∃ fresh : List TagID, fresh.Nodup ∧
    (∀ tag, tag ∈ fresh ↔ tag ∈ tagIds ∧ m.wants tag = true) ∧
      Still { m with pendingTags := m.pendingTags ++ fresh, subscribed := m.subscribed ++ tagIds }
        (m.subscribe env tagIds) := by
  obtain ⟨fresh, heq, hnd, hmem⟩ := queueWanted_eq tagIds m
  refine ⟨fresh, hnd, hmem, ?_⟩
  unfold subscribe
  rw [heq]
  dsimp only
  split
  · exact .refl _
  · exact askNeighbors_still tagIds

/-- A new entry among the pending connections. -/
def addPending (key : AddrPort) (info : PendingInfo) (m : Manager V) : Manager V :=
  { m with pendingConns := m.pendingConns.insert key info }

theorem toCanonical_other (addr : AddrPort) : (toCanonical env addr).Ends (fun _ => True) Abort.Other := by
  unfold toCanonical
  split
  · exact fun _ => nofun
  · trivial

theorem connectTo_other (host : Str) (port : UInt16) : (connectTo env host port).Ends (fun _ => True) Abort.Other := by
  unfold connectTo
  split
  · trivial
  · trivial
  · trivial
  · exact fun _ => nofun

theorem deref_other (ptr : Nat) : (m.deref ptr).Ends (fun _ => True) Abort.Other := by
  unfold deref
  split
  · trivial
  · exact fun _ => nofun

theorem ipSubscribe_cases (addr : AddrPort) (tagIds : List TagID) (m : Manager V) :
    (m.ipSubscribe env addr tagIds).Ends (fun m' => Still m m' ∨ ∃ key, toCanonical env addr = .ok key ∧
      key ∉ m.pendingConns ∧ m' = m.addPending key
        ⟨true, .waitingForConn, .specificIp, joinAfter (addressString key) tagIds⟩) Abort.Other := by
  have hip (addr : AddrPort) : (toIpPort env addr).Ends (fun _ => True) Abort.Other :=
    .bind (toCanonical_other addr) fun _ _ => trivial
  have hcanonical : (toCanonical env addr).Ends (fun _ => True) Abort.Other := toCanonical_other addr
  unfold ipSubscribe
  cases hkey : toCanonical env addr with
  | error a => exact hcanonical.of_error hkey
  | ok key =>
    rw [Except.ok_bind]
    refine .bind (hip key) fun a _ => .bind (hip _) fun b _ => ?_
    split
    · refine Except.Ends.mono (Still.foldlM (E := Abort.Other) (fun m' tag => ?_) tagIds m) (fun _ h => .inl h)
        fun _ h => h
      split
      · exact ⟨rfl, rfl, rfl, rfl, rfl, rfl, fun _ h => (AList.mem_insert _).mpr (.inr h), fun _ => rfl,
          .of_eq SameId.refl rfl⟩
      · exact fun _ => nofun
    · split
      · exact .bind (deref_other _) fun e _ => Or.inl (Still.atPtr (sendMessage_sameId env _) e.ptr)
      · split
        · exact fun _ => nofun
        · rename_i hfree
          exact .bind (connectTo_other _ _) fun _ _ => Or.inr ⟨key, rfl, hfree, rfl⟩

theorem connectToServer_cases (addr : AddrPort) (m : Manager V) :
    (m.connectToServer env addr).Ends (fun m' => m' = m ∨ ∃ key, key ∉ m.pendingConns ∧
      m' = m.addPending key ⟨true, .waitingForConn, .userRequested, []⟩) Abort.Other := by
  unfold connectToServer
  refine .bind (toCanonical_other addr) fun key _ => ?_
  split
  · exact Or.inl rfl
  · rename_i hfree
    exact .bind (connectTo_other _ _) fun _ _ => Or.inr ⟨key, fun h => hfree (.inr h), rfl⟩

theorem acceptConnection_cases (m : Manager V) : ∀ (tries : Nat) (addr : AddrPort),
    (m.acceptConnection tries addr).Ends (fun m' => ∃ key, key ∉ m.pendingConns ∧
      m' = m.addPending key ⟨true, .waitingForConn, .userRequested, []⟩) Abort.Other
  | 0, _ => fun _ => nofun
  | tries + 1, (address, port) => by
    unfold acceptConnection
    split
    · exact acceptConnection_cases m tries _
    · rename_i hfree
      exact ⟨_, hfree, rfl⟩

theorem reportNewPublishTags_still (tags : List TagID) : (m.reportNewPublishTags tags).Ends (Still m) Abort.Other := by
  refine Still.foldlM (fun m' tag => ?_) tags m
  split
  · exact fun _ => nofun
  · exact ⟨rfl, rfl, rfl, rfl, rfl, rfl, fun _ h => (AList.mem_insert _).mpr (.inr h), fun _ => rfl,
      .of_eq SameId.refl rfl⟩

/-- The parent tag as it is queued: a root has none. -/
def parentTags (tags : ReduceGroupNeighbors) : List TagID := if tags.parent.isEmpty then [] else [tags.parent]

theorem queueParentTag_still (parentTag : TagID) :
    Still { m with pendingTags := m.pendingTags ++ [parentTag] } (m.queueParentTag env parentTag) :=
  askNeighbors_still (m := { m with pendingTags := m.pendingTags ++ [parentTag] }) [parentTag]

/-- A group is entered where there is none of its name, and its parent tag is
wanted. -/
theorem createReduceGroup_still (group : ReduceGroup V) :
    (m.createReduceGroup env group).Ends (fun m' => ∃ data,
      (m.reduceTagData.insertNew group.groupId ⟨group, [], fun _ => []⟩).lookup group.groupId = some data ∧
      Still { m with
        selfSubCount := m.selfSubCount.insert group.producedTag 0
        reduceTagData := m.reduceTagData.insertNew group.groupId ⟨group, [], fun _ => []⟩
        pendingTags := m.pendingTags ++ parentTags data.group.tagNeighbors } m') Abort.Other := by
  unfold createReduceGroup
  split
  · exact fun _ => nofun
  dsimp only
  split
  · exact fun _ => nofun
  · rename_i data hdata
    refine Except.Ends.pure ⟨data, hdata, ?_⟩
    unfold parentTags
    split
    · rw [List.append_nil]
      exact .refl _
    · exact queueParentTag_still (m := { m with
        selfSubCount := m.selfSubCount.insert group.producedTag 0
        reduceTagData := m.reduceTagData.insertNew group.groupId ⟨group, [], fun _ => []⟩ }) _

theorem rebuildReduceGroup_still (groupId : TagID) :
    (m.rebuildReduceGroup env groupId).Ends (fun m' => ∃ tags queued, m.groupTags groupId = some tags ∧
      (queued = [] ∨ queued = parentTags tags) ∧ Still { m with pendingTags := m.pendingTags ++ queued } m')
      Abort.Other := by
  unfold rebuildReduceGroup
  split
  · exact fun _ => nofun
  · rename_i data hdata
    have hg : m.groupTags groupId = some data.group.tagNeighbors := by rw [Manager.groupTags, hdata]; rfl
    dsimp only
    split
    · rename_i hne
      have hparent : ¬ data.group.tagNeighbors.parent.isEmpty = true := by
        obtain ⟨h, -⟩ := (Bool.and_eq_true _ _).mp hne
        simpa using h
      refine Except.Ends.ok ⟨_, _, hg, .inr rfl, ?_⟩
      rw [parentTags, if_neg hparent]
      exact queueParentTag_still _
    · refine Except.Ends.ok ⟨_, [], hg, .inl rfl, ?_⟩
      rw [List.append_nil]
      exact .refl m

/-! ## Finalising tags -/

/-- The tags of a list are bound to a record. -/
def bindTags (tags : List TagID) (source : Nat) (m : Manager V) : Manager V :=
  { m with
    tagToMachine := tags.foldl (fun bound tag => bound.insert tag source) m.tagToMachine
    finalized := m.finalized ++ tags.map (Finalized.subscription · source) }

theorem mem_bindTags {tags : List TagID} {source : Nat} {tag : TagID} :
    tag ∈ (m.bindTags tags source).tagToMachine ↔ tag ∈ tags ∨ tag ∈ m.tagToMachine := by
  rw [← AList.lookup_isSome, bindTags, lookup_bindAll]
  split
  · rename_i ht
    simp [ht]
  · rename_i ht
    simp [ht, AList.lookup_isSome]

/-- History: parent tags of the list were handed to their groups. -/
def HandedOver (m : Manager V) (tags : List TagID) (fin : List Finalized) : Prop :=
  ∀ f ∈ fin, ∃ tag groupId ns, f = .reduceGroup tag groupId ∧ tag ∈ tags ∧ m.groupTags groupId = some ns ∧
    ns.parent = tag

theorem finalizeSubscription_still (env : Env) (tags : Str) (source : Nat) (m : Manager V) :
    Still (m.bindTags (split tags nul 0) source) (m.finalizeSubscription env tags source) :=
  Still.atPtr (m := m.bindTags (split tags nul 0) source) (sendMessage_sameId env _) source

theorem Still.addFinalized (h : Still m m₁) (fin : List Finalized) :
    Still { m with finalized := m.finalized ++ fin } { m₁ with finalized := m₁.finalized ++ fin } :=
  ⟨h.pendingTags, h.pendingConns, h.tagToMachine, h.nextPtr, h.subscribed, congrArg (· ++ fin) h.finalized,
    h.selfSubCount, h.groupTags, h.neighbors⟩

theorem groupFromParentTag_ends (tag : TagID) : (m.groupFromParentTag env tag).Ends
    (fun e => m.groupTags e.1 = some e.2.group.tagNeighbors ∧ m.reduceTagData.lookup e.1 = some e.2 ∧
      e.2.group.tagNeighbors.parent = tag) (m.NoGroup [tag]) := by
  unfold groupFromParentTag
  split
  · rename_i e he
    have hl : m.reduceTagData.lookup e.1 = some e.2 :=
      AList.mem_entries_iff.mp (env.mem_order.mp (List.mem_of_find?_eq_some he))
    refine ⟨?_, hl, by simpa using List.find?_some he⟩
    rw [Manager.groupTags, hl]
    rfl
  · rename_i hnone
    intro t ht
    cases ht
    refine ⟨List.mem_singleton_self tag, ?_⟩
    intro hex
    obtain ⟨groupId, ns, hg, hp⟩ := hex
    obtain ⟨data, hdata, rfl⟩ := Option.map_eq_some_iff.mp hg
    have hmem : (⟨groupId, data⟩ : Σ _ : TagID, ReduceGroupData V) ∈ env.order m.reduceTagData.entries :=
      env.mem_order.mpr (AList.mem_entries_iff.mpr hdata)
    simpa [hp] using List.find?_eq_none.mp hnone _ hmem

theorem finalizeReduceGroup_still (id : MachineID) {groupTag : TagID} {data : ReduceGroupData V}
    (h : m.reduceTagData.lookup groupTag = some data) :
    (m.finalizeReduceGroup env id groupTag).Ends (fun m' => Still m m' ∧ SameRoutes m m') Abort.Other := by
  unfold finalizeReduceGroup
  rw [h]
  dsimp only
  split
  · have hset : SameTags m (m.setGroupData groupTag { data with parentMachines := data.parentMachines ++ [id] }) :=
      setGroupData_sameTags h rfl
    have hsend : Still (m.setGroupData groupTag { data with parentMachines := data.parentMachines ++ [id] }) _ :=
      Still.atNeighbor (sendMessage_sameId env (.joinReduceGroup groupTag data.group.producedTag)) id
    exact ⟨(Still.of_sameTags hset).trans hsend, fun _ => .rfl, rfl, rfl, hsend.neighbors⟩
  · exact fun _ => nofun

theorem finalizeParentTag_still (id : MachineID) (m : Manager V) (tag : TagID) :
    (finalizeParentTag env id m tag).Ends (fun m' => SameRoutes m m' ∧ ∃ fin, m.HandedOver [tag] fin ∧
      Still { m with finalized := m.finalized ++ fin } m') (m.NoGroup [tag]) := by
  unfold finalizeParentTag
  refine .bind (groupFromParentTag_ends tag) fun e he => ?_
  obtain ⟨hg, hl, hp⟩ := he
  refine .bind ((finalizeReduceGroup_still id hl).mono (fun _ h => h) fun _ => .of_other) fun m₁ h₁ => ?_
  obtain ⟨hs, hr⟩ := h₁
  refine ⟨⟨hr.selfSubCount, hr.publishersForTag, hr.addrToMachine, hr.neighbors⟩, [.reduceGroup tag e.1], ?_,
    hs.addFinalized _⟩
  exact List.forall_mem_singleton.mpr ⟨tag, e.1, _, rfl, List.mem_singleton_self tag, hg, hp⟩

theorem finalizeParentTags_still (id : MachineID) (tags : Str) (m : Manager V) :
    (m.finalizeParentTags env id tags).Ends (fun m' => SameRoutes m m' ∧ ∃ fin, m.HandedOver (split tags nul 0) fin ∧
      Still { m with finalized := m.finalized ++ fin } m') (m.NoGroup (split tags nul 0)) := by
  refine .foldlM (I := fun _ m' => SameRoutes m m' ∧ ∃ fin, m.HandedOver (split tags nul 0) fin ∧
    Still { m with finalized := m.finalized ++ fin } m') ⟨.refl m, [], nofun, ?_⟩ fun tag rest m₁ ht h => ?_
  · rw [List.append_nil]
    exact .refl m
  obtain ⟨hr, fin, hfin, hs⟩ := h
  have hgroups (groupId : TagID) : m₁.groupTags groupId = m.groupTags groupId := hs.groupTags groupId
  refine (finalizeParentTag_still id m₁ tag).mono ?_ ?_
  · intro m₂ hex
    obtain ⟨hr', fin', hfin', hs'⟩ := hex
    refine ⟨hr.trans hr', fin ++ fin', fun f hf => ?_, ?_⟩
    · rcases List.mem_append.mp hf with hf | hf
      · exact hfin f hf
      · obtain ⟨t, groupId, ns, hft, hmem, hg, hp⟩ := hfin' f hf
        exact ⟨t, groupId, ns, hft, List.mem_singleton.mp hmem ▸ ht, (hgroups groupId) ▸ hg, hp⟩
    · rw [← List.append_assoc]
      exact (hs.addFinalized fin').trans hs'
  · intro a ha t hat
    obtain ⟨hmem, hno⟩ := ha t hat
    exact ⟨List.mem_singleton.mp hmem ▸ ht, fun hp => hno ((isParent_congr hgroups t).mpr hp)⟩

/-! ## Connections for pending tags -/

/-- What the dispatch does for a publisher that is connected. -/
theorem finalizePending_still (env : Env) (ptr : Nat) (id : MachineID) (tag : TagID) (m : Manager V) :
    (m.finalizePending env ptr id tag).Ends (fun m' => SameRoutes m m' ∧
      if marker tag = publishTagMarker then Still (m.bindTags (split tag nul 0) ptr) m'
      else ∃ fin, m.HandedOver (split tag nul 0) fin ∧ Still { m with finalized := m.finalized ++ fin } m')
      fun a => marker tag ≠ publishTagMarker ∧ m.NoGroup (split tag nul 0) a := by
  unfold finalizePending
  split
  · rename_i hp
    have hs := finalizeSubscription_still env tag ptr m
    exact ⟨⟨fun _ => .rfl, rfl, rfl, hs.neighbors⟩, hs⟩
  · rename_i hp
    exact (finalizeParentTags_still id tag m).mono (fun _ h => h) fun _ ha => ⟨hp, ha⟩

/-- The invariant rule for the first loop: the invariant speaks of the pending
tags that are left. -/
theorem initLoop_rule {P : List TagID → InitLoop V → Prop} {E : Abort → Prop} (hE : ∀ a, a.Other → E a)
    (h0 : P m.pendingTags ⟨m, [], ∅⟩)
    (hself : ∀ {before tag rest s}, m.pendingTags = before ++ tag :: rest → m.route env tag = .ok .selfProduced →
      P (tag :: rest) s → P rest { s with m := s.m.countSelfSubscription tag })
    (hkeep : ∀ {before tag rest s}, m.pendingTags = before ++ tag :: rest → m.route env tag = .ok .keep →
      P (tag :: rest) s → P rest { s with kept := s.kept ++ [tag] })
    (hfinalize : ∀ {before tag rest s ptr id}, m.pendingTags = before ++ tag :: rest →
      m.route env tag = .ok (.finalize ptr id) → s.m.route env tag = .ok (.finalize ptr id) → P (tag :: rest) s →
        (s.m.finalizePending env ptr id tag).Ends (fun m' => P rest { s with m := m' }) E)
    (hconnect : ∀ {before tag rest s address}, m.pendingTags = before ++ tag :: rest →
      m.route env tag = .ok (.connect address) → P (tag :: rest) s →
        P rest { s with toConn := addToConn s.toConn address tag }) :
    (m.pendingTags.foldlM (initTag env) ⟨m, [], ∅⟩).Ends (P []) E := by
  have hloop : (m.pendingTags.foldlM (initTag env) ⟨m, [], ∅⟩).Ends
      (fun s => SameRoutes m s.m ∧ (∃ before, m.pendingTags = before ++ []) ∧ P [] s) E := by
    refine .foldlM (I := fun rest s => SameRoutes m s.m ∧ (∃ before, m.pendingTags = before ++ rest) ∧ P rest s)
      ⟨.refl m, ⟨[], rfl⟩, h0⟩ fun tag rest s _ hs => ?_
    obtain ⟨hr, ⟨before, hb⟩, hP⟩ := hs
    have hrest : ∃ before, m.pendingTags = before ++ rest := ⟨before ++ [tag], by rw [hb, List.append_assoc]; rfl⟩
    have hroute : s.m.route env tag = m.route env tag := route_congr hr tag
    have hother : (s.m.route env tag).Ends (fun _ => True) Abort.Other := route_other tag
    unfold initTag
    cases hs : s.m.route env tag with
    | error a =>
      rw [hs] at hother
      exact hE a hother
    | ok r =>
      have hm : m.route env tag = .ok r := hroute.symm.trans hs
      cases r with
      | selfProduced =>
        refine ⟨hr.trans ⟨fun t => ?_, rfl, rfl, .of_eq SameId.refl rfl⟩, hrest, hself hb hm hP⟩
        rw [countSelfSubscription, AList.mem_insert]
        exact ⟨fun h => h.elim (fun he => he ▸ route_selfProduced hs) fun h => h, .inr⟩
      | keep => exact ⟨hr, hrest, hkeep hb hm hP⟩
      | finalize ptr id =>
        refine .bind (P := fun m' => SameRoutes s.m m' ∧ P rest { s with m := m' }) ?_ fun m' hm' =>
          ⟨hr.trans hm'.1, hrest, hm'.2⟩
        have h₁ := finalizePending_still env ptr id tag s.m
        have h₂ := hfinalize hb hm hs hP
        cases hf : s.m.finalizePending env ptr id tag with
        | error a => exact h₂.of_error hf
        | ok m' => exact ⟨(h₁.of_ok hf).1, h₂.of_ok hf⟩
      | connect address => exact ⟨hr, hrest, hconnect hb hm hP⟩
  exact hloop.mono (fun _ h => h.2.2) fun _ h => h

theorem insertPending_cases (m : Manager V) : ∀ (tries : Nat) (key : AddrPort) (info : PendingInfo),
    (m.insertPending tries key info).Ends (fun m' => ∃ key' conn, key' ∉ m.pendingConns ∧
      m' = m.addPending key' { info with conn := conn } ∧ (key ∉ m.pendingConns → conn = info.conn)) Abort.Other
  | 0, _, _ => fun _ => nofun
  | tries + 1, (host, port), info => by
    unfold insertPending
    split
    · rename_i htaken
      refine (insertPending_cases m tries (host, port + 1) { info with conn := false }).mono ?_ fun _ h => h
      intro m' hex
      obtain ⟨key', conn, hfree, hm', -⟩ := hex
      exact ⟨key', conn, hfree, hm', fun h => absurd htaken h⟩
    · rename_i hfree
      exact ⟨(host, port), info.conn, hfree, rfl, fun _ => rfl⟩

/-- A connection is started, or the tags for the address are let go. -/
theorem startConnection_cases (e : Σ _ : Str, Str) (m : Manager V) :
    (m.startConnection env e).Ends (fun m' => connectNonBlocking env e.1 = .ok .unrecoverable ∧ m' = m ∨
      ∃ key conn, key ∉ m.pendingConns ∧ m' = m.addPending key ⟨conn, .waitingForConn, connTypeOf e.2, e.2⟩ ∧
        (splitAddress e.1 ∉ m.pendingConns → conn = true)) Abort.Other := by
  have herr : (connectNonBlocking env e.1).Ends
      (fun err => err = .unrecoverable ∨ err = .connectionInProgress) Abort.Other := by
    unfold connectNonBlocking connectTo
    split
    · exact Or.inl rfl
    · split
      · exact Or.inr rfl
      · exact Or.inl rfl
      · exact Or.inl rfl
      · exact fun _ => nofun
  unfold startConnection
  cases hc : connectNonBlocking env e.1 with
  | error a => exact herr.of_error hc
  | ok err =>
    rcases herr.of_ok hc with rfl | rfl
    · exact Or.inl ⟨rfl, rfl⟩
    · refine (insertPending_cases m _ _ _).mono ?_ fun _ h => h
      intro m' hex
      obtain ⟨key, conn, hfree, hm', hconn⟩ := hex
      exact .inr ⟨key, conn, hfree, hm', hconn⟩

/-! ## Connections that end -/

/-- The tags that `handle_error` makes pending again. -/
def carried (info : PendingInfo) : List TagID :=
  match info.type with
  | .subscription | .reduceGroup => split info.tag nul 0
  | _ => []

/-- The tags that are looked up among the groups. -/
def ofGroups (info : PendingInfo) : List TagID := if info.type = .reduceGroup then split info.tag nul 0 else []

theorem handleTag_still (pubTag baseTag : TagID) (m : Manager V) :
    (m.handleTag pubTag baseTag).Ends (Still { m with pendingTags := m.pendingTags ++ [baseTag] }) Abort.Other := by
  unfold handleTag
  split
  · exact fun _ => nofun
  · dsimp only
    split
    · exact Still.mapNeighbors (m := { m with pendingTags := m.pendingTags ++ [baseTag] }) fun _ => ⟨rfl, rfl⟩
    · exact Still.refl _

theorem Still.addPendingTags (h : Still m m₁) (tags : List TagID) :
    Still { m with pendingTags := m.pendingTags ++ tags } { m₁ with pendingTags := m₁.pendingTags ++ tags } :=
  ⟨congrArg (· ++ tags) h.pendingTags, h.pendingConns, h.tagToMachine, h.nextPtr, h.subscribed, h.finalized,
    h.selfSubCount, h.groupTags, h.neighbors⟩

/-- The loops of `handle_error`: each tag of a list becomes pending, and `G`
holds of it. -/
theorem requeue_still {f : Manager V → TagID → Except Abort (Manager V)} {tags : List TagID} {G : TagID → Prop}
    {E : Abort → Prop} (m : Manager V)
    (hf : ∀ (m' : Manager V) (tag : TagID), (∀ groupId, m'.groupTags groupId = m.groupTags groupId) → tag ∈ tags →
      (f m' tag).Ends (fun m'' => Still { m' with pendingTags := m'.pendingTags ++ [tag] } m'' ∧ G tag) E) :
    (tags.foldlM f m).Ends
      (fun m' => Still { m with pendingTags := m.pendingTags ++ tags } m' ∧ ∀ t ∈ tags, G t) E := by
  have hloop : (tags.foldlM f m).Ends (fun m' => ∃ done, tags = done ++ [] ∧
      Still { m with pendingTags := m.pendingTags ++ done } m' ∧ ∀ t ∈ done, G t) E := by
    refine .foldlM (I := fun rest m' => ∃ done, tags = done ++ rest ∧
      Still { m with pendingTags := m.pendingTags ++ done } m' ∧ ∀ t ∈ done, G t) ⟨[], rfl, ?_, nofun⟩
      fun tag rest m₁ ht h => ?_
    · rw [List.append_nil]
      exact .refl m
    · obtain ⟨done, hd, hs, hG⟩ := h
      refine (hf m₁ tag hs.groupTags ht).mono ?_ fun _ h => h
      intro m₂ hex
      obtain ⟨h₂, htag⟩ := hex
      refine ⟨done ++ [tag], by rw [hd, List.append_assoc]; rfl, ?_, fun t hmem => ?_⟩
      · rw [← List.append_assoc]
        exact (hs.addPendingTags [tag]).trans h₂
      · rcases List.mem_append.mp hmem with hmem | hmem
        · exact hG t hmem
        · exact List.mem_singleton.mp hmem ▸ htag
  refine hloop.mono ?_ fun _ h => h
  intro m' hex
  obtain ⟨done, hd, h⟩ := hex
  rw [List.append_nil] at hd
  exact hd ▸ h

theorem handleError_still (info : PendingInfo) (m : Manager V) : (m.handleError env info).Ends
    (fun r => Still { m with pendingTags := m.pendingTags ++ carried info } r.1 ∧ ∀ t ∈ ofGroups info, m.IsParent t)
    (m.NoGroup (ofGroups info)) := by
  have hnone (hc : carried info = []) (ho : ofGroups info = []) :
      Still { m with pendingTags := m.pendingTags ++ carried info } m ∧ ∀ t ∈ ofGroups info, m.IsParent t := by
    rw [hc, ho, List.append_nil]
    exact ⟨.refl m, nofun⟩
  unfold handleError
  split
  · rename_i htype
    exact hnone (by rw [carried, htype]) (by rw [ofGroups, htype]; rfl)
  · rename_i htype
    exact hnone (by rw [carried, htype]) (by rw [ofGroups, htype]; rfl)
  · rename_i htype
    exact hnone (by rw [carried, htype]) (by rw [ofGroups, htype]; rfl)
  · rename_i htype
    have hc : carried info = split info.tag nul 0 := by rw [carried, htype]
    have ho : ofGroups info = [] := by rw [ofGroups, htype]; rfl
    rw [hc, ho]
    refine .bind ((requeue_still (G := fun _ => True) m fun m' tag _ _ => ?_).mono (fun _ h => h) fun _ => .of_other)
      fun m₁ h₁ => ⟨h₁.1, nofun⟩
    exact (handleTag_still tag tag m').mono (fun _ h => ⟨h, trivial⟩) fun _ h => h
  · rename_i htype
    have hc : carried info = split info.tag nul 0 := by rw [carried, htype]
    have ho : ofGroups info = split info.tag nul 0 := by rw [ofGroups, htype]; rfl
    rw [hc, ho]
    refine .bind (requeue_still (G := m.IsParent) m fun m' tag hg ht => ?_) fun m₁ h₁ => h₁
    refine .bind ((groupFromParentTag_ends tag).mono (fun _ h => h) fun a ha t hat => ?_) fun e he => ?_
    · obtain ⟨hmem, hno⟩ := ha t hat
      exact ⟨List.mem_singleton.mp hmem ▸ ht, fun hp => hno ((isParent_congr hg t).mpr hp)⟩
    · have hp : m.IsParent tag := (isParent_congr hg tag).mp ⟨e.1, _, he.1, he.2.2⟩
      exact (handleTag_still _ tag m').mono (fun _ h => ⟨h, hp⟩) fun _ => .of_other

/-- The connection goes, and its tags are pending again. -/
theorem dropConnection_cases (key : AddrPort) (info : PendingInfo) (m : Manager V) :
    (m.dropConnection env key info).Ends (fun r => (∀ t ∈ ofGroups info, m.IsParent t) ∧
      Still { m with pendingTags := m.pendingTags ++ carried info, pendingConns := m.pendingConns.erase key } r.1)
      (m.NoGroup (ofGroups info)) := by
  unfold dropConnection
  refine .bind (handleError_still info m) fun r hr => ⟨hr.2, ?_⟩
  obtain ⟨hs, -⟩ := hr
  exact ⟨hs.pendingTags, congrArg (AList.erase key) hs.pendingConns, hs.tagToMachine, hs.nextPtr, hs.subscribed,
    hs.finalized, hs.selfSubCount, hs.groupTags, hs.neighbors⟩

/-- The tags that a connection binds when it is complete. -/
def boundBy (info : PendingInfo) : List TagID :=
  match info.type with
  | .subscription => split info.tag nul 0
  | .specificIp =>
    match split info.tag nul 2 with
    | [_, tags] => split tags nul 0
    | _ => []
  | _ => []

/-- What `finalize_connection` does to the tags. -/
inductive Completes (info : PendingInfo) (ptr : Nat) (m : Manager V) : Manager V → Prop
  | nothing (h : info.type ≠ .subscription) (h' : info.type ≠ .reduceGroup) : Completes info ptr m m
  | binds : Completes info ptr m (m.bindTags (boundBy info) ptr)
  | joins (h : info.type = .reduceGroup) {fin : List Finalized} (hf : m.HandedOver (split info.tag nul 0) fin) :
    Completes info ptr m { m with finalized := m.finalized ++ fin }

theorem finalizeConnection_cases (info : PendingInfo) (e : ExternalManager V) (m : Manager V) :
    (m.finalizeConnection env info e).Ends (fun r => ∃ m₁, Completes info e.ptr m m₁ ∧
      match r with
      | none => m₁ = m
      | some m' => Still m₁ m') (m.NoGroup (ofGroups info)) := by
  unfold finalizeConnection
  split
  · rename_i htype
    exact ⟨m, .nothing (by simp [htype]) (by simp [htype]), .refl m⟩
  · rename_i htype
    exact ⟨m, .nothing (by simp [htype]) (by simp [htype]), .refl m⟩
  · rename_i htype
    have ho : ofGroups info = split info.tag nul 0 := by rw [ofGroups, htype]; rfl
    rw [ho]
    refine .bind (finalizeParentTags_still e.id info.tag m) fun m' h => ?_
    obtain ⟨-, fin, hfin, hs⟩ := h
    exact ⟨_, .joins htype hfin, hs⟩
  · rename_i htype
    have hb : boundBy info = split info.tag nul 0 := by rw [boundBy, htype]
    exact ⟨_, .binds, hb ▸ finalizeSubscription_still env info.tag e.ptr m⟩
  · rename_i htype
    split
    · rename_i ip tags hsplit
      have hb : boundBy info = split tags nul 0 := by rw [boundBy, htype]; simp only [hsplit]
      refine Except.Ends.pure ?_
      by_cases hip : e.address env .expectedIp ≠ ip
      · rw [if_pos hip]
        exact ⟨m, .nothing (by simp [htype]) (by simp [htype]), rfl⟩
      · rw [if_neg hip]
        exact ⟨_, .binds, hb ▸ finalizeSubscription_still env tags e.ptr m⟩
    · exact fun _ => nofun

/-- A greeting makes a record or finds one, and completes the connection. -/
theorem handleGreeting_cases (key : AddrPort) (info : PendingInfo) (sender : MachineID)
    (neighbors : List MachineID) (port : UInt16) (ip : Str) (m : Manager V) :
    (m.handleGreeting env key info sender neighbors port ip).Ends (fun m' => ∃ m₁,
      Completes info (m.greet env sender neighbors port ip).1.ptr (m.greet env sender neighbors port ip).2 m₁ ∧
      Still { m₁ with pendingConns := m₁.pendingConns.erase key } m')
      ((m.greet env sender neighbors port ip).2.NoGroup (ofGroups info)) := by
  unfold handleGreeting
  generalize m.greet env sender neighbors port ip = g
  obtain ⟨e, m₀⟩ := g
  dsimp only
  have herase {m₁ m₂ : Manager V} (h : Still m₁ m₂) :
      Still { m₁ with pendingConns := m₁.pendingConns.erase key } (m₂.erasePending key) :=
    ⟨h.pendingTags, congrArg (AList.erase key) h.pendingConns, h.tagToMachine, h.nextPtr, h.subscribed, h.finalized,
      h.selfSubCount, h.groupTags, h.neighbors⟩
  refine .bind (finalizeConnection_cases info e m₀) fun r hr => ?_
  obtain ⟨m₁, hc, h⟩ := hr
  cases r with
  | none =>
    subst h
    exact ⟨m₁, hc, herase (.atPtr (f := markAsDead) (fun _ => ⟨rfl, rfl⟩) e.ptr)⟩
  | some m₂ =>
    have hn : Still m₂ (m₂.notifyOfNewNeighbor env sender) := .of_plain (sendToNeighborsIf_plain rfl _)
    exact ⟨m₁, hc, herase ((h.trans hn).trans (.of_searches (findPublishers_searches false)))⟩

/-! ## Neighbours that leave -/

theorem removeNeighbor_still (id : MachineID) (m : Manager V) :
    (m.removeNeighbor env id).Ends (fun r => r.1 = m ∨ ∃ e m₁, m.neighbors.lookup id = some e ∧ Still m m₁ ∧
      r.1 = { m₁ with
        addrToMachine := m₁.addrToMachine.eraseVal (· = e.ptr)
        tagToMachine := m₁.tagToMachine.eraseVal (· = e.ptr)
        jobs := m₁.jobs.mapVal fun _ job => (m₁.tagsOf env e.ptr).foldl Job.markTagAsDead job
        pendingTags := m₁.pendingTags ++ m₁.tagsOf env e.ptr
        neighbors := m₁.neighbors.erase id
        removed := m₁.removed ++ [e] }) Abort.Other := by
  unfold removeNeighbor
  split
  · exact .inl rfl
  · rename_i e he
    split
    · exact .inl rfl
    · have hs : Still m (m.sendToNeighbors env (.removeNeighbor id)) := .of_plain (sendToNeighborsIf_plain rfl _)
      exact .bind ((leaveGroups_plain env id _).mono (fun _ h => hs.trans (.of_plain h)) fun _ h => h)
        fun m₁ h₁ => .inr ⟨e, m₁, he, h₁, rfl⟩

end Manager

end Skywing.L3
