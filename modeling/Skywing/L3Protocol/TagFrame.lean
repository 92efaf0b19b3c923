import Skywing.L3Protocol.PlainFrame

/-!
# What leaves the tags alone

Most of what a manager does only sends messages, updates what it knows of its
neighbours, or moves values along. `SameTags` says that the tags are where
they were: pending, travelling in a pending connection, or bound; that the
records are the same up to `Quiet` updates; and that the groups are the same
groups. Each operation that does not touch the tags is shown to be such; the
operations that do are taken apart in the modules that follow.

`route_congr`: what is to be done with a pending tag depends on what is known
of publishers and on whom an address belongs to, and on nothing else.
-/
namespace Skywing.L3

open L1.Text ExternalManager

namespace Manager

variable {V : Type} {m m₁ m₂ : Manager V} {env : Env}

/-- Only what is known of publishers, who waits for it, and `Quiet` changes
of the neighbours. -/
structure Searches (m m' : Manager V) : Prop where
  id : m'.id = m.id
  pendingTags : m'.pendingTags = m.pendingTags
  reduceTagData : m'.reduceTagData = m.reduceTagData
  selfSubCount : m'.selfSubCount = m.selfSubCount
  pendingConns : m'.pendingConns = m.pendingConns
  tagToMachine : m'.tagToMachine = m.tagToMachine
  addrToMachine : m'.addrToMachine = m.addrToMachine
  nextPtr : m'.nextPtr = m.nextPtr
  subscribed : m'.subscribed = m.subscribed
  finalized : m'.finalized = m.finalized
  removed : m'.removed = m.removed
  neighbors : Via Quiet m m'

namespace Searches

theorem of_neighbors {f : MachineID → ExternalManager V → ExternalManager V} (hf : ∀ id e, Quiet e (f id e)) :
    Searches m { m with neighbors := m.neighbors.mapVal f } :=
  ⟨rfl, rfl, rfl, rfl, rfl, rfl, rfl, rfl, rfl, rfl, rfl, f, hf, rfl⟩

theorem of_search (m : Manager V) (known : AList fun _ : TagID => List PublisherInfo)
    (waiting : AList fun _ : TagID => List MachineID) :
    Searches m { m with publishersForTag := known, sendPublisherInformationTo := waiting } :=
  ⟨rfl, rfl, rfl, rfl, rfl, rfl, rfl, rfl, rfl, rfl, rfl, .of_eq .refl rfl⟩

theorem refl (m : Manager V) : Searches m m := of_search m m.publishersForTag m.sendPublisherInformationTo

theorem trans (h : Searches m m₁) (h' : Searches m₁ m₂) : Searches m m₂ where
  id := h'.id.trans h.id
  pendingTags := h'.pendingTags.trans h.pendingTags
  reduceTagData := h'.reduceTagData.trans h.reduceTagData
  selfSubCount := h'.selfSubCount.trans h.selfSubCount
  pendingConns := h'.pendingConns.trans h.pendingConns
  tagToMachine := h'.tagToMachine.trans h.tagToMachine
  addrToMachine := h'.addrToMachine.trans h.addrToMachine
  nextPtr := h'.nextPtr.trans h.nextPtr
  subscribed := h'.subscribed.trans h.subscribed
  finalized := h'.finalized.trans h.finalized
  removed := h'.removed.trans h.removed
  neighbors := h.neighbors.trans (fun _ _ _ => Quiet.trans) h'.neighbors

/-- A loop whose steps only search does. -/
theorem foldl {α : Type} {f : Manager V → α → Manager V} (hf : ∀ m a, Searches m (f m a)) (l : List α)
    (m : Manager V) : Searches m (l.foldl f m) := by
  induction l generalizing m with
  | nil => exact refl m
  | cons a l ih => exact (hf m a).trans (ih _)

theorem foldlM {α : Type} {f : Manager V → α → Except Abort (Manager V)}
    (hf : ∀ m a, (f m a).Ends (Searches m) Abort.Other) (l : List α) (m : Manager V) :
    (l.foldlM f m).Ends (Searches m) Abort.Other :=
  .foldlM (I := fun _ => Searches m) (refl m) fun a _ m₁ _ h =>
    (hf m₁ a).mono (fun _ h' => h.trans h') fun _ he => he

end Searches

structure SameTags (m m' : Manager V) : Prop where
  pendingTags : m'.pendingTags = m.pendingTags
  pendingConns : m'.pendingConns = m.pendingConns
  tagToMachine : m'.tagToMachine = m.tagToMachine
  addrToMachine : m'.addrToMachine = m.addrToMachine
  nextPtr : m'.nextPtr = m.nextPtr
  subscribed : m'.subscribed = m.subscribed
  finalized : m'.finalized = m.finalized
  removed : m'.removed = m.removed
  selfSubCount : ∀ tag, tag ∈ m'.selfSubCount ↔ tag ∈ m.selfSubCount
  groupTags : ∀ groupId, m'.groupTags groupId = m.groupTags groupId
  neighbors : Via Quiet m m'

namespace SameTags

theorem refl (m : Manager V) : SameTags m m :=
  ⟨rfl, rfl, rfl, rfl, rfl, rfl, rfl, rfl, fun _ => .rfl, fun _ => rfl, .of_eq .refl rfl⟩

theorem trans (h : SameTags m m₁) (h' : SameTags m₁ m₂) : SameTags m m₂ where
  pendingTags := h'.pendingTags.trans h.pendingTags
  pendingConns := h'.pendingConns.trans h.pendingConns
  tagToMachine := h'.tagToMachine.trans h.tagToMachine
  addrToMachine := h'.addrToMachine.trans h.addrToMachine
  nextPtr := h'.nextPtr.trans h.nextPtr
  subscribed := h'.subscribed.trans h.subscribed
  finalized := h'.finalized.trans h.finalized
  removed := h'.removed.trans h.removed
  selfSubCount t := (h'.selfSubCount t).trans (h.selfSubCount t)
  groupTags g := (h'.groupTags g).trans (h.groupTags g)
  neighbors := h.neighbors.trans (fun _ _ _ => Quiet.trans) h'.neighbors

theorem of_plain (h : Plain m m₁) : SameTags m m₁ where
  pendingTags := h.pendingTags
  pendingConns := h.pendingConns
  tagToMachine := h.tagToMachine
  addrToMachine := h.addrToMachine
  nextPtr := h.nextPtr
  subscribed := h.subscribed
  finalized := h.finalized
  removed := h.removed
  selfSubCount t := by rw [h.selfSubCount]
  groupTags := h.groupTags
  neighbors := h.neighbors.mono fun _ _ => PlainSends.quiet

theorem of_searches (h : Searches m m₁) : SameTags m m₁ where
  pendingTags := h.pendingTags
  pendingConns := h.pendingConns
  tagToMachine := h.tagToMachine
  addrToMachine := h.addrToMachine
  nextPtr := h.nextPtr
  subscribed := h.subscribed
  finalized := h.finalized
  removed := h.removed
  selfSubCount t := by rw [h.selfSubCount]
  groupTags g := by rw [Manager.groupTags, Manager.groupTags, h.reduceTagData]
  neighbors := h.neighbors

end SameTags

/-! ## Sending -/

theorem mapNeighbors_searches {f : ExternalManager V → ExternalManager V} (hf : ∀ e, Quiet e (f e)) :
    Searches m (m.mapNeighbors f) := .of_neighbors fun _ => hf

theorem atNeighbor_searches {f : ExternalManager V → ExternalManager V} (hf : ∀ e, Quiet e (f e))
    (id : MachineID) : Searches m (m.atNeighbor id f) := by
  apply Searches.of_neighbors
  intro key e
  split
  · exact hf e
  · exact .refl e

theorem askNeighbors_searches (tags : List TagID) : Searches m (m.askNeighbors env tags) :=
  mapNeighbors_searches fun e => (resetBackoffCounter_quiet env e).trans (findPublishersForTags_quiet env _ _ _)

theorem findPublishers_searches (force : Bool) : Searches m (m.findPublishersForPendingTags env force) := by
  unfold findPublishersForPendingTags
  split
  · exact askNeighbors_searches _
  · dsimp only
    split
    · exact .refl m
    · apply mapNeighbors_searches
      intro e
      split
      · exact (increaseBackoffCounter_quiet env e).trans (findPublishersForTags_quiet env _ _ _)
      · exact .refl e

theorem sendKnownPublishers_searches (env : Env) (m : Manager V) (id : MachineID) :
    Searches m (m.sendKnownPublishers env id) :=
  atNeighbor_searches (fun e => sendMessage_quiet env e _ rfl) id

/-! ## Routes -/

/-- The same record, as far as routes go. -/
def SameId (e e' : ExternalManager V) : Prop := e'.ptr = e.ptr ∧ e'.id = e.id

theorem SameId.refl (e : ExternalManager V) : SameId e e := ⟨rfl, rfl⟩

theorem SameId.trans (e e' e'' : ExternalManager V) (h : SameId e e') (h' : SameId e' e'') : SameId e e'' :=
  ⟨h'.1.trans h.1, h'.2.trans h.2⟩

theorem sendMessage_sameId (env : Env) (msg : Message V) (e : ExternalManager V) :
    SameId e (e.sendMessage env msg) := by
  rcases sendMessage_cases env e msg with ⟨d, hd⟩ | hs
  · rw [hd]; exact ⟨rfl, rfl⟩
  · rw [hs]; exact ⟨rfl, rfl⟩

/-- A neighbour is found under its id. -/
def Keyed (m : Manager V) : Prop := ∀ id e, m.neighbors.lookup id = some e → e.id = id

namespace Keyed

theorem of_via {R : ExternalManager V → ExternalManager V → Prop} (hm : m.Keyed) (h : Via R m m₁)
    (hR : ∀ e e', R e e' → e'.id = e.id) : m₁.Keyed := by
  intro id e' he'
  obtain ⟨e, he, hq⟩ := h.of_lookup he'
  exact (hR e e' hq).trans (hm id e he)

theorem insert (hm : m.Keyed) {id key : MachineID} {e e' : ExternalManager V} (he : e.id = id)
    (h : (m.neighbors.insert id e).lookup key = some e') : e'.id = key := by
  by_cases hid : key = id
  · subst hid
    rw [AList.lookup_insert] at h
    exact Option.some.inj h ▸ he
  · rw [AList.lookup_insert_ne hid] at h
    exact hm key e' h

theorem erase (hm : m.Keyed) (id : MachineID) {key : MachineID} {e : ExternalManager V}
    (h : (m.neighbors.erase id).lookup key = some e) : e.id = key := by
  by_cases hk : key = id
  · subst hk
    rw [AList.lookup_erase] at h
    cases h
  · rw [AList.lookup_erase_ne hk] at h
    exact hm key e h

end Keyed

theorem deref_via (h : Via SameId m m₁) (ptr : Nat) :
    (∃ e e', m.deref ptr = .ok e ∧ m₁.deref ptr = .ok e' ∧ SameId e e') ∨
      m.deref ptr = .error (.dangling ptr) ∧ m₁.deref ptr = .error (.dangling ptr) := by
  obtain ⟨f, hf, hn⟩ := h
  have h := AList.find?_mapVal (p := fun e : ExternalManager V => decide (e.ptr = ptr))
    (q := fun e : ExternalManager V => decide (e.ptr = ptr)) (f := f)
    (fun k e => by rw [(hf k e).1]) m.neighbors
  unfold deref
  rw [hn, h]
  cases m.neighbors.entries.find? fun e => decide (e.2.ptr = ptr) with
  | none => exact .inr ⟨rfl, rfl⟩
  | some e => exact .inl ⟨e.2, f e.1 e.2, rfl, rfl, hf e.1 e.2⟩

theorem deref_eq {ptr : Nat} {e : ExternalManager V} (h : m.deref ptr = .ok e) :
    e.ptr = ptr ∧ ∃ id, m.neighbors.lookup id = some e := by
  unfold deref at h
  split at h
  · rename_i s hs
    cases h
    have hp : s.2.ptr = ptr := by simpa using List.find?_some hs
    exact ⟨hp, s.1, AList.mem_entries_iff.mp (List.mem_of_find?_eq_some hs)⟩
  · cases h

/-- What decides the routes. -/
structure SameRoutes (m m' : Manager V) : Prop where
  selfSubCount : ∀ tag, tag ∈ m'.selfSubCount ↔ tag ∈ m.selfSubCount
  publishersForTag : m'.publishersForTag = m.publishersForTag
  addrToMachine : m'.addrToMachine = m.addrToMachine
  neighbors : Via SameId m m'

theorem SameRoutes.refl (m : Manager V) : SameRoutes m m :=
  ⟨fun _ => .rfl, rfl, rfl, .of_eq SameId.refl rfl⟩

theorem SameRoutes.trans (h : SameRoutes m m₁) (h' : SameRoutes m₁ m₂) : SameRoutes m m₂ where
  selfSubCount t := (h'.selfSubCount t).trans (h.selfSubCount t)
  publishersForTag := h'.publishersForTag.trans h.publishersForTag
  addrToMachine := h'.addrToMachine.trans h.addrToMachine
  neighbors := h.neighbors.trans SameId.trans h'.neighbors

theorem route_congr (h : SameRoutes m m₁) (tag : TagID) : m₁.route env tag = m.route env tag := by
  unfold route
  simp only [h.selfSubCount, h.publishersForTag, h.addrToMachine]
  split
  · rfl
  split
  · rfl
  split
  · rfl
  rename_i ptr _
  rcases deref_via h.neighbors ptr with ⟨e, e', h₁, h₂, hq⟩ | ⟨h₁, h₂⟩
  · simp [h₁, h₂, hq.1, hq.2]
  · simp [h₁, h₂]

theorem route_other (tag : TagID) : (m.route env tag).Ends (fun _ => True) Abort.Other := by
  unfold route
  split
  · trivial
  split
  · trivial
  split
  · trivial
  refine .bind (P := fun _ => True) ?_ fun e _ => trivial
  unfold deref
  split
  · trivial
  · exact fun _ => nofun

/-- A tag is finalised for a record there is. -/
theorem route_finalize {tag : TagID} {ptr : Nat} {id : MachineID}
    (h : m.route env tag = .ok (.finalize ptr id)) :
    ∃ key e, m.neighbors.lookup key = some e ∧ e.ptr = ptr ∧ e.id = id := by
  unfold route at h
  split at h
  · cases h
  split at h
  · cases h
  split at h
  · cases h
  rename_i p _
  cases hd : m.deref p with
  | error a => rw [hd] at h; cases h
  | ok e =>
    obtain ⟨-, key, hk⟩ := deref_eq hd
    rw [hd, Except.ok_bind] at h
    split at h
    · cases h
    · cases h
      exact ⟨key, e, hk, rfl, rfl⟩

theorem route_selfProduced {tag : TagID} (h : m.route env tag = .ok .selfProduced) : tag ∈ m.selfSubCount := by
  by_contra hno
  rw [route, if_neg hno] at h
  split at h
  · cases h
  split at h
  · cases h
  rename_i p _
  cases hd : m.deref p with
  | error a => rw [hd] at h; cases h
  | ok e =>
    rw [hd, Except.ok_bind] at h
    split at h <;> cases h

/-! ## Messages -/

theorem addPublishers_searches (infos : List PublisherInfo) (tag : TagID) (m : Manager V) :
    Searches m (m.addPublishers infos tag) := .of_search m _ _

theorem propagate_searches (env : Env) (m : Manager V) : Searches m (m.propagate env) :=
  (Searches.of_search m _ _).trans (.foldl (fun m id => sendKnownPublishers_searches env m id) _ _)

theorem addPublishersAndPropagate_searches (env : Env) (sender : ExternalManager V) (tags : List TagID)
    (addresses : List (List Str)) (machines : List (List MachineID)) (locallyProducedTags : List TagID) :
    (m.addPublishersAndPropagate env sender tags addresses machines locallyProducedTags).Ends
      (fun r => Searches m r.1) Abort.Other := by
  unfold addPublishersAndPropagate
  split
  · exact Searches.refl m
  · refine .bind (Searches.foldlM (fun m entry => ?_) _ m) fun m₁ h₁ => ?_
    · unfold addReported
      split
      · exact fun _ => nofun
      · exact addPublishers_searches _ _ m
    · exact (h₁.trans (.foldl (fun m tag => addPublishers_searches _ tag m) _ m₁)).trans (propagate_searches env _)

theorem handleGetPublishers_searches (env : Env) (sender : ExternalManager V) (tags : List TagID)
    (publishersNeeded : List UInt8) (ignoreCache : Bool) :
    (m.handleGetPublishers env sender tags publishersNeeded ignoreCache).Ends (Searches m) Abort.Other := by
  unfold handleGetPublishers
  refine .bind (P := fun _ => True) ?_ fun remaining _ => ?_
  · unfold removeTagsWithEnoughPublishers
    split
    · exact fun _ => nofun
    · trivial
  have hc : Searches m (m.markInCache ignoreCache (remaining.map (·.1))) := .of_search m _ _
  have hp : Searches m ((m.markInCache ignoreCache (remaining.map (·.1))).markPropagation sender.id
      (remaining.map (·.1))) := .of_search m _ _
  dsimp only
  split
  · exact sendKnownPublishers_searches env m _
  split
  · exact hc.trans (sendKnownPublishers_searches env _ _)
  split
  · exact (hp.trans (sendKnownPublishers_searches env _ sender.id)).trans (.of_search _ _ _)
  · refine hp.trans (mapNeighbors_searches fun e => ?_)
    split
    · exact (resetBackoffCounter_quiet env e).trans (findPublishersForTags_quiet env _ _ _)
    · exact .refl e

theorem setGroupData_sameTags {groupId : TagID} {data data' : ReduceGroupData V}
    (h : m.reduceTagData.lookup groupId = some data) (hg : data'.group.tagNeighbors = data.group.tagNeighbors) :
    SameTags m (m.setGroupData groupId data') := by
  refine ⟨rfl, rfl, rfl, rfl, rfl, rfl, rfl, rfl, fun _ => .rfl, fun g => ?_, .of_eq .refl rfl⟩
  unfold Manager.groupTags setGroupData
  by_cases he : g = groupId
  · subst he
    simp [h, hg]
  · simp [AList.lookup_insert_ne he]

theorem handleJoinReduceGroup_sameTags (sender : ExternalManager V) (reduceTag tagProduced : TagID) :
    SameTags m (m.handleJoinReduceGroup sender reduceTag tagProduced).2 := by
  unfold handleJoinReduceGroup
  split
  · exact .refl m
  · rename_i data h
    dsimp only
    split
    · split <;> exact setGroupData_sameTags h rfl
    · split
      · split <;> exact setGroupData_sameTags h rfl
      · exact .refl m

variable [Typed V]

/-- No message moves a tag. -/
theorem handleMessage_sameTags (env : Env) (sender : ExternalManager V) (msg : Message V) :
    (m.handleMessage env sender msg).Ends (fun r => SameTags m r.2) Abort.Other := by
  by_cases hp : msg.handledPlain = true
  · exact (handleMessage_plain env sender hp).mono (fun _ => .of_plain) fun _ he => he
  unfold handleMessage
  cases msg with
  | reportPublishers tags addresses machines locallyProducedTags =>
    dsimp only
    split
    · exact SameTags.refl m
    · refine .bind (addPublishersAndPropagate_searches env sender tags addresses machines _) fun r h => ?_
      split
      · exact .of_searches h
      · exact .of_searches
          (h.trans (atNeighbor_searches (f := requestAnswered env) (fun e => ⟨rfl, rfl, rfl, rfl⟩) sender.id))
  | getPublishers tags publishersNeeded ignoreCache =>
    dsimp only
    split
    · exact SameTags.refl m
    · exact .bind (handleGetPublishers_searches env sender tags publishersNeeded ignoreCache)
        fun _ h => SameTags.of_searches h
  | joinReduceGroup reduceTag tagProduced =>
    dsimp only
    split
    · exact SameTags.refl m
    · exact handleJoinReduceGroup_sameTags sender reduceTag tagProduced
  | _ => exact absurd rfl hp

end Manager

end Skywing.L3
