import Skywing.L3Protocol.TagFrame

/-!
# What leaves the search for publishers alone

Three things move the search for publishers on: a request that is handled, a
report that is handled, and a neighbour that comes or goes. `Calm m m'` says
that none of them happened on the way from `m` to `m'`: what is known of
publishers and who waits for it are the same, tags became locally produced at
most, and every record is the record it was after sends that are no reports
(`Unreported`); a request may have become pending, none was answered.

Results:
* `Calm.of_plain`, `findPublishers_calm`, `subscribe_calm`, … : the
  operations of a manager that are calm.
* `handleGreeting_calm`, `removeNeighbor_cases`: a greeting and a removal are
  calm but for the record that comes or goes.
-/
namespace Skywing.L3

open L1.Text

def Message.isReport {V : Type} : Message V → Bool
  | .reportPublishers _ _ _ _ => true
  | _ => false

def Message.isGetPublishers {V : Type} : Message V → Bool
  | .getPublishers _ _ _ => true
  | _ => false

theorem Message.isReport_of_plain {V : Type} {msg : Message V} (h : msg.plain = true) : msg.isReport = false := by
  cases msg <;> first | rfl | cases h

namespace ExternalManager

variable {V : Type} {e e' e'' : ExternalManager V}

/-- No report was sent, no message handled, no request answered. -/
structure Unreported (e e' : ExternalManager V) : Prop where
  ptr : e'.ptr = e.ptr
  id : e'.id = e.id
  conns : e'.conns = e.conns
  port : e'.port = e.port
  handled : e'.handled = e.handled
  pendingTagRequest : e.pendingTagRequest = true → e'.pendingTagRequest = true
  dead : e.dead = true → e'.dead = true
  sent : ∃ msgs : List (Message V), (∀ msg ∈ msgs, msg.isReport = false) ∧ e'.sent = e.sent ++ msgs ∧
    (e'.pendingTagRequest = true → e.pendingTagRequest = true ∨ e'.dead = true ∨
      msgs.any Message.isGetPublishers = true)

namespace Unreported

theorem peer (h : Unreported e e') : e'.peer = e.peer := by
  rw [ExternalManager.peer, ExternalManager.peer, h.conns, h.port]

/-- Nothing was sent. -/
theorem of_eq (ptr : e'.ptr = e.ptr) (id : e'.id = e.id) (conns : e'.conns = e.conns) (port : e'.port = e.port)
    (handled : e'.handled = e.handled) (pending : e'.pendingTagRequest = e.pendingTagRequest)
    (dead : e.dead = true → e'.dead = true) (sent : e'.sent = e.sent) : Unreported e e' :=
  ⟨ptr, id, conns, port, handled, fun h => pending ▸ h, dead, [], nofun, by rw [sent, List.append_nil],
    fun h => .inl (pending ▸ h)⟩

theorem refl (e : ExternalManager V) : Unreported e e := of_eq rfl rfl rfl rfl rfl rfl (fun h => h) rfl

theorem trans (h : Unreported e e') (h' : Unreported e' e'') : Unreported e e'' where
  ptr := h'.ptr.trans h.ptr
  id := h'.id.trans h.id
  conns := h'.conns.trans h.conns
  port := h'.port.trans h.port
  handled := h'.handled.trans h.handled
  pendingTagRequest hp := h'.pendingTagRequest (h.pendingTagRequest hp)
  dead hd := h'.dead (h.dead hd)
  sent := by
    obtain ⟨msgs, hp, hs, ha⟩ := h.sent
    obtain ⟨msgs', hp', hs', ha'⟩ := h'.sent
    refine ⟨msgs ++ msgs', ?_, by rw [hs', hs, List.append_assoc], fun hpend => ?_⟩
    · intro msg hm
      rcases List.mem_append.mp hm with hm | hm
      · exact hp msg hm
      · exact hp' msg hm
    · rw [List.any_append, Bool.or_eq_true]
      rcases ha' hpend with h₁ | h₁ | h₁
      · rcases ha h₁ with h₂ | h₂ | h₂
        · exact .inl h₂
        · exact .inr (.inl (h'.dead h₂))
        · exact .inr (.inr (.inl h₂))
      · exact .inr (.inl h₁)
      · exact .inr (.inr (.inr h₁))

theorem of_plain (h : PlainSends e e') : Unreported e e' where
  ptr := h.ptr
  id := h.id
  conns := h.conns
  port := h.port
  handled := h.handled
  pendingTagRequest hp := h.pendingTagRequest.trans hp
  dead := h.dead
  sent := by
    obtain ⟨msgs, hp, hs⟩ := h.sent
    exact ⟨msgs, fun msg hm => Message.isReport_of_plain (hp msg hm), hs,
      fun hpend => .inl (h.pendingTagRequest ▸ hpend)⟩

end Unreported

theorem sendMessage_unreported (env : Env) (e : ExternalManager V) {msg : Message V} (h : msg.isReport = false) :
    Unreported e (e.sendMessage env msg) := by
  unfold sendMessage
  split
  · exact .refl e
  · split
    · exact .of_eq rfl rfl rfl rfl rfl rfl (fun _ => rfl) rfl
    · exact ⟨rfl, rfl, rfl, rfl, rfl, fun h => h, fun h => h, [msg], by simpa using h, rfl, .inl⟩

theorem findPublishersForTags_unreported (env : Env) (tags : List TagID) (needed : List UInt8)
    (e : ExternalManager V) : Unreported e (e.findPublishersForTags env tags needed) := by
  unfold findPublishersForTags
  split
  · exact .refl e
  · unfold sendMessage
    split
    · rename_i hd
      exact ⟨rfl, rfl, rfl, rfl, rfl, fun _ => rfl, fun h => h, [], nofun, (List.append_nil _).symm,
        fun _ => .inr (.inl hd)⟩
    · split
      · exact ⟨rfl, rfl, rfl, rfl, rfl, fun _ => rfl, fun _ => rfl, [], nofun, (List.append_nil _).symm,
          fun _ => .inr (.inl rfl)⟩
      · exact ⟨rfl, rfl, rfl, rfl, rfl, fun _ => rfl, fun h => h, [.getPublishers tags needed _],
          List.forall_mem_singleton.mpr rfl, rfl, fun _ => .inr (.inr rfl)⟩

theorem resetBackoffCounter_unreported (env : Env) (e : ExternalManager V) :
    Unreported e (e.resetBackoffCounter env) :=
  .of_eq rfl rfl rfl rfl rfl rfl (fun h => h) rfl

theorem increaseBackoffCounter_unreported (env : Env) (e : ExternalManager V) :
    Unreported e (e.increaseBackoffCounter env) :=
  .of_eq rfl rfl rfl rfl rfl rfl (fun h => h) rfl

end ExternalManager

namespace Manager

open ExternalManager

variable {V : Type} {m m₁ m₂ : Manager V} {env : Env}

structure Calm (m m' : Manager V) : Prop where
  publishersForTag : m'.publishersForTag = m.publishersForTag
  sendPublisherInformationTo : m'.sendPublisherInformationTo = m.sendPublisherInformationTo
  selfSubCount : ∀ tag, tag ∈ m.selfSubCount → tag ∈ m'.selfSubCount
  removed : m'.removed = m.removed
  nextPtr : m'.nextPtr = m.nextPtr
  neighbors : Via Unreported m m'

namespace Calm

theorem of_eq (hp : m₁.publishersForTag = m.publishersForTag)
    (hw : m₁.sendPublisherInformationTo = m.sendPublisherInformationTo) (hs : m₁.selfSubCount = m.selfSubCount)
    (hr : m₁.removed = m.removed) (hx : m₁.nextPtr = m.nextPtr) (hn : m₁.neighbors = m.neighbors) : Calm m m₁ :=
  ⟨hp, hw, fun _ h => hs ▸ h, hr, hx, .of_eq .refl hn⟩

theorem refl (m : Manager V) : Calm m m := of_eq rfl rfl rfl rfl rfl rfl

theorem trans (h : Calm m m₁) (h' : Calm m₁ m₂) : Calm m m₂ where
  publishersForTag := h'.publishersForTag.trans h.publishersForTag
  sendPublisherInformationTo := h'.sendPublisherInformationTo.trans h.sendPublisherInformationTo
  selfSubCount t ht := h'.selfSubCount t (h.selfSubCount t ht)
  removed := h'.removed.trans h.removed
  nextPtr := h'.nextPtr.trans h.nextPtr
  neighbors := h.neighbors.trans (fun _ _ _ => Unreported.trans) h'.neighbors

theorem of_neighbors {f : MachineID → ExternalManager V → ExternalManager V} (hf : ∀ id e, Unreported e (f id e)) :
    Calm m { m with neighbors := m.neighbors.mapVal f } :=
  ⟨rfl, rfl, fun _ h => h, rfl, rfl, f, hf, rfl⟩

theorem of_plain (h : Plain m m₁) : Calm m m₁ where
  publishersForTag := h.publishersForTag
  sendPublisherInformationTo := h.sendPublisherInformationTo
  selfSubCount _ ht := h.selfSubCount ▸ ht
  removed := h.removed
  nextPtr := h.nextPtr
  neighbors := h.neighbors.mono fun _ _ => .of_plain

theorem foldlM {α : Type} {f : Manager V → α → Except Abort (Manager V)} {E : Abort → Prop}
    (hf : ∀ m a, (f m a).Ends (Calm m) E) (l : List α) (m : Manager V) :
    (l.foldlM f m).Ends (Calm m) E :=
  .foldlM (I := fun _ => Calm m) (refl m) fun a _ m₁ _ h =>
    (hf m₁ a).mono (fun _ h' => h.trans h') fun _ he => he

end Calm

/-! ## Sending -/

theorem mapNeighbors_calm {f : ExternalManager V → ExternalManager V} (hf : ∀ e, Unreported e (f e)) :
    Calm m (m.mapNeighbors f) := .of_neighbors fun _ => hf

theorem atPtr_calm {f : ExternalManager V → ExternalManager V} (hf : ∀ e, Unreported e (f e)) (ptr : Nat) :
    Calm m (m.atPtr ptr f) := by
  apply mapNeighbors_calm
  intro e
  split
  · exact hf e
  · exact .refl e

theorem atNeighbor_calm {f : ExternalManager V → ExternalManager V} (hf : ∀ e, Unreported e (f e))
    (id : MachineID) : Calm m (m.atNeighbor id f) := by
  apply Calm.of_neighbors
  intro key e
  split
  · exact hf e
  · exact .refl e

theorem askNeighbors_calm (tags : List TagID) : Calm m (m.askNeighbors env tags) :=
  mapNeighbors_calm fun e =>
    (resetBackoffCounter_unreported env e).trans (findPublishersForTags_unreported env _ _ _)

theorem findPublishers_calm (force : Bool) : Calm m (m.findPublishersForPendingTags env force) := by
  unfold findPublishersForPendingTags
  split
  · exact askNeighbors_calm _
  · dsimp only
    split
    · exact .refl m
    · apply mapNeighbors_calm
      intro e
      split
      · exact (increaseBackoffCounter_unreported env e).trans (findPublishersForTags_unreported env _ _ _)
      · exact .refl e

/-! ## Calls from jobs -/

theorem queueWanted_calm (tagIds : List TagID) (m : Manager V) : Calm m (m.queueWanted tagIds) := by
  unfold queueWanted
  induction tagIds generalizing m with
  | nil => exact .refl m
  | cons tag tagIds ih =>
    rw [List.foldl_cons]
    refine Calm.trans ?_ (ih _)
    split
    · exact .of_eq rfl rfl rfl rfl rfl rfl
    · exact .refl m

theorem subscribe_calm (m : Manager V) (tagIds : List TagID) : Calm m (m.subscribe env tagIds) := by
  have hq : Calm m { m.queueWanted tagIds with subscribed := m.subscribed ++ tagIds } :=
    (queueWanted_calm tagIds m).trans (.of_eq rfl rfl rfl rfl rfl rfl)
  unfold subscribe
  dsimp only
  split
  · exact hq
  · exact hq.trans (askNeighbors_calm tagIds)

theorem countSelfSubscription_calm (tag : TagID) (m : Manager V) : Calm m (m.countSelfSubscription tag) :=
  ⟨rfl, rfl, fun _ h => (AList.mem_insert _).mpr (.inr h), rfl, rfl, .of_eq .refl rfl⟩

theorem ipSubscribe_calm (m : Manager V) (addr : AddrPort) (tagIds : List TagID) :
    (m.ipSubscribe env addr tagIds).Ends (Calm m) fun _ => True := by
  unfold ipSubscribe
  refine .bind (.any _) fun canonical _ => .bind (.any _) fun a _ => .bind (.any _) fun b _ => ?_
  split
  · refine Calm.foldlM (fun m' tag => ?_) tagIds m
    split
    · exact countSelfSubscription_calm tag m'
    · trivial
  · split
    · refine .bind (.any _) fun e _ => Except.Ends.pure (atPtr_calm (fun e' => ?_) e.ptr)
      exact sendMessage_unreported env e' rfl
    · split
      · trivial
      · exact .bind (.any _) fun _ _ => Calm.of_eq rfl rfl rfl rfl rfl rfl

theorem connectToServer_calm (m : Manager V) (addr : AddrPort) :
    (m.connectToServer env addr).Ends (Calm m) fun _ => True := by
  unfold connectToServer
  refine .bind (.any _) fun canonical _ => ?_
  split
  · exact Calm.refl m
  · exact .bind (.any _) fun _ _ => Calm.of_eq rfl rfl rfl rfl rfl rfl

theorem reportNewPublishTags_calm (m : Manager V) (tags : List TagID) :
    (m.reportNewPublishTags tags).Ends (Calm m) fun _ => True := by
  refine Calm.foldlM (fun m' tag => ?_) tags m
  split
  · trivial
  · exact ⟨rfl, rfl, fun _ h => (AList.mem_insert _).mpr (.inr h), rfl, rfl, .of_eq .refl rfl⟩

theorem queueParentTag_calm (m : Manager V) (parentTag : TagID) : Calm m (m.queueParentTag env parentTag) := by
  have h : Calm m { m with pendingTags := m.pendingTags ++ [parentTag] } := .of_eq rfl rfl rfl rfl rfl rfl
  exact h.trans (askNeighbors_calm [parentTag])

theorem createReduceGroup_calm (m : Manager V) (group : ReduceGroup V) :
    (m.createReduceGroup env group).Ends (Calm m) fun _ => True := by
  unfold createReduceGroup
  split
  · trivial
  dsimp only
  have hg : Calm m { m with
      selfSubCount := m.selfSubCount.insert group.producedTag 0
      reduceTagData := m.reduceTagData.insertNew group.groupId ⟨group, [], fun _ => []⟩ } :=
    ⟨rfl, rfl, fun _ h => (AList.mem_insert _).mpr (.inr h), rfl, rfl, .of_eq .refl rfl⟩
  split
  · trivial
  · refine Except.Ends.pure ?_
    split
    · exact hg
    · exact hg.trans (queueParentTag_calm _ _)

theorem rebuildReduceGroup_calm (m : Manager V) (groupId : TagID) :
    (m.rebuildReduceGroup env groupId).Ends (Calm m) fun _ => True := by
  unfold rebuildReduceGroup
  split
  · trivial
  · show Calm m _
    split
    · exact queueParentTag_calm m _
    · exact .refl m

/-! ## Connections -/

theorem setGroupData_calm (groupId : TagID) (data : ReduceGroupData V) (m : Manager V) :
    Calm m (m.setGroupData groupId data) := .of_eq rfl rfl rfl rfl rfl rfl

theorem finalizeSubscription_calm (tags : Str) (source : Nat) (m : Manager V) :
    Calm m (m.finalizeSubscription env tags source) := by
  refine ⟨rfl, rfl, fun _ h => h, rfl, rfl, _, fun _ e => ?_, rfl⟩
  split
  · exact sendMessage_unreported env e rfl
  · exact .refl e

theorem finalizeParentTag_calm (id : MachineID) (m : Manager V) (tag : TagID) :
    (finalizeParentTag env id m tag).Ends (Calm m) fun _ => True := by
  unfold finalizeParentTag
  refine .bind (.any _) fun e _ => .bind (P := Calm m) ?_ fun m' h' => ?_
  · unfold finalizeReduceGroup
    split
    · trivial
    · split
      · exact (setGroupData_calm _ _ m).trans (atNeighbor_calm (fun e' => sendMessage_unreported env e' rfl) id)
      · trivial
  · exact Except.Ends.pure (h'.trans (.of_eq rfl rfl rfl rfl rfl rfl))

theorem finalizeParentTags_calm (id : MachineID) (tags : Str) (m : Manager V) :
    (m.finalizeParentTags env id tags).Ends (Calm m) fun _ => True :=
  Calm.foldlM (finalizeParentTag_calm id) _ m

theorem initTag_calm (s : InitLoop V) (tag : TagID) :
    (initTag env s tag).Ends (fun s' => Calm s.m s'.m) fun _ => True := by
  unfold initTag
  refine .bind (.any _) fun r _ => ?_
  cases r with
  | selfProduced => exact countSelfSubscription_calm tag s.m
  | keep => exact Calm.refl s.m
  | finalize ptr id =>
    refine .bind (P := Calm s.m) ?_ fun m' h' => Except.Ends.pure h'
    unfold finalizePending
    split
    · exact finalizeSubscription_calm tag ptr s.m
    · exact finalizeParentTags_calm id tag s.m
  | connect address => exact Calm.refl s.m

theorem insertPending_calm : ∀ (tries : Nat) (key : AddrPort) (info : PendingInfo) (m : Manager V),
    (insertPending tries key info m).Ends (Calm m) fun _ => True
  | 0, _, _, _ => trivial
  | tries + 1, (host, port), info, m => by
    unfold insertPending
    split
    · exact insertPending_calm tries _ _ m
    · exact Calm.of_eq rfl rfl rfl rfl rfl rfl

theorem startConnection_calm (m : Manager V) (e : Σ _ : Str, Str) :
    (m.startConnection env e).Ends (Calm m) fun _ => True := by
  unfold startConnection
  refine .bind (.any _) fun err _ => ?_
  split
  · exact insertPending_calm _ _ _ m
  · exact Calm.refl m

theorem initConnections_calm (m : Manager V) : (m.initConnections env).Ends (Calm m) fun _ => True := by
  unfold initConnections
  refine .bind (P := fun s : InitLoop V => Calm m s.m) ?_ fun s hs => ?_
  · refine .foldlM (I := fun _ (s : InitLoop V) => Calm m s.m) (Calm.refl m) fun tag rest s _ h => ?_
    exact (initTag_calm s tag).mono (fun _ h' => h.trans h') fun _ he => he
  · refine .bind (P := Calm m) ?_ fun m' h' => Except.Ends.pure (h'.trans (.of_eq rfl rfl rfl rfl rfl rfl))
    exact (Calm.foldlM (f := fun m conn => m.startConnection env conn) startConnection_calm _ s.m).mono
      (fun _ h => hs.trans h) fun _ he => he

theorem acceptConnection_calm : ∀ (tries : Nat) (addr : AddrPort) (m : Manager V),
    (acceptConnection tries addr m).Ends (Calm m) fun _ => True
  | 0, _, _ => trivial
  | tries + 1, (address, port), m => by
    unfold acceptConnection
    split
    · exact acceptConnection_calm tries _ m
    · exact Calm.of_eq rfl rfl rfl rfl rfl rfl

theorem handleTag_calm (pubTag baseTag : TagID) (m : Manager V) :
    (m.handleTag pubTag baseTag).Ends (Calm m) fun _ => True := by
  unfold handleTag
  split
  · trivial
  · dsimp only
    split
    · exact ⟨rfl, rfl, fun _ h => h, rfl, rfl, fun _ e => { e with ignoreCacheOnNextRequest := true },
        fun _ _ => .of_eq rfl rfl rfl rfl rfl rfl (fun h => h) rfl, rfl⟩
    · exact Calm.of_eq rfl rfl rfl rfl rfl rfl

theorem dropConnection_calm (key : AddrPort) (info : PendingInfo) (m : Manager V) :
    (m.dropConnection env key info).Ends (fun r => Calm m r.1) fun _ => True := by
  unfold dropConnection
  refine .bind (P := fun r => Calm m r.1) ?_ fun r hr => hr.trans (.of_eq rfl rfl rfl rfl rfl rfl)
  unfold handleError
  split
  · exact Calm.refl m
  · exact Calm.refl m
  · exact Calm.refl m
  · exact .bind (Calm.foldlM (fun m' tag => handleTag_calm tag tag m') _ m) fun m' h' => h'
  · refine .bind (Calm.foldlM (fun m' tag => ?_) _ m) fun m' h' => h'
    exact .bind (.any _) fun e _ => handleTag_calm _ tag m'

/-- A greeting is calm once the record is there. -/
theorem handleGreeting_calm (key : AddrPort) (info : PendingInfo) (sender : MachineID)
    (neighbors : List MachineID) (port : UInt16) (ip : Str) (m : Manager V) :
    (m.handleGreeting env key info sender neighbors port ip).Ends
      (Calm (m.greet env sender neighbors port ip).2) fun _ => True := by
  unfold handleGreeting
  generalize m.greet env sender neighbors port ip = g
  obtain ⟨e, m₀⟩ := g
  dsimp only
  refine .bind (P := fun r => ∀ m', r = some m' → Calm m₀ m') ?_ fun r hr => ?_
  · have hsub (tags : Str) : ∀ m', some (m₀.finalizeSubscription env tags e.ptr) = some m' → Calm m₀ m' := by
      intro m' h
      cases h
      exact finalizeSubscription_calm tags e.ptr m₀
    unfold finalizeConnection
    split
    · exact fun m' h => Option.some.inj h ▸ .refl m₀
    · exact fun m' h => Option.some.inj h ▸ .refl m₀
    · refine .bind (finalizeParentTags_calm e.id info.tag m₀) fun m₁ h₁ => ?_
      exact Except.Ends.pure fun m' h => Option.some.inj h ▸ h₁
    · exact hsub info.tag
    · split
      · refine Except.Ends.pure fun m' h => ?_
        split at h
        · cases h
        · exact hsub _ m' h
      · trivial
  · cases r with
    | none =>
      exact (atPtr_calm (m := m₀) (fun e' => .of_plain (markAsDead_plainSends e')) e.ptr).trans
        (.of_eq rfl rfl rfl rfl rfl rfl)
    | some m₁ =>
      have h₁ : Calm m₁ (m₁.notifyOfNewNeighbor env sender) := .of_plain (sendToNeighborsIf_plain rfl _)
      exact ((hr m₁ rfl).trans (h₁.trans (findPublishers_calm false))).trans (.of_eq rfl rfl rfl rfl rfl rfl)

theorem processConn_calm (key : AddrPort) (info : PendingInfo) {event : ConnEvent V}
    (hne : ∀ sender neighbors port ip, event ≠ .message (.greeting sender neighbors port) ip) (m : Manager V) :
    (m.processConn env key info event).Ends (fun r => Calm m r.1) fun _ => True := by
  unfold processConn
  split
  · exact Calm.refl m
  · split
    · exact Calm.of_eq rfl rfl rfl rfl rfl rfl
    · exact Calm.of_eq rfl rfl rfl rfl rfl rfl
  · exact dropConnection_calm key info m
  · exact dropConnection_calm key info m
  · exact dropConnection_calm key info m
  · exact absurd rfl (hne _ _ _ _)
  · exact dropConnection_calm key info m

/-! ## Neighbours that leave -/

/-- A removal is calm but for the record that leaves. -/
theorem removeNeighbor_cases (id : MachineID) (m : Manager V) :
    (m.removeNeighbor env id).Ends (fun r => Calm m r.1 ∨
      ∃ e m₁, m.neighbors.lookup id = some e ∧ e.dead = true ∧ Calm m m₁ ∧
        Calm { m₁ with neighbors := m₁.neighbors.erase id, removed := m₁.removed ++ [e] } r.1) fun _ => True := by
  unfold removeNeighbor
  split
  · exact .inl (.refl m)
  · rename_i e he
    split
    · exact .inl (.refl m)
    · rename_i hd
      have hs : Calm m (m.sendToNeighbors env (.removeNeighbor id)) := .of_plain (sendToNeighborsIf_plain rfl _)
      refine .bind ((leaveGroups_plain env id _).mono (fun _ h => hs.trans (.of_plain h)) fun _ _ => trivial)
        fun m₁ h₁ => Except.Ends.pure (.inr ⟨e, m₁, he, by simpa using hd, h₁, ?_⟩)
      exact .of_eq rfl rfl rfl rfl rfl rfl

/-! ## Messages -/

theorem handleJoinReduceGroup_calm (sender : ExternalManager V) (reduceTag tagProduced : TagID) (m : Manager V) :
    Calm m (m.handleJoinReduceGroup sender reduceTag tagProduced).2 := by
  unfold handleJoinReduceGroup
  split
  · exact .refl m
  · dsimp only
    split
    · split <;> exact setGroupData_calm _ _ m
    · split
      · split <;> exact setGroupData_calm _ _ m
      · exact .refl m

/-- Every message but the two of the search. -/
theorem handleMessage_calm [Typed V] (env : Env) (sender : ExternalManager V) {msg : Message V}
    (hr : msg.isReport = false) (hg : ∀ tags needed ignore, msg ≠ .getPublishers tags needed ignore)
    (m : Manager V) : (m.handleMessage env sender msg).Ends (fun r => Calm m r.2) fun _ => True := by
  by_cases hp : msg.handledPlain = true
  · exact (handleMessage_plain env sender hp).mono (fun _ => .of_plain) fun _ _ => trivial
  unfold handleMessage
  cases msg with
  | reportPublishers tags addresses machines locallyProducedTags => cases hr
  | getPublishers tags publishersNeeded ignoreCache => exact absurd rfl (hg _ _ _)
  | joinReduceGroup reduceTag tagProduced =>
    dsimp only
    split
    · exact Calm.refl m
    · exact handleJoinReduceGroup_calm sender reduceTag tagProduced m
  | _ => exact absurd rfl hp

end Manager

end Skywing.L3
