import Skywing.L3Protocol.ManagerMessages

/-!
# Traffic that belongs to no search

Values of reduce groups, notices of disconnections and of neighbours,
published values, heartbeats: most messages are *plain*, part neither of the
search for publishers nor of a subscription. `Plain m m'` says that `m'` is
`m` after plain messages were sent and groups worked on them: the containers
of the manager are as they were, every record is the same record after plain
sends (`PlainSends`), the groups are the same groups and their lists of
machines have lost members at most.

Results:
* `performSend_plain`, `updateGroup_plain`, `leaveGroups_plain`: what a
  reduce group asks of its manager is plain.
* `handleMessage_plain`: so is the handling of every message but a request
  for publishers, a report of them and a join.
-/
namespace Skywing.L3

open L1.Text

/-- Neither part of the search for publishers nor a subscription notice. -/
def Message.plain {V : Type} : Message V → Bool
  | .reportPublishers _ _ _ _ | .getPublishers _ _ _ | .subscriptionNotice _ _ => false
  | _ => true

/-- Handled without a search or a join. -/
def Message.handledPlain {V : Type} : Message V → Bool
  | .reportPublishers _ _ _ _ | .getPublishers _ _ _ | .joinReduceGroup _ _ => false
  | _ => true

/-- Any reason to stop but a parent tag without a group. -/
def Abort.Other (a : Abort) : Prop := ∀ tag, a ≠ .groupFromParentTag tag

theorem Message.noticeTags_of_plain {V : Type} {msg : Message V} (h : msg.plain = true) : msg.noticeTags = [] := by
  cases msg <;> first | rfl | cases h

namespace ExternalManager

variable {V : Type} {e e' e'' : ExternalManager V}

/-- Plain messages were sent at most. -/
structure PlainSends (e e' : ExternalManager V) : Prop where
  ptr : e'.ptr = e.ptr
  id : e'.id = e.id
  conns : e'.conns = e.conns
  port : e'.port = e.port
  pendingTagRequest : e'.pendingTagRequest = e.pendingTagRequest
  handled : e'.handled = e.handled
  dead : e.dead = true → e'.dead = true
  sent : ∃ msgs : List (Message V), (∀ msg ∈ msgs, msg.plain = true) ∧ e'.sent = e.sent ++ msgs

namespace PlainSends

/-- Nothing was sent. -/
theorem of_eq (ptr : e'.ptr = e.ptr) (id : e'.id = e.id) (conns : e'.conns = e.conns) (port : e'.port = e.port)
    (pending : e'.pendingTagRequest = e.pendingTagRequest) (handled : e'.handled = e.handled)
    (dead : e.dead = true → e'.dead = true) (sent : e'.sent = e.sent) : PlainSends e e' :=
  ⟨ptr, id, conns, port, pending, handled, dead, [], nofun, by rw [sent, List.append_nil]⟩

theorem refl (e : ExternalManager V) : PlainSends e e := of_eq rfl rfl rfl rfl rfl rfl (fun h => h) rfl

theorem trans (h : PlainSends e e') (h' : PlainSends e' e'') : PlainSends e e'' where
  ptr := h'.ptr.trans h.ptr
  id := h'.id.trans h.id
  conns := h'.conns.trans h.conns
  port := h'.port.trans h.port
  pendingTagRequest := h'.pendingTagRequest.trans h.pendingTagRequest
  handled := h'.handled.trans h.handled
  dead hd := h'.dead (h.dead hd)
  sent := by
    obtain ⟨msgs, hp, hs⟩ := h.sent
    obtain ⟨msgs', hp', hs'⟩ := h'.sent
    refine ⟨msgs ++ msgs', ?_, by rw [hs', hs, List.append_assoc]⟩
    intro msg hm
    rcases List.mem_append.mp hm with hm | hm
    · exact hp msg hm
    · exact hp' msg hm

/-- Plain sends are quiet. -/
theorem quiet (h : PlainSends e e') : Quiet e e' where
  ptr := h.ptr
  id := h.id
  peer := by simp only [peer, h.conns, h.port]
  noticeTags := by
    obtain ⟨msgs, hp, hs⟩ := h.sent
    have hn : msgs.flatMap Message.noticeTags = [] := by
      rw [List.flatMap_eq_nil_iff]
      exact fun msg hm => Message.noticeTags_of_plain (hp msg hm)
    unfold noticeTags
    rw [hs, List.flatMap_append, hn, List.append_nil]

end PlainSends

theorem sendMessage_plainSends (env : Env) (e : ExternalManager V) {msg : Message V} (h : msg.plain = true) :
    PlainSends e (e.sendMessage env msg) := by
  unfold sendMessage
  split
  · exact .refl e
  · split
    · exact .of_eq rfl rfl rfl rfl rfl rfl (fun _ => rfl) rfl
    · exact ⟨rfl, rfl, rfl, rfl, rfl, rfl, fun h => h, [msg], by simpa using h, rfl⟩

theorem sendHeartbeat_plainSends (env : Env) (interval : Nat) (e : ExternalManager V) :
    PlainSends e (e.sendHeartbeatIfPastInterval env interval) := by
  unfold sendHeartbeatIfPastInterval
  split
  · have h : PlainSends e (e.sendMessage env .heartbeat) := sendMessage_plainSends env e rfl
    obtain ⟨h₁, h₂, h₃, h₄, h₅, h₆, h₇, h₈⟩ := h
    exact ⟨h₁, h₂, h₃, h₄, h₅, h₆, h₇, h₈⟩
  · exact .refl e

theorem markAsDead_plainSends (e : ExternalManager V) : PlainSends e e.markAsDead :=
  .of_eq rfl rfl rfl rfl rfl rfl (fun _ => rfl) rfl

end ExternalManager

namespace Manager

open ExternalManager

variable {V : Type} {m m₁ m₂ : Manager V} {env : Env}

theorem lookup_atNeighbor (f : ExternalManager V → ExternalManager V) (id key : MachineID) (m : Manager V) :
    (m.atNeighbor id f).neighbors.lookup key = (m.neighbors.lookup key).map fun e => if key = id then f e else e :=
  AList.lookup_mapVal _ _ _

theorem lookup_atNeighbor_ne {f : ExternalManager V → ExternalManager V} {id key : MachineID} (h : key ≠ id)
    (m : Manager V) : (m.atNeighbor id f).neighbors.lookup key = m.neighbors.lookup key := by
  rw [lookup_atNeighbor]
  simp [h]

/-- What a record was before the update of one record. -/
theorem of_lookup_atNeighbor {f : ExternalManager V → ExternalManager V} {id key : MachineID}
    {e' : ExternalManager V} (h : (m.atNeighbor id f).neighbors.lookup key = some e') :
    ∃ e, m.neighbors.lookup key = some e ∧ e' = if key = id then f e else e := by
  rw [lookup_atNeighbor] at h
  obtain ⟨e, he, heq⟩ := Option.map_eq_some_iff.mp h
  exact ⟨e, he, heq.symm⟩

/-- The neighbours of `m'` are those of `m`, each after an update that meets
`R`. -/
def Via (R : ExternalManager V → ExternalManager V → Prop) (m m' : Manager V) : Prop :=
  ∃ f : MachineID → ExternalManager V → ExternalManager V,
    (∀ id e, R e (f id e)) ∧ m'.neighbors = m.neighbors.mapVal f

namespace Via

variable {R S : ExternalManager V → ExternalManager V → Prop}

theorem of_eq (hR : ∀ e, R e e) (h : m₁.neighbors = m.neighbors) : Via R m m₁ :=
  ⟨fun _ e => e, fun _ => hR, by simp [h]⟩

theorem trans (hR : ∀ e e' e'', R e e' → R e' e'' → R e e'') (h : Via R m m₁) (h' : Via R m₁ m₂) : Via R m m₂ := by
  obtain ⟨f, hf, hn⟩ := h
  obtain ⟨g, hg, hn'⟩ := h'
  exact ⟨fun id e => g id (f id e), fun id e => hR _ _ _ (hf id e) (hg id _), by rw [hn', hn, AList.mapVal_mapVal]⟩

theorem mono (h : Via R m m₁) (hRS : ∀ e e', R e e' → S e e') : Via S m m₁ := by
  obtain ⟨f, hf, hn⟩ := h
  exact ⟨f, fun id e => hRS _ _ (hf id e), hn⟩

theorem lookup (h : Via R m m₁) (id : MachineID) :
    (m.neighbors.lookup id = none ∧ m₁.neighbors.lookup id = none) ∨
    ∃ e e', m.neighbors.lookup id = some e ∧ m₁.neighbors.lookup id = some e' ∧ R e e' := by
  obtain ⟨f, hf, hn⟩ := h
  rw [hn, AList.lookup_mapVal]
  cases m.neighbors.lookup id with
  | none => exact .inl ⟨rfl, rfl⟩
  | some e => exact .inr ⟨e, f id e, rfl, rfl, hf id e⟩

theorem mem (h : Via R m m₁) (id : MachineID) : id ∈ m₁.neighbors ↔ id ∈ m.neighbors := by
  obtain ⟨f, hf, hn⟩ := h
  rw [hn, AList.mem_mapVal]

/-- What a record of `m₁` was in `m`. -/
theorem of_lookup (h : Via R m m₁) {id : MachineID} {e' : ExternalManager V}
    (he : m₁.neighbors.lookup id = some e') : ∃ e, m.neighbors.lookup id = some e ∧ R e e' := by
  rcases h.lookup id with ⟨-, h'⟩ | ⟨e, e'', h₁, h₂, hR⟩
  · rw [h'] at he; cases he
  · rw [h₂] at he; cases he
    exact ⟨e, h₁, hR⟩

end Via

/-- The groups of a manager, as far as they never change. -/
def groupTags (m : Manager V) (groupId : TagID) : Option ReduceGroupNeighbors :=
  (m.reduceTagData.lookup groupId).map (·.group.tagNeighbors)

/-- The lists of machines have lost members at most. -/
def Shrinks (m m' : Manager V) : Prop :=
  ∀ g data', m'.reduceTagData.lookup g = some data' →
    ∃ data, m.reduceTagData.lookup g = some data ∧ ∀ i, (machineList data' i).Sublist (machineList data i)

theorem Shrinks.of_eq (h : m₁.reduceTagData = m.reduceTagData) : Shrinks m m₁ :=
  fun _ data' hd => ⟨data', h ▸ hd, fun _ => .refl _⟩

theorem Shrinks.trans (h : Shrinks m m₁) (h' : Shrinks m₁ m₂) : Shrinks m m₂ := by
  intro g data'' hd
  obtain ⟨data', hd', hs'⟩ := h' g data'' hd
  obtain ⟨data, hd, hs⟩ := h g data' hd'
  exact ⟨data, hd, fun i => (hs' i).trans (hs i)⟩

structure Plain (m m' : Manager V) : Prop where
  id : m'.id = m.id
  publishersForTag : m'.publishersForTag = m.publishersForTag
  pendingTags : m'.pendingTags = m.pendingTags
  sendPublisherInformationTo : m'.sendPublisherInformationTo = m.sendPublisherInformationTo
  selfSubCount : m'.selfSubCount = m.selfSubCount
  addrToMachine : m'.addrToMachine = m.addrToMachine
  tagToMachine : m'.tagToMachine = m.tagToMachine
  pendingConns : m'.pendingConns = m.pendingConns
  nextPtr : m'.nextPtr = m.nextPtr
  subscribed : m'.subscribed = m.subscribed
  finalized : m'.finalized = m.finalized
  removed : m'.removed = m.removed
  groupTags : ∀ groupId, m'.groupTags groupId = m.groupTags groupId
  shrinks : Shrinks m m'
  neighbors : Via PlainSends m m'

namespace Plain

theorem of_neighbors {f : MachineID → ExternalManager V → ExternalManager V} (hf : ∀ id e, PlainSends e (f id e)) :
    Plain m { m with neighbors := m.neighbors.mapVal f } :=
  ⟨rfl, rfl, rfl, rfl, rfl, rfl, rfl, rfl, rfl, rfl, rfl, rfl, fun _ => rfl, .of_eq rfl, f, hf, rfl⟩

theorem of_jobs (m : Manager V) (jobs : AList fun _ : JobID => Job V) : Plain m { m with jobs := jobs } :=
  ⟨rfl, rfl, rfl, rfl, rfl, rfl, rfl, rfl, rfl, rfl, rfl, rfl, fun _ => rfl, .of_eq rfl, .of_eq .refl rfl⟩

theorem refl (m : Manager V) : Plain m m := of_jobs m m.jobs

theorem trans (h : Plain m m₁) (h' : Plain m₁ m₂) : Plain m m₂ where
  id := h'.id.trans h.id
  publishersForTag := h'.publishersForTag.trans h.publishersForTag
  pendingTags := h'.pendingTags.trans h.pendingTags
  sendPublisherInformationTo := h'.sendPublisherInformationTo.trans h.sendPublisherInformationTo
  selfSubCount := h'.selfSubCount.trans h.selfSubCount
  addrToMachine := h'.addrToMachine.trans h.addrToMachine
  tagToMachine := h'.tagToMachine.trans h.tagToMachine
  pendingConns := h'.pendingConns.trans h.pendingConns
  nextPtr := h'.nextPtr.trans h.nextPtr
  subscribed := h'.subscribed.trans h.subscribed
  finalized := h'.finalized.trans h.finalized
  removed := h'.removed.trans h.removed
  groupTags g := (h'.groupTags g).trans (h.groupTags g)
  shrinks := h.shrinks.trans h'.shrinks
  neighbors := h.neighbors.trans (fun _ _ _ => PlainSends.trans) h'.neighbors

/-- A loop whose steps are plain is. -/
theorem foldl {α : Type} {f : Manager V → α → Manager V} (hf : ∀ m a, Plain m (f m a)) (l : List α)
    (m : Manager V) : Plain m (l.foldl f m) := by
  induction l generalizing m with
  | nil => exact refl m
  | cons a l ih => exact (hf m a).trans (ih _)

end Plain

theorem Plain.foldlM {α : Type} {f : Manager V → α → Except Abort (Manager V)}
    (hf : ∀ m a, (f m a).Ends (Plain m) Abort.Other) (l : List α) (m : Manager V) :
    (l.foldlM f m).Ends (Plain m) Abort.Other :=
  .foldlM (I := fun _ => Plain m) (Plain.refl m) fun a _ m₁ _ h =>
    (hf m₁ a).mono (fun _ h' => h.trans h') fun _ he => he

/-! ## Sending -/

theorem mapNeighbors_plain {f : ExternalManager V → ExternalManager V} (hf : ∀ e, PlainSends e (f e)) :
    Plain m (m.mapNeighbors f) := .of_neighbors fun _ => hf

theorem atNeighbor_plain {f : ExternalManager V → ExternalManager V} (hf : ∀ e, PlainSends e (f e))
    (id : MachineID) : Plain m (m.atNeighbor id f) := by
  apply Plain.of_neighbors
  intro key e
  split
  · exact hf e
  · exact .refl e

theorem sendToNeighborsIf_plain {msg : Message V} (h : msg.plain = true)
    (condition : ExternalManager V → Bool) : Plain m (m.sendToNeighborsIf env msg condition) := by
  apply mapNeighbors_plain
  intro e
  split
  · exact sendMessage_plainSends env e h
  · exact .refl e

/-! ## Reduce groups -/

/-- New data for a group, with the same neighbours and no new machine. -/
theorem setGroupData_plain {groupId : TagID} {data data' : ReduceGroupData V}
    (h : m.reduceTagData.lookup groupId = some data) (hg : data'.group.tagNeighbors = data.group.tagNeighbors)
    (hl : ∀ i, (machineList data' i).Sublist (machineList data i)) : Plain m (m.setGroupData groupId data') := by
  refine ⟨rfl, rfl, rfl, rfl, rfl, rfl, rfl, rfl, rfl, rfl, rfl, rfl, ?_, ?_, .of_eq .refl rfl⟩
  · intro g
    unfold Manager.groupTags setGroupData
    by_cases he : g = groupId
    · subst he
      simp [h, hg]
    · simp [AList.lookup_insert_ne he]
  · intro g d hd
    by_cases he : g = groupId
    · subst he
      rw [setGroupData, AList.lookup_insert] at hd
      cases hd
      exact ⟨data, h, hl⟩
    · rw [setGroupData, AList.lookup_insert_ne he] at hd
      exact ⟨d, hd, fun _ => .refl _⟩

theorem reduceSend_plain (env : Env) (m : Manager V) (machines : List MachineID) {msg : Message V}
    (h : msg.plain = true) : Plain m (m.reduceSendDataAndRemoveMissing env machines msg).2 :=
  .foldl (fun _ id => atNeighbor_plain (fun e => sendMessage_plainSends env e h) id) machines m

theorem reduceSend_reduceTagData (machines : List MachineID) (msg : Message V) :
    (m.reduceSendDataAndRemoveMissing env machines msg).2.reduceTagData = m.reduceTagData := by
  show (machines.foldl _ m).reduceTagData = _
  induction machines generalizing m with
  | nil => rfl
  | cons id machines ih => exact ih

theorem sendToParents_plain {groupId : TagID} {data : ReduceGroupData V} (env : Env) (msg : Message V)
    (h : m.reduceTagData.lookup groupId = some data) (hmsg : msg.plain = true) :
    Plain m (m.sendToParents env groupId data msg).2 ∧
      (m.sendToParents env groupId data msg).2.reduceTagData.lookup groupId =
        some (m.sendToParents env groupId data msg).1 := by
  refine ⟨(reduceSend_plain env m data.parentMachines hmsg).trans ?_, AList.lookup_insert _⟩
  have h' : (m.reduceSendDataAndRemoveMissing env data.parentMachines msg).2.reduceTagData.lookup groupId =
      some data := by
    rw [reduceSend_reduceTagData, h]
  refine setGroupData_plain h' rfl fun i => ?_
  match i with
  | 0 => exact List.filter_sublist
  | 1 | 2 => exact .refl _

theorem sendToChildren_plain {groupId : TagID} {data : ReduceGroupData V} {msg : Message V}
    (h : m.reduceTagData.lookup groupId = some data) (hmsg : msg.plain = true) :
    Plain m (m.sendToChildren env groupId data msg).2 := by
  have h₁ := reduceSend_plain env m (data.childMachines 0) hmsg
  refine (h₁.trans (reduceSend_plain env _ (data.childMachines 1) hmsg)).trans ?_
  have h' : (reduceSendDataAndRemoveMissing env (data.childMachines 1) msg
      (m.reduceSendDataAndRemoveMissing env (data.childMachines 0) msg).2).2.reduceTagData.lookup groupId =
      some data := by
    rw [reduceSend_reduceTagData, reduceSend_reduceTagData, h]
  refine setGroupData_plain h' rfl fun i => ?_
  match i with
  | 0 => exact .refl _
  | 1 | 2 => exact List.filter_sublist

theorem performSend_plain (env : Env) (m : Manager V) (groupId : TagID) (send : Send V) :
    (performSend env groupId m send).Ends (Plain m) Abort.Other := by
  unfold performSend
  split
  · exact fun _ => nofun
  · rename_i data h
    cases send with
    | toParent value version seq => exact (sendToParents_plain env _ h rfl).1
    | toChildren value version => exact sendToChildren_plain h rfl
    | disconnection machine id =>
      obtain ⟨h₁, h₂⟩ := sendToParents_plain env (.reportReduceDisconnection groupId machine id) h rfl
      exact h₁.trans (sendToChildren_plain h₂ rfl)
    | result value version seq => exact Plain.refl m

theorem updateGroup_plain (env : Env) {groupId : TagID} {data : ReduceGroupData V} {group : ReduceGroup V}
    (h : m.reduceTagData.lookup groupId = some data) (hg : group.tagNeighbors = data.group.tagNeighbors)
    (sends : List (Send V)) : (m.updateGroup env groupId group sends).Ends (Plain m) Abort.Other := by
  unfold updateGroup
  rw [h]
  refine (Plain.foldlM (fun m s => performSend_plain env m groupId s) sends _).mono (fun _ h' => ?_)
    fun _ he => he
  exact (setGroupData_plain h hg fun i => by match i with | 0 | 1 | 2 => exact .refl _).trans h'

theorem setMachineList_group (data : ReduceGroupData V) (i : Fin 3) (l : List MachineID) :
    (setMachineList data i l).group = data.group := by
  match i with
  | 0 | 1 | 2 => rfl

theorem machineList_setMachineList (data : ReduceGroupData V) (i j : Fin 3) (l : List MachineID) :
    machineList (setMachineList data i l) j = if j = i then l else machineList data j := by
  match i, j with
  | 0, 0 | 0, 1 | 0, 2 | 1, 0 | 1, 1 | 1, 2 | 2, 0 | 2, 1 | 2, 2 => rfl

theorem leaveList_plain (env : Env) (id : MachineID) (groupId : TagID) (m : Manager V) (i : Fin 3) :
    (leaveList env id groupId m i).Ends (Plain m) Abort.Other := by
  unfold leaveList
  split
  · exact fun _ => nofun
  · rename_i data h
    split
    · have hd : Plain m (m.setGroupData groupId (setMachineList data i ((machineList data i).erase id))) := by
        refine setGroupData_plain h (congrArg (·.tagNeighbors) (setMachineList_group data i _)) fun j => ?_
        rw [machineList_setMachineList]
        split
        · rename_i hj
          exact hj ▸ List.erase_sublist
        · exact .refl _
      refine (updateGroup_plain env (AList.lookup_insert _) ?_ _).mono (fun _ h' => hd.trans h') fun _ he => he
      rw [setMachineList_group]
    · exact Plain.refl m

theorem leaveGroups_plain (env : Env) (id : MachineID) (m : Manager V) :
    (m.leaveGroups env id).Ends (Plain m) Abort.Other := by
  apply Plain.foldlM
  intro m e
  exact Plain.foldlM (leaveList_plain env id e.1) _ m

/-! ## Messages -/

variable [Typed V]

theorem handleReduceValue_plain (env : Env) (reduceTag tag : TagID) (value : Option V) (version : VersionID) :
    (m.handleReduceValue env reduceTag tag value version).Ends (fun r => Plain m r.2) Abort.Other := by
  unfold handleReduceValue
  split
  · rename_i data value h
    split
    · exact fun _ => nofun
    · rename_i accepted group sends ha
      exact .bind (updateGroup_plain env h (ReduceGroup.addData_tagNeighbors ha) sends) fun _ h' => h'
  · exact Plain.refl m

omit [Typed V] in
theorem handleReportReduceDisconnection_plain (env : Env) (reduceTag : TagID) (machine : MachineID)
    (id : ReductionDisconnectID) :
    (m.handleReportReduceDisconnection env reduceTag machine id).Ends (fun r => Plain m r.2) Abort.Other := by
  unfold handleReportReduceDisconnection
  split
  · exact Plain.refl m
  · rename_i data h
    exact .bind (updateGroup_plain env h (ReduceGroup.propagateDisconnection_tagNeighbors _ _ _) _)
      fun _ h' => h'

theorem processData_plain (tag : TagID) (value : V) (version : VersionID) (l : List (Σ _ : JobID, Job V)) :
    (l.foldlM (processData tag value version) (true, m)).Ends (fun r => Plain m r.2) Abort.Other := by
  refine .foldlM (I := fun _ (r : Bool × Manager V) => Plain m r.2) (.refl m) fun e _ r _ h => ?_
  unfold processData
  split
  · exact fun _ => nofun
  · exact h.trans (.of_jobs _ _)

theorem publish_plain (env : Env) (version : VersionID) (tag : TagID) (value : V) :
    (m.publish env version tag value).Ends (Plain m) Abort.Other :=
  .bind (processData_plain tag value version _) fun _ h => h.trans (sendToNeighborsIf_plain rfl _)

theorem handleMessage_plain (env : Env) (sender : ExternalManager V) {msg : Message V}
    (hmsg : msg.handledPlain = true) :
    (m.handleMessage env sender msg).Ends (fun r => Plain m r.2) Abort.Other := by
  unfold handleMessage
  cases msg with
  | greeting sender neighbors port => exact Plain.refl m
  | goodbye => exact atNeighbor_plain markAsDead_plainSends sender.id
  | newNeighbor id =>
    refine atNeighbor_plain (f := handleNewNeighbor id) (fun e => ?_) sender.id
    unfold handleNewNeighbor
    split <;> exact .of_eq rfl rfl rfl rfl rfl rfl (fun h => h) rfl
  | removeNeighbor id =>
    refine atNeighbor_plain (f := handleRemoveNeighbor id) (fun e => ?_) sender.id
    unfold handleRemoveNeighbor
    dsimp only
    split <;> exact .of_eq rfl rfl rfl rfl rfl rfl (fun h => h) rfl
  | heartbeat => exact Plain.refl m
  | reportPublishers tags addresses machines locallyProducedTags => cases hmsg
  | getPublishers tags publishersNeeded ignoreCache => cases hmsg
  | joinReduceGroup reduceTag tagProduced => cases hmsg
  | submitReduceValue reduceTag tag value version =>
    dsimp only
    split
    · exact Plain.refl m
    · exact .bind (handleReduceValue_plain env reduceTag tag value version) fun _ h => h
  | reportReduceDisconnection reduceTag machine id =>
    dsimp only
    split
    · exact Plain.refl m
    · exact .bind (handleReportReduceDisconnection_plain env reduceTag machine id) fun _ h => h
  | publishData tag value version =>
    dsimp only
    split
    · exact Plain.refl m
    · refine .bind (P := fun r : Bool × Manager V => Plain m r.2) ?_ fun _ h => h
      unfold handlePublishData
      split
      · exact Plain.refl m
      · exact processData_plain tag _ version _
  | subscriptionNotice tags isUnsubscribe =>
    show Plain m (m.atNeighbor sender.id _)
    apply atNeighbor_plain
    exact fun e => .of_eq rfl rfl rfl rfl rfl rfl (fun h => h) rfl

end Manager

end Skywing.L3
