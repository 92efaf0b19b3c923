import Skywing.L3Protocol.RecordFrame

/-!
# Steps that carry no values

A published value gets to a job when a job of the same manager publishes it or
when a message brings it, and it is sent to the neighbours that have asked for
its tag. `NoValues m m'` says that on the way from `m` to `m'` nothing of that
happened: the jobs are as they were, no record was removed, and every record is
the one it was, with the subscriptions it had, after messages that carry no
published value.

Results:
* `initConnections_noValues`, `subscribe_noValues`, … : most operations of a
  manager are such.
* `handleMessage_noValues`: so is the handling of every message but a published
  value and a subscription notice.
* `handleGreeting_noValues`, `removeNeighbor_values`: a greeting and a removal
  but for the record that comes or goes.
-/
namespace Skywing.L3

open L1.Text

def Message.isPublishData {V : Type} : Message V → Bool
  | .publishData _ _ _ => true
  | _ => false

def Message.isNotice {V : Type} : Message V → Bool
  | .subscriptionNotice _ _ => true
  | _ => false

namespace ExternalManager

variable {V : Type} {e e' e'' : ExternalManager V} {env : Env}

/-- No value was sent, no subscription noted. -/
structure NoValues (e e' : ExternalManager V) : Prop where
  id : e'.id = e.id
  remoteSubscriptions : e'.remoteSubscriptions = e.remoteSubscriptions
  sent : ∃ msgs : List (Message V), (∀ msg ∈ msgs, msg.isPublishData = false) ∧ e'.sent = e.sent ++ msgs

namespace NoValues

/-- Nothing was sent. -/
theorem of_eq (id : e'.id = e.id) (subs : e'.remoteSubscriptions = e.remoteSubscriptions) (sent : e'.sent = e.sent) :
    NoValues e e' :=
  ⟨id, subs, [], List.forall_mem_nil _, by rw [sent, List.append_nil]⟩

theorem refl (e : ExternalManager V) : NoValues e e := of_eq rfl rfl rfl

theorem trans (h : NoValues e e') (h' : NoValues e' e'') : NoValues e e'' where
  id := h'.id.trans h.id
  remoteSubscriptions := h'.remoteSubscriptions.trans h.remoteSubscriptions
  sent := by
    obtain ⟨msgs, hp, hs⟩ := h.sent
    obtain ⟨msgs', hp', hs'⟩ := h'.sent
    refine ⟨msgs ++ msgs', ?_, by rw [hs', hs, List.append_assoc]⟩
    intro msg hm
    rcases List.mem_append.mp hm with hm | hm
    · exact hp msg hm
    · exact hp' msg hm

theorem mem_sent (h : NoValues e e') : ∀ msg ∈ e.sent, msg ∈ e'.sent := by
  obtain ⟨msgs, -, hs⟩ := h.sent
  intro msg hm
  rw [hs]
  exact List.mem_append_left _ hm

end NoValues

theorem sendMessage_noValues {msg : Message V} (h : msg.isPublishData = false) (e : ExternalManager V) :
    NoValues e (e.sendMessage env msg) := by
  rcases sendMessage_cases env e msg with ⟨d, hd⟩ | hs
  · rw [hd]
    exact .of_eq rfl rfl rfl
  · rw [hs]
    exact ⟨rfl, rfl, [msg], List.forall_mem_singleton.mpr h, rfl⟩

theorem findPublishersForTags_noValues (tags : List TagID) (needed : List UInt8) (e : ExternalManager V) :
    NoValues e (e.findPublishersForTags env tags needed) := by
  unfold findPublishersForTags
  split
  · exact .refl e
  · have h : NoValues e (e.sendMessage env (.getPublishers tags needed e.ignoreCacheOnNextRequest)) :=
      sendMessage_noValues rfl e
    exact ⟨h.id, h.remoteSubscriptions, h.sent⟩

theorem sendHeartbeat_noValues (interval : Nat) (e : ExternalManager V) :
    NoValues e (e.sendHeartbeatIfPastInterval env interval) := by
  unfold sendHeartbeatIfPastInterval
  split
  · have h : NoValues e (e.sendMessage env .heartbeat) := sendMessage_noValues rfl e
    exact ⟨h.id, h.remoteSubscriptions, h.sent⟩
  · exact .refl e

theorem handleNewNeighbor_noValues (id : MachineID) (e : ExternalManager V) : NoValues e (e.handleNewNeighbor id) := by
  unfold handleNewNeighbor
  split
  · exact .refl e
  · exact .of_eq rfl rfl rfl

theorem handleRemoveNeighbor_noValues (id : MachineID) (e : ExternalManager V) :
    NoValues e (e.handleRemoveNeighbor id) := by
  unfold handleRemoveNeighbor
  dsimp only
  split
  · exact .of_eq rfl rfl rfl
  · exact .refl e

end ExternalManager

namespace Manager

variable {V : Type} {m m₁ m₂ : Manager V} {env : Env}

structure NoValues (m m' : Manager V) : Prop where
  jobs : m'.jobs = m.jobs
  removed : m'.removed = m.removed
  neighbors : Via ExternalManager.NoValues m m'

open ExternalManager hiding NoValues

namespace NoValues

theorem of_eq (hj : m₁.jobs = m.jobs) (hr : m₁.removed = m.removed) (hn : m₁.neighbors = m.neighbors) :
    NoValues m m₁ := ⟨hj, hr, .of_eq .refl hn⟩

theorem refl (m : Manager V) : NoValues m m := of_eq rfl rfl rfl

theorem trans (h : NoValues m m₁) (h' : NoValues m₁ m₂) : NoValues m m₂ :=
  ⟨h'.jobs.trans h.jobs, h'.removed.trans h.removed,
    h.neighbors.trans (fun _ _ _ => ExternalManager.NoValues.trans) h'.neighbors⟩

/-- Something else changed after. -/
theorem then_same (h : NoValues m m₁) (hj : m₂.jobs = m₁.jobs) (hr : m₂.removed = m₁.removed)
    (hn : m₂.neighbors = m₁.neighbors) : NoValues m m₂ := h.trans (of_eq hj hr hn)

/-- Something else changed before. -/
theorem from_same (h : NoValues m₁ m₂) (hj : m₁.jobs = m.jobs) (hr : m₁.removed = m.removed)
    (hn : m₁.neighbors = m.neighbors) : NoValues m m₂ := (of_eq hj hr hn).trans h

theorem foldl {α : Type} {f : Manager V → α → Manager V} (hf : ∀ m a, NoValues m (f m a)) (l : List α)
    (m : Manager V) : NoValues m (l.foldl f m) := by
  induction l generalizing m with
  | nil => exact refl m
  | cons a l ih => exact (hf m a).trans (ih _)

theorem foldlM {α : Type} {f : Manager V → α → Except Abort (Manager V)}
    (hf : ∀ m a, (f m a).Ends (NoValues m) fun _ => True) (l : List α) (m : Manager V) :
    (l.foldlM f m).Ends (NoValues m) fun _ => True :=
  .foldlM (I := fun _ => NoValues m) (refl m) fun a _ m₁ _ h =>
    (hf m₁ a).mono (fun _ h' => h.trans h') fun _ _ => trivial

end NoValues

/-! ## Sending -/

theorem mapNeighbors_noValues {f : ExternalManager V → ExternalManager V}
    (hf : ∀ e, ExternalManager.NoValues e (f e)) : NoValues m (m.mapNeighbors f) :=
  ⟨rfl, rfl, fun _ => f, fun _ => hf, rfl⟩

theorem atNeighbor_noValues {f : ExternalManager V → ExternalManager V}
    (hf : ∀ e, ExternalManager.NoValues e (f e)) (id : MachineID) : NoValues m (m.atNeighbor id f) := by
  refine ⟨rfl, rfl, fun key e => if key = id then f e else e, fun key e => ?_, rfl⟩
  dsimp only
  split
  · exact hf e
  · exact .refl e

theorem atPtr_noValues {f : ExternalManager V → ExternalManager V} (hf : ∀ e, ExternalManager.NoValues e (f e))
    (ptr : Nat) : NoValues m (m.atPtr ptr f) := by
  apply mapNeighbors_noValues
  intro e
  split
  · exact hf e
  · exact .refl e

theorem sendToNeighborsIf_noValues {msg : Message V} (h : msg.isPublishData = false)
    (condition : ExternalManager V → Bool) : NoValues m (m.sendToNeighborsIf env msg condition) := by
  apply mapNeighbors_noValues
  intro e
  split
  · exact sendMessage_noValues h e
  · exact .refl e

/-! ## The search for publishers -/

theorem askNeighbors_noValues (tags : List TagID) : NoValues m (m.askNeighbors env tags) := by
  apply mapNeighbors_noValues
  intro e
  have h : ExternalManager.NoValues e (e.resetBackoffCounter env) := .of_eq rfl rfl rfl
  exact h.trans (findPublishersForTags_noValues _ _ _)

theorem findPublishers_noValues (force : Bool) : NoValues m (m.findPublishersForPendingTags env force) := by
  unfold findPublishersForPendingTags
  split
  · exact askNeighbors_noValues _
  · dsimp only
    split
    · exact .refl m
    · apply mapNeighbors_noValues
      intro e
      split
      · have h : ExternalManager.NoValues e (e.increaseBackoffCounter env) := .of_eq rfl rfl rfl
        exact h.trans (findPublishersForTags_noValues _ _ _)
      · exact .refl e

theorem sendKnownPublishers_noValues (m : Manager V) (id : MachineID) : NoValues m (m.sendKnownPublishers env id) :=
  atNeighbor_noValues (fun e => sendMessage_noValues rfl e) id

theorem handleGetPublishers_noValues (sender : ExternalManager V) (tags : List TagID) (needed : List UInt8)
    (ignoreCache : Bool) :
    (m.handleGetPublishers env sender tags needed ignoreCache).Ends (NoValues m) fun _ => True := by
  unfold handleGetPublishers
  refine .bind (.any _) fun remaining _ => ?_
  have hc : NoValues m (m.markInCache ignoreCache (remaining.map (·.1))) := .of_eq rfl rfl rfl
  have hp : NoValues m ((m.markInCache ignoreCache (remaining.map (·.1))).markPropagation sender.id
      (remaining.map (·.1))) := .of_eq rfl rfl rfl
  dsimp only
  split
  · exact sendKnownPublishers_noValues m _
  split
  · exact hc.trans (sendKnownPublishers_noValues _ _)
  split
  · exact (hp.trans (sendKnownPublishers_noValues _ sender.id)).then_same rfl rfl rfl
  · refine hp.trans (mapNeighbors_noValues fun e => ?_)
    split
    · have h : ExternalManager.NoValues e (e.resetBackoffCounter env) := .of_eq rfl rfl rfl
      exact h.trans (findPublishersForTags_noValues _ _ _)
    · exact .refl e

theorem addPublishersAndPropagate_noValues (sender : ExternalManager V) (tags : List TagID)
    (addresses : List (List Str)) (machines : List (List MachineID)) (localTags : List TagID) :
    (m.addPublishersAndPropagate env sender tags addresses machines localTags).Ends (fun r => NoValues m r.1)
      fun _ => True := by
  unfold addPublishersAndPropagate
  split
  · exact NoValues.refl m
  · refine .bind (NoValues.foldlM (fun m entry => ?_) _ m) fun m₁ h₁ => ?_
    · unfold addReported
      split
      · trivial
      · exact NoValues.of_eq rfl rfl rfl
    · have h₂ : NoValues m₁ (localTags.foldl
          (fun m tag => m.addPublishers [⟨sender.address env (.publisher tag), sender.id⟩] tag) m₁) :=
        .foldl (f := fun m tag => m.addPublishers _ tag) (fun m tag => .of_eq rfl rfl rfl) _ m₁
      have h₃ (m : Manager V) : NoValues m (m.propagate env) :=
        (NoValues.foldl sendKnownPublishers_noValues _ _).from_same rfl rfl rfl
      exact (h₁.trans h₂).trans (h₃ _)

/-! ## Reduce groups -/

theorem reduceSend_noValues {msg : Message V} (h : msg.isPublishData = false) (machines : List MachineID)
    (m : Manager V) : NoValues m (m.reduceSendDataAndRemoveMissing env machines msg).2 :=
  NoValues.foldl (fun _ id => atNeighbor_noValues (fun e => sendMessage_noValues h e) id) machines m

theorem sendToParents_noValues {msg : Message V} (h : msg.isPublishData = false) (groupId : TagID)
    (data : ReduceGroupData V) (m : Manager V) : NoValues m (m.sendToParents env groupId data msg).2 :=
  (reduceSend_noValues h data.parentMachines m).then_same rfl rfl rfl

theorem sendToChildren_noValues {msg : Message V} (h : msg.isPublishData = false) (groupId : TagID)
    (data : ReduceGroupData V) (m : Manager V) : NoValues m (m.sendToChildren env groupId data msg).2 :=
  ((reduceSend_noValues h (data.childMachines 0) m).trans (reduceSend_noValues h (data.childMachines 1) _)).then_same
    rfl rfl rfl

theorem performSend_noValues (groupId : TagID) (m : Manager V) (send : Send V) :
    (performSend env groupId m send).Ends (NoValues m) fun _ => True := by
  unfold performSend
  split
  · trivial
  · cases send with
    | toParent value version seq => exact sendToParents_noValues rfl _ _ m
    | toChildren value version => exact sendToChildren_noValues rfl _ _ m
    | disconnection machine id => exact (sendToParents_noValues rfl _ _ m).trans (sendToChildren_noValues rfl _ _ _)
    | result value version seq => exact NoValues.refl m

theorem updateGroup_noValues (groupId : TagID) (group : ReduceGroup V) (sends : List (Send V)) (m : Manager V) :
    (m.updateGroup env groupId group sends).Ends (NoValues m) fun _ => True := by
  unfold updateGroup
  split
  · trivial
  · exact (NoValues.foldlM (performSend_noValues groupId) sends _).mono (fun _ h => h.from_same rfl rfl rfl)
      fun _ _ => trivial

theorem leaveGroups_noValues (id : MachineID) (m : Manager V) :
    (m.leaveGroups env id).Ends (NoValues m) fun _ => True := by
  refine NoValues.foldlM (fun m e => NoValues.foldlM (fun m i => ?_) _ m) _ m
  unfold leaveList
  split
  · trivial
  · split
    · exact (updateGroup_noValues _ _ _ _).mono (fun _ h => h.from_same rfl rfl rfl) fun _ _ => trivial
    · exact NoValues.refl m

/-! ## Calls from jobs -/

theorem subscribe_noValues (tagIds : List TagID) : NoValues m (m.subscribe env tagIds) := by
  have hw : NoValues m (m.queueWanted tagIds) := by
    refine .foldl (fun m tag => ?_) tagIds m
    split
    · exact .of_eq rfl rfl rfl
    · exact .refl m
  have hq : NoValues m { m.queueWanted tagIds with subscribed := m.subscribed ++ tagIds } := hw.then_same rfl rfl rfl
  unfold subscribe
  dsimp only
  split
  · exact hq
  · exact hq.trans (askNeighbors_noValues tagIds)

theorem ipSubscribe_noValues (addr : AddrPort) (tagIds : List TagID) :
    (m.ipSubscribe env addr tagIds).Ends (NoValues m) fun _ => True := by
  unfold ipSubscribe
  refine .bind (.any _) fun canonical _ => .bind (.any _) fun a _ => .bind (.any _) fun b _ => ?_
  split
  · refine NoValues.foldlM (fun m' tag => ?_) tagIds m
    split
    · exact NoValues.of_eq rfl rfl rfl
    · trivial
  · split
    · exact .bind (.any _) fun e _ => atPtr_noValues (fun e => sendMessage_noValues rfl e) e.ptr
    · split
      · trivial
      · exact .bind (.any _) fun _ _ => NoValues.of_eq rfl rfl rfl

theorem connectToServer_noValues (addr : AddrPort) : (m.connectToServer env addr).Ends (NoValues m) fun _ => True := by
  unfold connectToServer
  refine .bind (.any _) fun canonical _ => ?_
  split
  · exact NoValues.refl m
  · exact .bind (.any _) fun _ _ => NoValues.of_eq rfl rfl rfl

theorem reportNewPublishTags_noValues (tags : List TagID) :
    (m.reportNewPublishTags tags).Ends (NoValues m) fun _ => True := by
  refine NoValues.foldlM (fun m' tag => ?_) tags m
  split
  · trivial
  · exact NoValues.of_eq rfl rfl rfl

theorem queueParentTag_noValues (parentTag : TagID) : NoValues m (m.queueParentTag env parentTag) :=
  (askNeighbors_noValues [parentTag]).from_same rfl rfl rfl

theorem createReduceGroup_noValues (group : ReduceGroup V) :
    (m.createReduceGroup env group).Ends (NoValues m) fun _ => True := by
  unfold createReduceGroup
  split
  · trivial
  dsimp only
  split
  · trivial
  · show NoValues m _
    split
    · exact .of_eq rfl rfl rfl
    · exact (queueParentTag_noValues _).from_same rfl rfl rfl

theorem rebuildReduceGroup_noValues (groupId : TagID) :
    (m.rebuildReduceGroup env groupId).Ends (NoValues m) fun _ => True := by
  unfold rebuildReduceGroup
  split
  · trivial
  · show NoValues m _
    split
    · exact queueParentTag_noValues _
    · exact .refl m

/-! ## Connections -/

theorem finalizeSubscription_noValues (tags : Str) (source : Nat) (m : Manager V) :
    NoValues m (m.finalizeSubscription env tags source) :=
  (atPtr_noValues (fun e => sendMessage_noValues rfl e) source).from_same rfl rfl rfl

theorem finalizeParentTags_noValues (id : MachineID) (tags : Str) (m : Manager V) :
    (m.finalizeParentTags env id tags).Ends (NoValues m) fun _ => True := by
  refine NoValues.foldlM (fun m tag => ?_) _ m
  unfold finalizeParentTag
  refine .bind (.any _) fun e _ => .bind (P := NoValues m) ?_ fun m₁ h => h.then_same rfl rfl rfl
  unfold finalizeReduceGroup
  split
  · trivial
  · split
    · exact (atNeighbor_noValues (fun e => sendMessage_noValues rfl e) id).from_same rfl rfl rfl
    · trivial

theorem initTag_noValues (s : InitLoop V) (tag : TagID) :
    (initTag env s tag).Ends (fun s' => NoValues s.m s'.m) fun _ => True := by
  unfold initTag
  refine .bind (.any _) fun r _ => ?_
  cases r with
  | selfProduced => exact NoValues.of_eq rfl rfl rfl
  | keep => exact NoValues.refl _
  | connect address => exact NoValues.refl _
  | finalize ptr id =>
    refine .bind (P := NoValues s.m) ?_ fun m₁ h => h
    unfold finalizePending
    split
    · exact finalizeSubscription_noValues tag ptr s.m
    · exact finalizeParentTags_noValues id tag s.m

theorem insertPending_noValues : ∀ (tries : Nat) (key : AddrPort) (info : PendingInfo) (m : Manager V),
    (m.insertPending tries key info).Ends (NoValues m) fun _ => True
  | 0, _, _, _ => trivial
  | tries + 1, (host, port), info, m => by
    unfold insertPending
    split
    · exact insertPending_noValues tries _ _ m
    · exact NoValues.of_eq rfl rfl rfl

theorem initConnections_noValues (m : Manager V) : (m.initConnections env).Ends (NoValues m) fun _ => True := by
  unfold initConnections
  refine .bind (P := fun s : InitLoop V => NoValues m s.m) ?_ fun s hs => ?_
  · exact .foldlM (I := fun _ (s : InitLoop V) => NoValues m s.m) (NoValues.refl m) fun tag _ s _ h =>
      (initTag_noValues s tag).mono (fun _ h' => h.trans h') fun _ _ => trivial
  · refine .bind (P := NoValues s.m) (NoValues.foldlM (fun m e => ?_) _ _) fun m₁ h₁ => ?_
    · unfold startConnection
      refine .bind (.any _) fun err _ => ?_
      split
      · exact insertPending_noValues _ _ _ m
      · exact NoValues.refl m
    · exact (hs.trans h₁).then_same rfl rfl rfl

theorem acceptConnection_noValues : ∀ (tries : Nat) (addr : AddrPort) (m : Manager V),
    (m.acceptConnection tries addr).Ends (NoValues m) fun _ => True
  | 0, _, _ => trivial
  | tries + 1, (address, port), m => by
    unfold acceptConnection
    split
    · exact acceptConnection_noValues tries _ m
    · exact NoValues.of_eq rfl rfl rfl

theorem handleTag_noValues (pubTag baseTag : TagID) (m : Manager V) :
    (m.handleTag pubTag baseTag).Ends (NoValues m) fun _ => True := by
  unfold handleTag
  split
  · trivial
  · dsimp only
    split
    · have hm : NoValues m (m.mapNeighbors fun e => { e with ignoreCacheOnNextRequest := true }) :=
        mapNeighbors_noValues fun e => .of_eq rfl rfl rfl
      exact hm.then_same rfl rfl rfl
    · exact NoValues.of_eq rfl rfl rfl

theorem dropConnection_noValues (key : AddrPort) (info : PendingInfo) :
    (m.dropConnection env key info).Ends (fun r => NoValues m r.1) fun _ => True := by
  unfold dropConnection
  refine .bind (P := fun r => NoValues m r.1) ?_ fun r hr => hr.then_same rfl rfl rfl
  unfold handleError
  split
  · exact NoValues.refl m
  · exact NoValues.refl m
  · exact NoValues.refl m
  · exact .bind (NoValues.foldlM (fun m' tag => handleTag_noValues tag tag m') _ m) fun m' h' => h'
  · refine .bind (NoValues.foldlM (fun m' tag => ?_) _ m) fun m' h' => h'
    exact .bind (.any _) fun e _ => handleTag_noValues _ tag m'

/-- A greeting is such once the record is there. -/
theorem handleGreeting_noValues (key : AddrPort) (info : PendingInfo) (sender : MachineID)
    (neighbors : List MachineID) (port : UInt16) (ip : Str) (m : Manager V) :
    (m.handleGreeting env key info sender neighbors port ip).Ends
      (NoValues (m.greet env sender neighbors port ip).2) fun _ => True := by
  unfold handleGreeting
  generalize m.greet env sender neighbors port ip = g
  obtain ⟨e, m₀⟩ := g
  dsimp only
  refine .bind (P := fun r => ∀ m', r = some m' → NoValues m₀ m') ?_ fun r hr => ?_
  · unfold finalizeConnection
    split
    · exact fun m' h => Option.some.inj h ▸ .refl m₀
    · exact fun m' h => Option.some.inj h ▸ .refl m₀
    · exact .bind (finalizeParentTags_noValues e.id info.tag m₀) fun m₁ h₁ m' hm => Option.some.inj hm ▸ h₁
    · exact fun m' hm => Option.some.inj hm ▸ finalizeSubscription_noValues info.tag e.ptr m₀
    · split
      · refine Except.Ends.pure fun m' hm => ?_
        split at hm
        · cases hm
        · exact Option.some.inj hm ▸ finalizeSubscription_noValues _ e.ptr m₀
      · trivial
  · cases r with
    | none =>
      have hd : NoValues m₀ (m₀.atPtr e.ptr markAsDead) :=
        atPtr_noValues (f := markAsDead) (fun e => .of_eq rfl rfl rfl) e.ptr
      exact hd.then_same rfl rfl rfl
    | some m₁ =>
      have hn : NoValues m₁ (m₁.notifyOfNewNeighbor env sender) := sendToNeighborsIf_noValues rfl _
      exact ((hr m₁ rfl).trans (hn.trans (findPublishers_noValues false))).then_same rfl rfl rfl

theorem processConn_noValues (key : AddrPort) (info : PendingInfo) {event : ConnEvent V}
    (hne : ∀ sender neighbors port ip, event ≠ .message (.greeting sender neighbors port) ip) :
    (m.processConn env key info event).Ends (fun r => NoValues m r.1) fun _ => True := by
  unfold processConn
  split
  · exact NoValues.refl m
  · split
    · exact NoValues.of_eq rfl rfl rfl
    · exact NoValues.of_eq rfl rfl rfl
  · exact dropConnection_noValues key info
  · exact dropConnection_noValues key info
  · exact dropConnection_noValues key info
  · exact absurd rfl (hne _ _ _ _)
  · exact dropConnection_noValues key info

/-- Before the record leaves, its tags lose their publisher. -/
theorem removeNeighbor_values (id : MachineID) (m : Manager V) :
    (m.removeNeighbor env id).Ends (fun r => r.1 = m ∨
      ∃ e m₁, m.neighbors.lookup id = some e ∧ NoValues m m₁ ∧
        r.1.jobs = m₁.jobs.mapVal (fun _ job => (m₁.tagsOf env e.ptr).foldl Job.markTagAsDead job) ∧
        r.1.neighbors = m₁.neighbors.erase id ∧ r.1.removed = m₁.removed ++ [e]) fun _ => True := by
  unfold removeNeighbor
  split
  · exact .inl rfl
  · rename_i e he
    split
    · exact .inl rfl
    · have hs : NoValues m (m.sendToNeighbors env (.removeNeighbor id)) := sendToNeighborsIf_noValues rfl _
      exact .bind ((leaveGroups_noValues id _).mono (fun _ h => hs.trans h) fun _ _ => trivial)
        fun m₁ h₁ => .inr ⟨e, m₁, he, h₁, rfl, rfl, rfl⟩

/-! ## Messages -/

theorem handleJoinReduceGroup_noValues (sender : ExternalManager V) (reduceTag tagProduced : TagID) :
    NoValues m (m.handleJoinReduceGroup sender reduceTag tagProduced).2 := by
  unfold handleJoinReduceGroup
  split
  · exact .refl m
  · dsimp only
    split
    · split <;> exact .of_eq rfl rfl rfl
    · split
      · split <;> exact .of_eq rfl rfl rfl
      · exact .refl m

theorem handleMessage_noValues [Typed V] (sender : ExternalManager V) {msg : Message V}
    (hd : msg.isPublishData = false) (hn : msg.isNotice = false) :
    (m.handleMessage env sender msg).Ends (fun r => NoValues m r.2) fun _ => True := by
  unfold handleMessage
  cases msg with
  | greeting sender neighbors port => exact NoValues.refl m
  | goodbye => exact atNeighbor_noValues (f := markAsDead) (fun e => .of_eq rfl rfl rfl) sender.id
  | heartbeat => exact NoValues.refl m
  | newNeighbor id => exact atNeighbor_noValues (handleNewNeighbor_noValues id) sender.id
  | removeNeighbor id => exact atNeighbor_noValues (handleRemoveNeighbor_noValues id) sender.id
  | reportPublishers tags addresses machines localTags =>
    dsimp only
    split
    · exact NoValues.refl m
    · refine .bind (addPublishersAndPropagate_noValues sender tags addresses machines _) fun r h => ?_
      split
      · exact h
      · exact h.trans (atNeighbor_noValues (f := (·.requestAnswered env)) (fun e => .of_eq rfl rfl rfl) sender.id)
  | getPublishers tags needed ignoreCache =>
    dsimp only
    split
    · exact NoValues.refl m
    · exact .bind (handleGetPublishers_noValues sender tags needed ignoreCache) fun _ h => h
  | joinReduceGroup reduceTag tagProduced =>
    dsimp only
    split
    · exact NoValues.refl m
    · exact handleJoinReduceGroup_noValues sender reduceTag tagProduced
  | submitReduceValue reduceTag tag value version =>
    dsimp only
    split
    · exact NoValues.refl m
    · refine .bind (P := fun r : Bool × Manager V => NoValues m r.2) ?_ fun r h => h
      unfold handleReduceValue
      split
      · split
        · trivial
        · exact .bind (updateGroup_noValues _ _ _ _) fun _ h => h
      · exact NoValues.refl m
  | reportReduceDisconnection reduceTag machine id =>
    dsimp only
    split
    · exact NoValues.refl m
    · refine .bind (P := fun r : Bool × Manager V => NoValues m r.2) ?_ fun r h => h
      unfold handleReportReduceDisconnection
      split
      · exact NoValues.refl m
      · exact .bind (updateGroup_noValues _ _ _ _) fun _ h => h
  | publishData tag value version => cases hd
  | subscriptionNotice tags isUnsubscribe => cases hn

end Manager

end Skywing.L3
