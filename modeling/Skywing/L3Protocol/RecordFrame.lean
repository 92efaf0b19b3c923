import Skywing.L3Protocol.SearchFrame

/-!
# Records that stand

Between a greeting and its removal the record of a neighbour keeps its place,
its id, its sockets and its port (`Standing`), and nothing but reading from it
or a heartbeat moves `last_heard_`. `Binds m m'` says that on the way from `m`
to `m'` every record stands, no address was entered or removed, no tag was
released, and tags were bound to records there are. Each operation but a
greeting, a message arriving, a heartbeat and a removal is such.

Results:
* `handleMessage_binds`, `initConnections_binds`, `processConn_binds`, … : the
  operations of a manager.
* `handleGreeting_binds`: a greeting is such once the record is there.
* `removeNeighbor_sends`: before the record leaves, a removal only sends.
-/
namespace Skywing.L3

open L1.Text

/-- The same record, nothing read from it. -/
structure ExternalManager.Standing {V : Type} (e e' : ExternalManager V) : Prop where
  ptr : e'.ptr = e.ptr
  id : e'.id = e.id
  conns : e'.conns = e.conns
  port : e'.port = e.port
  lastHeard : e'.lastHeard = e.lastHeard

namespace ExternalManager

variable {V : Type} {e e' e'' : ExternalManager V}

theorem Standing.refl (e : ExternalManager V) : Standing e e := ⟨rfl, rfl, rfl, rfl, rfl⟩

theorem Standing.trans (h : Standing e e') (h' : Standing e' e'') : Standing e e'' where
  ptr := h'.ptr.trans h.ptr
  id := h'.id.trans h.id
  conns := h'.conns.trans h.conns
  port := h'.port.trans h.port
  lastHeard := h'.lastHeard.trans h.lastHeard

theorem sendMessage_standing (env : Env) (msg : Message V) (e : ExternalManager V) :
    Standing e (e.sendMessage env msg) := by
  rcases sendMessage_cases env e msg with ⟨d, hd⟩ | hs
  · rw [hd]
    exact ⟨rfl, rfl, rfl, rfl, rfl⟩
  · rw [hs]
    exact ⟨rfl, rfl, rfl, rfl, rfl⟩

theorem findPublishersForTags_standing (env : Env) (tags : List TagID) (needed : List UInt8)
    (e : ExternalManager V) : Standing e (e.findPublishersForTags env tags needed) := by
  unfold findPublishersForTags
  split
  · exact .refl e
  · obtain ⟨h₁, h₂, h₃, h₄, h₅⟩ := sendMessage_standing env (.getPublishers tags needed e.ignoreCacheOnNextRequest) e
    exact ⟨h₁, h₂, h₃, h₄, h₅⟩

theorem resetBackoffCounter_standing (env : Env) (e : ExternalManager V) : Standing e (e.resetBackoffCounter env) :=
  ⟨rfl, rfl, rfl, rfl, rfl⟩

theorem increaseBackoffCounter_standing (env : Env) (e : ExternalManager V) :
    Standing e (e.increaseBackoffCounter env) := ⟨rfl, rfl, rfl, rfl, rfl⟩

theorem requestAnswered_standing (env : Env) (e : ExternalManager V) : Standing e (e.requestAnswered env) :=
  ⟨rfl, rfl, rfl, rfl, rfl⟩

theorem markAsDead_standing (e : ExternalManager V) : Standing e e.markAsDead := ⟨rfl, rfl, rfl, rfl, rfl⟩

theorem handleNewNeighbor_standing (id : MachineID) (e : ExternalManager V) : Standing e (e.handleNewNeighbor id) := by
  unfold handleNewNeighbor
  split
  · exact .refl e
  · exact ⟨rfl, rfl, rfl, rfl, rfl⟩

theorem handleRemoveNeighbor_standing (id : MachineID) (e : ExternalManager V) :
    Standing e (e.handleRemoveNeighbor id) := by
  unfold handleRemoveNeighbor
  dsimp only
  split
  · exact ⟨rfl, rfl, rfl, rfl, rfl⟩
  · exact .refl e

end ExternalManager

namespace Manager

open ExternalManager

variable {V : Type} {m m₁ m₂ : Manager V} {env : Env}

/-- A record that a pointer points to. -/
def Points (m : Manager V) (ptr : Nat) : Prop := ∃ id e, m.neighbors.lookup id = some e ∧ e.ptr = ptr

structure Binds (m m' : Manager V) : Prop where
  nextPtr : m'.nextPtr = m.nextPtr
  addrToMachine : m'.addrToMachine = m.addrToMachine
  bound : ∀ tag ptr, m'.tagToMachine.lookup tag = some ptr → m.tagToMachine.lookup tag = some ptr ∨ m.Points ptr
  kept : ∀ tag ∈ m.tagToMachine, tag ∈ m'.tagToMachine
  neighbors : Via Standing m m'

theorem Points.via (h : Via Standing m m₁) (ptr : Nat) : m₁.Points ptr ↔ m.Points ptr := by
  constructor
  · intro hex
    obtain ⟨id, e', he', hptr⟩ := hex
    obtain ⟨e, he, hs⟩ := h.of_lookup he'
    exact ⟨id, e, he, hs.ptr ▸ hptr⟩
  · intro hex
    obtain ⟨id, e, he, hptr⟩ := hex
    rcases h.lookup id with ⟨hnone, -⟩ | ⟨e₁, e', h₁, h', hs⟩
    · rw [he] at hnone
      cases hnone
    · rw [he] at h₁
      cases h₁
      exact ⟨id, e', h', hs.ptr.trans hptr⟩

/-- Nothing but messages to neighbours and the work of a group. -/
structure Sends (m m' : Manager V) : Prop where
  nextPtr : m'.nextPtr = m.nextPtr
  jobs : m'.jobs = m.jobs
  pendingTags : m'.pendingTags = m.pendingTags
  addrToMachine : m'.addrToMachine = m.addrToMachine
  tagToMachine : m'.tagToMachine = m.tagToMachine
  neighbors : Via Standing m m'

namespace Sends

theorem of_group (m : Manager V) (data : AList fun _ : TagID => ReduceGroupData V) :
    Sends m { m with reduceTagData := data } := ⟨rfl, rfl, rfl, rfl, rfl, .of_eq .refl rfl⟩

theorem refl (m : Manager V) : Sends m m := of_group m m.reduceTagData

theorem trans (h : Sends m m₁) (h' : Sends m₁ m₂) : Sends m m₂ where
  nextPtr := h'.nextPtr.trans h.nextPtr
  jobs := h'.jobs.trans h.jobs
  pendingTags := h'.pendingTags.trans h.pendingTags
  addrToMachine := h'.addrToMachine.trans h.addrToMachine
  tagToMachine := h'.tagToMachine.trans h.tagToMachine
  neighbors := h.neighbors.trans (fun _ _ _ => Standing.trans) h'.neighbors

theorem foldlM {α : Type} {f : Manager V → α → Except Abort (Manager V)}
    (hf : ∀ m a, (f m a).Ends (Sends m) fun _ => True) (l : List α) (m : Manager V) :
    (l.foldlM f m).Ends (Sends m) fun _ => True :=
  .foldlM (I := fun _ => Sends m) (refl m) fun a _ m₁ _ h =>
    (hf m₁ a).mono (fun _ h' => h.trans h') fun _ _ => trivial

end Sends

namespace Binds

/-- The tags and the addresses are as they were. -/
theorem of_via (hx : m₁.nextPtr = m.nextPtr) (ha : m₁.addrToMachine = m.addrToMachine)
    (ht : m₁.tagToMachine = m.tagToMachine) (hn : Via Standing m m₁) : Binds m m₁ :=
  ⟨hx, ha, fun _ _ h => .inl (ht ▸ h), fun _ h => ht ▸ h, hn⟩

theorem of_eq (hx : m₁.nextPtr = m.nextPtr) (ha : m₁.addrToMachine = m.addrToMachine)
    (ht : m₁.tagToMachine = m.tagToMachine) (hn : m₁.neighbors = m.neighbors) : Binds m m₁ :=
  of_via hx ha ht (.of_eq .refl hn)

theorem refl (m : Manager V) : Binds m m := of_eq rfl rfl rfl rfl

theorem trans (h : Binds m m₁) (h' : Binds m₁ m₂) : Binds m m₂ where
  nextPtr := h'.nextPtr.trans h.nextPtr
  addrToMachine := h'.addrToMachine.trans h.addrToMachine
  bound tag ptr hb := by
    rcases h'.bound tag ptr hb with hb | hp
    · exact h.bound tag ptr hb
    · exact .inr ((Points.via h.neighbors ptr).mp hp)
  kept tag ht := h'.kept tag (h.kept tag ht)
  neighbors := h.neighbors.trans (fun _ _ _ => Standing.trans) h'.neighbors

theorem of_sends (h : Sends m m₁) : Binds m m₁ := of_via h.nextPtr h.addrToMachine h.tagToMachine h.neighbors

/-- Something else changed before. -/
theorem from_same (h : Binds m₁ m₂) (hx : m₁.nextPtr = m.nextPtr) (ha : m₁.addrToMachine = m.addrToMachine)
    (ht : m₁.tagToMachine = m.tagToMachine) (hn : m₁.neighbors = m.neighbors) : Binds m m₂ :=
  (of_eq hx ha ht hn).trans h

theorem foldl {α : Type} {f : Manager V → α → Manager V} (hf : ∀ m a, Binds m (f m a)) (l : List α)
    (m : Manager V) : Binds m (l.foldl f m) := by
  induction l generalizing m with
  | nil => exact refl m
  | cons a l ih => exact (hf m a).trans (ih _)

theorem foldlM {α : Type} {f : Manager V → α → Except Abort (Manager V)}
    (hf : ∀ m a, (f m a).Ends (Binds m) fun _ => True) (l : List α) (m : Manager V) :
    (l.foldlM f m).Ends (Binds m) fun _ => True :=
  .foldlM (I := fun _ => Binds m) (refl m) fun a _ m₁ _ h =>
    (hf m₁ a).mono (fun _ h' => h.trans h') fun _ _ => trivial

end Binds

/-! ## Sending -/

theorem mapNeighbors_sends {f : ExternalManager V → ExternalManager V} (hf : ∀ e, Standing e (f e)) :
    Sends m (m.mapNeighbors f) := ⟨rfl, rfl, rfl, rfl, rfl, fun _ => f, fun _ => hf, rfl⟩

theorem atNeighbor_sends {f : ExternalManager V → ExternalManager V} (hf : ∀ e, Standing e (f e))
    (id : MachineID) : Sends m (m.atNeighbor id f) := by
  refine ⟨rfl, rfl, rfl, rfl, rfl, fun key e => if key = id then f e else e, fun key e => ?_, rfl⟩
  dsimp only
  split
  · exact hf e
  · exact .refl e

theorem mapNeighbors_binds {f : ExternalManager V → ExternalManager V} (hf : ∀ e, Standing e (f e)) :
    Binds m (m.mapNeighbors f) := .of_sends (mapNeighbors_sends hf)

theorem atNeighbor_binds {f : ExternalManager V → ExternalManager V} (hf : ∀ e, Standing e (f e))
    (id : MachineID) : Binds m (m.atNeighbor id f) := .of_sends (atNeighbor_sends hf id)

theorem atPtr_binds {f : ExternalManager V → ExternalManager V} (hf : ∀ e, Standing e (f e)) (ptr : Nat) :
    Binds m (m.atPtr ptr f) := by
  apply mapNeighbors_binds
  intro e
  split
  · exact hf e
  · exact .refl e

theorem sendToNeighborsIf_sends (msg : Message V) (condition : ExternalManager V → Bool) :
    Sends m (m.sendToNeighborsIf env msg condition) := by
  apply mapNeighbors_sends
  intro e
  split
  · exact sendMessage_standing env msg e
  · exact .refl e

/-! ## The search for publishers -/

theorem askNeighbors_binds (tags : List TagID) : Binds m (m.askNeighbors env tags) :=
  mapNeighbors_binds fun e => (resetBackoffCounter_standing env e).trans (findPublishersForTags_standing env _ _ _)

theorem findPublishers_binds (force : Bool) : Binds m (m.findPublishersForPendingTags env force) := by
  unfold findPublishersForPendingTags
  split
  · exact askNeighbors_binds _
  · dsimp only
    split
    · exact .refl m
    · apply mapNeighbors_binds
      intro e
      split
      · exact (increaseBackoffCounter_standing env e).trans (findPublishersForTags_standing env _ _ _)
      · exact .refl e

theorem sendKnownPublishers_binds (env : Env) (id : MachineID) (m : Manager V) :
    Binds m (m.sendKnownPublishers env id) := atNeighbor_binds (sendMessage_standing env _) id

theorem handleGetPublishers_binds (sender : ExternalManager V) (tags : List TagID) (needed : List UInt8)
    (ignoreCache : Bool) :
    (m.handleGetPublishers env sender tags needed ignoreCache).Ends (Binds m) fun _ => True := by
  unfold handleGetPublishers
  refine .bind (.any _) fun remaining _ => ?_
  have hc : Binds m (m.markInCache ignoreCache (remaining.map (·.1))) := .of_eq rfl rfl rfl rfl
  have hp : Binds m ((m.markInCache ignoreCache (remaining.map (·.1))).markPropagation sender.id
      (remaining.map (·.1))) := .of_eq rfl rfl rfl rfl
  dsimp only
  split
  · exact sendKnownPublishers_binds env _ m
  split
  · exact hc.trans (sendKnownPublishers_binds env _ _)
  split
  · exact (hp.trans (sendKnownPublishers_binds env sender.id _)).trans (.of_eq rfl rfl rfl rfl)
  · refine hp.trans (mapNeighbors_binds fun e => ?_)
    split
    · exact (resetBackoffCounter_standing env e).trans (findPublishersForTags_standing env _ _ _)
    · exact .refl e

theorem addPublishersAndPropagate_binds (sender : ExternalManager V) (tags : List TagID)
    (addresses : List (List Str)) (machines : List (List MachineID)) (localTags : List TagID) :
    (m.addPublishersAndPropagate env sender tags addresses machines localTags).Ends (fun r => Binds m r.1)
      fun _ => True := by
  unfold addPublishersAndPropagate
  split
  · exact Binds.refl m
  · refine .bind (Binds.foldlM (fun m entry => ?_) _ m) fun m₁ h₁ => ?_
    · unfold addReported
      split
      · trivial
      · exact Binds.of_eq rfl rfl rfl rfl
    · have h₂ : Binds m₁ (localTags.foldl
          (fun m tag => m.addPublishers [⟨sender.address env (.publisher tag), sender.id⟩] tag) m₁) :=
        .foldl (f := fun m tag => m.addPublishers _ tag) (fun m tag => .of_eq rfl rfl rfl rfl) _ m₁
      have h₃ (m : Manager V) : Binds m (m.propagate env) :=
        (Binds.foldl (fun m id => sendKnownPublishers_binds env id m) _ _).from_same rfl rfl rfl rfl
      exact (h₁.trans h₂).trans (h₃ _)

/-! ## Reduce groups -/

theorem reduceSend_sends (machines : List MachineID) (msg : Message V) (m : Manager V) :
    Sends m (m.reduceSendDataAndRemoveMissing env machines msg).2 := by
  show Sends m (machines.foldl _ m)
  induction machines generalizing m with
  | nil => exact .refl m
  | cons id machines ih => exact (atNeighbor_sends (sendMessage_standing env msg) id).trans (ih _)

theorem sendToParents_sends (groupId : TagID) (data : ReduceGroupData V) (msg : Message V) (m : Manager V) :
    Sends m (m.sendToParents env groupId data msg).2 :=
  (reduceSend_sends data.parentMachines msg m).trans (.of_group _ _)

theorem sendToChildren_sends (groupId : TagID) (data : ReduceGroupData V) (msg : Message V) (m : Manager V) :
    Sends m (m.sendToChildren env groupId data msg).2 :=
  ((reduceSend_sends (data.childMachines 0) msg m).trans (reduceSend_sends (data.childMachines 1) msg _)).trans
    (.of_group _ _)

theorem performSend_sends (groupId : TagID) (m : Manager V) (send : Send V) :
    (performSend env groupId m send).Ends (Sends m) fun _ => True := by
  unfold performSend
  split
  · trivial
  · cases send with
    | toParent value version seq => exact sendToParents_sends _ _ _ m
    | toChildren value version => exact sendToChildren_sends _ _ _ m
    | disconnection machine id => exact (sendToParents_sends _ _ _ m).trans (sendToChildren_sends _ _ _ _)
    | result value version seq => exact Sends.refl m

theorem updateGroup_sends (groupId : TagID) (group : ReduceGroup V) (sends : List (Send V)) :
    (m.updateGroup env groupId group sends).Ends (Sends m) fun _ => True := by
  unfold updateGroup
  split
  · trivial
  · exact (Sends.foldlM (performSend_sends groupId) sends _).mono (fun _ h => (Sends.of_group m _).trans h)
      fun _ _ => trivial

theorem updateGroup_binds (groupId : TagID) (group : ReduceGroup V) (sends : List (Send V)) :
    (m.updateGroup env groupId group sends).Ends (Binds m) fun _ => True :=
  (updateGroup_sends groupId group sends).mono (fun _ => .of_sends) fun _ _ => trivial

theorem leaveGroups_sends (id : MachineID) (m : Manager V) :
    (m.leaveGroups env id).Ends (Sends m) fun _ => True := by
  refine Sends.foldlM (fun m e => Sends.foldlM (fun m i => ?_) _ m) _ m
  unfold leaveList
  split
  · trivial
  · split
    · exact (updateGroup_sends _ _ _).mono (fun _ h => (Sends.of_group m _).trans h) fun _ _ => trivial
    · exact Sends.refl m

/-! ## Calls from jobs -/

theorem subscribe_binds (tagIds : List TagID) : Binds m (m.subscribe env tagIds) := by
  have hw : Binds m (m.queueWanted tagIds) := by
    refine .foldl (fun m tag => ?_) tagIds m
    split
    · exact .of_eq rfl rfl rfl rfl
    · exact .refl m
  have hq : Binds m { m.queueWanted tagIds with subscribed := m.subscribed ++ tagIds } :=
    hw.trans (.of_eq rfl rfl rfl rfl)
  unfold subscribe
  dsimp only
  split
  · exact hq
  · exact hq.trans (askNeighbors_binds tagIds)

theorem ipSubscribe_binds (addr : AddrPort) (tagIds : List TagID) :
    (m.ipSubscribe env addr tagIds).Ends (Binds m) fun _ => True := by
  unfold ipSubscribe
  refine .bind (.any _) fun canonical _ => .bind (.any _) fun a _ => .bind (.any _) fun b _ => ?_
  split
  · refine Binds.foldlM (fun m' tag => ?_) tagIds m
    split
    · exact Binds.of_eq rfl rfl rfl rfl
    · trivial
  · split
    · exact .bind (.any _) fun e _ => atPtr_binds (sendMessage_standing env _) e.ptr
    · split
      · trivial
      · exact .bind (.any _) fun _ _ => Binds.of_eq rfl rfl rfl rfl

theorem connectToServer_binds (addr : AddrPort) : (m.connectToServer env addr).Ends (Binds m) fun _ => True := by
  unfold connectToServer
  refine .bind (.any _) fun canonical _ => ?_
  split
  · exact Binds.refl m
  · exact .bind (.any _) fun _ _ => Binds.of_eq rfl rfl rfl rfl

theorem reportNewPublishTags_binds (tags : List TagID) :
    (m.reportNewPublishTags tags).Ends (Binds m) fun _ => True := by
  refine Binds.foldlM (fun m' tag => ?_) tags m
  split
  · trivial
  · exact Binds.of_eq rfl rfl rfl rfl

theorem queueParentTag_binds (parentTag : TagID) : Binds m (m.queueParentTag env parentTag) :=
  (askNeighbors_binds [parentTag]).from_same rfl rfl rfl rfl

theorem createReduceGroup_binds (group : ReduceGroup V) :
    (m.createReduceGroup env group).Ends (Binds m) fun _ => True := by
  unfold createReduceGroup
  split
  · trivial
  dsimp only
  split
  · trivial
  · show Binds m _
    split
    · exact .of_eq rfl rfl rfl rfl
    · exact (queueParentTag_binds _).from_same rfl rfl rfl rfl

theorem rebuildReduceGroup_binds (groupId : TagID) :
    (m.rebuildReduceGroup env groupId).Ends (Binds m) fun _ => True := by
  unfold rebuildReduceGroup
  split
  · trivial
  · show Binds m _
    split
    · exact queueParentTag_binds _
    · exact .refl m

/-! ## Finalising tags -/

/-- The tags of a list are bound to a record. -/
theorem lookup_bindAll (source : Nat) : ∀ (tags : List TagID) (bound : AList fun _ : TagID => Nat) (tag : TagID),
    (tags.foldl (fun bound tag => bound.insert tag source) bound).lookup tag =
      if tag ∈ tags then some source else bound.lookup tag
  | [], _, _ => rfl
  | t :: tags, bound, tag => by
    rw [List.foldl_cons, lookup_bindAll source tags]
    by_cases ht : tag ∈ tags
    · rw [if_pos ht, if_pos (List.mem_cons_of_mem t ht)]
    · rw [if_neg ht]
      by_cases hte : tag = t
      · subst hte
        rw [AList.lookup_insert, if_pos List.mem_cons_self]
      · rw [AList.lookup_insert_ne hte, if_neg (by simp [hte, ht])]

theorem finalizeSubscription_binds (tags : Str) {source : Nat} (h : m.Points source) :
    Binds m (m.finalizeSubscription env tags source) := by
  have hlookup (tag : TagID) : (m.finalizeSubscription env tags source).tagToMachine.lookup tag =
      if tag ∈ split tags nul 0 then some source else m.tagToMachine.lookup tag := lookup_bindAll source _ _ tag
  have hn : Via Standing m (m.finalizeSubscription env tags source) :=
    (atPtr_binds (m := m) (sendMessage_standing env _) source).neighbors
  refine ⟨rfl, rfl, fun tag ptr hb => ?_, fun tag ht => ?_, hn⟩
  · rw [hlookup] at hb
    split at hb
    · cases hb
      exact .inr h
    · exact .inl hb
  · rw [← AList.lookup_isSome, hlookup]
    split
    · rfl
    · exact AList.lookup_isSome.mpr ht

theorem finalizeParentTag_binds (id : MachineID) (m : Manager V) (tag : TagID) :
    (finalizeParentTag env id m tag).Ends (Binds m) fun _ => True := by
  unfold finalizeParentTag
  refine .bind (.any _) fun e _ => .bind (P := Binds m) ?_ fun m₁ h => h.trans (.of_eq rfl rfl rfl rfl)
  unfold finalizeReduceGroup
  split
  · trivial
  · split
    · exact (atNeighbor_binds (sendMessage_standing env _) id).from_same rfl rfl rfl rfl
    · trivial

theorem finalizeParentTags_binds (id : MachineID) (tags : Str) :
    (m.finalizeParentTags env id tags).Ends (Binds m) fun _ => True :=
  Binds.foldlM (finalizeParentTag_binds id) _ m

/-! ## Connections -/

theorem initTag_binds (s : InitLoop V) (tag : TagID) :
    (initTag env s tag).Ends (fun s' => Binds s.m s'.m) fun _ => True := by
  unfold initTag
  cases hr : s.m.route env tag with
  | error a => trivial
  | ok r =>
    rw [Except.ok_bind]
    cases r with
    | selfProduced => exact Binds.of_eq rfl rfl rfl rfl
    | keep => exact Binds.refl _
    | connect address => exact Binds.refl _
    | finalize ptr id =>
      obtain ⟨key, e, he, hptr, -⟩ := route_finalize hr
      refine .bind (P := Binds s.m) ?_ fun m₁ h => h
      unfold finalizePending
      split
      · exact finalizeSubscription_binds tag ⟨key, e, he, hptr⟩
      · exact finalizeParentTags_binds id tag

theorem insertPending_binds : ∀ (tries : Nat) (key : AddrPort) (info : PendingInfo) (m : Manager V),
    (m.insertPending tries key info).Ends (Binds m) fun _ => True
  | 0, _, _, _ => trivial
  | tries + 1, (host, port), info, m => by
    unfold insertPending
    split
    · exact insertPending_binds tries _ _ m
    · exact Binds.of_eq rfl rfl rfl rfl

theorem initConnections_binds : (m.initConnections env).Ends (Binds m) fun _ => True := by
  unfold initConnections
  refine .bind (P := fun s : InitLoop V => Binds m s.m) ?_ fun s hs => ?_
  · exact .foldlM (I := fun _ (s : InitLoop V) => Binds m s.m) (Binds.refl m) fun tag _ s _ h =>
      (initTag_binds s tag).mono (fun _ h' => h.trans h') fun _ _ => trivial
  · refine .bind (P := Binds s.m) (Binds.foldlM (fun m e => ?_) _ _) fun m₁ h₁ => ?_
    · unfold startConnection
      refine .bind (.any _) fun err _ => ?_
      split
      · exact insertPending_binds _ _ _ m
      · exact Binds.refl m
    · exact (hs.trans h₁).trans (.of_eq rfl rfl rfl rfl)

theorem acceptConnection_binds : ∀ (tries : Nat) (addr : AddrPort) (m : Manager V),
    (m.acceptConnection tries addr).Ends (Binds m) fun _ => True
  | 0, _, _ => trivial
  | tries + 1, (address, port), m => by
    unfold acceptConnection
    split
    · exact acceptConnection_binds tries _ m
    · exact Binds.of_eq rfl rfl rfl rfl

theorem handleTag_binds (pubTag baseTag : TagID) (m : Manager V) :
    (m.handleTag pubTag baseTag).Ends (Binds m) fun _ => True := by
  unfold handleTag
  split
  · trivial
  · dsimp only
    split
    · have hm : Binds m (m.mapNeighbors fun e => { e with ignoreCacheOnNextRequest := true }) :=
        mapNeighbors_binds fun _ => ⟨rfl, rfl, rfl, rfl, rfl⟩
      exact hm.trans (.of_eq rfl rfl rfl rfl)
    · exact Binds.of_eq rfl rfl rfl rfl

theorem dropConnection_binds (key : AddrPort) (info : PendingInfo) :
    (m.dropConnection env key info).Ends (fun r => Binds m r.1) fun _ => True := by
  unfold dropConnection
  refine .bind (P := fun r => Binds m r.1) ?_ fun r hr => hr.trans (.of_eq rfl rfl rfl rfl)
  unfold handleError
  split
  · exact Binds.refl m
  · exact Binds.refl m
  · exact Binds.refl m
  · exact .bind (Binds.foldlM (fun m' tag => handleTag_binds tag tag m') _ m) fun m' h' => h'
  · refine .bind (Binds.foldlM (fun m' tag => ?_) _ m) fun m' h' => h'
    exact .bind (.any _) fun e _ => handleTag_binds _ tag m'

/-- The record of a greeting is there. -/
theorem greet_points (sender : MachineID) (neighbors : List MachineID) (port : UInt16) (ip : Str) (m : Manager V) :
    (m.greet env sender neighbors port ip).2.Points (m.greet env sender neighbors port ip).1.ptr := by
  cases he : m.neighbors.lookup sender with
  | some e =>
    rw [greet, he]
    refine ⟨sender, e.addCommunicator ip, ?_, rfl⟩
    rw [lookup_atNeighbor, he]
    exact congrArg some (if_pos rfl)
  | none =>
    rw [greet, he]
    exact ⟨sender, _, AList.lookup_insert _, rfl⟩

/-- A greeting binds once the record is there. -/
theorem handleGreeting_binds (key : AddrPort) (info : PendingInfo) (sender : MachineID)
    (neighbors : List MachineID) (port : UInt16) (ip : Str) (m : Manager V)
    (h : (m.greet env sender neighbors port ip).2.Points (m.greet env sender neighbors port ip).1.ptr) :
    (m.handleGreeting env key info sender neighbors port ip).Ends
      (Binds (m.greet env sender neighbors port ip).2) fun _ => True := by
  unfold handleGreeting
  generalize m.greet env sender neighbors port ip = g at h ⊢
  obtain ⟨e, m₀⟩ := g
  dsimp only at h ⊢
  refine .bind (P := fun r => ∀ m', r = some m' → Binds m₀ m') ?_ fun r hr => ?_
  · unfold finalizeConnection
    split
    · exact fun m' h => Option.some.inj h ▸ .refl m₀
    · exact fun m' h => Option.some.inj h ▸ .refl m₀
    · exact .bind (finalizeParentTags_binds e.id info.tag) fun m₁ h₁ m' hm => Option.some.inj hm ▸ h₁
    · exact fun m' hm => Option.some.inj hm ▸ finalizeSubscription_binds info.tag h
    · split
      · refine Except.Ends.pure fun m' hm => ?_
        split at hm
        · cases hm
        · exact Option.some.inj hm ▸ finalizeSubscription_binds _ h
      · trivial
  · cases r with
    | none => exact (atPtr_binds (m := m₀) markAsDead_standing e.ptr).trans (.of_eq rfl rfl rfl rfl)
    | some m₁ =>
      have h₁ : Binds m₁ (m₁.notifyOfNewNeighbor env sender) := .of_sends (sendToNeighborsIf_sends _ _)
      exact ((hr m₁ rfl).trans (h₁.trans (findPublishers_binds false))).trans (.of_eq rfl rfl rfl rfl)

theorem processConn_binds (key : AddrPort) (info : PendingInfo) {event : ConnEvent V}
    (hne : ∀ sender neighbors port ip, event ≠ .message (.greeting sender neighbors port) ip) :
    (m.processConn env key info event).Ends (fun r => Binds m r.1) fun _ => True := by
  unfold processConn
  split
  · exact Binds.refl m
  · split
    · exact Binds.of_eq rfl rfl rfl rfl
    · exact Binds.of_eq rfl rfl rfl rfl
  · exact dropConnection_binds key info
  · exact dropConnection_binds key info
  · exact dropConnection_binds key info
  · exact absurd rfl (hne _ _ _ _)
  · exact dropConnection_binds key info

/-! ## Neighbours that leave -/

theorem tagsOf_nodup (env : Env) (m : Manager V) (ptr : Nat) : (m.tagsOf env ptr).Nodup := by
  have hnd : (env.order m.tagToMachine.entries).NodupKeys :=
    (List.perm_nodupKeys (env.order_perm _)).mpr m.tagToMachine.nodupKeys
  exact hnd.sublist List.filter_sublist

theorem mem_tagsOf {ptr : Nat} {tag : TagID} :
    tag ∈ m.tagsOf env ptr ↔ m.tagToMachine.lookup tag = some ptr := by
  unfold tagsOf
  simp only [List.mem_map, List.mem_filter, Env.mem_order, decide_eq_true_eq]
  constructor
  · intro hex
    obtain ⟨⟨t, p⟩, ⟨hm, rfl⟩, rfl⟩ := hex
    exact AList.mem_entries_iff.mp hm
  · intro h
    exact ⟨⟨tag, ptr⟩, ⟨AList.mem_entries_iff.mpr h, rfl⟩, rfl⟩

/-- What a removal does, after the others and the groups were told. -/
theorem removeNeighbor_sends (id : MachineID) (m : Manager V) :
    (m.removeNeighbor env id).Ends (fun r => r.1 = m ∨
      ∃ e m₁, m.neighbors.lookup id = some e ∧ Sends m m₁ ∧ r.1 = { m₁ with
        addrToMachine := m₁.addrToMachine.eraseVal (· = e.ptr)
        tagToMachine := m₁.tagToMachine.eraseVal (· = e.ptr)
        jobs := m₁.jobs.mapVal fun _ job => (m₁.tagsOf env e.ptr).foldl Job.markTagAsDead job
        pendingTags := m₁.pendingTags ++ m₁.tagsOf env e.ptr
        neighbors := m₁.neighbors.erase id
        removed := m₁.removed ++ [e] }) fun _ => True := by
  unfold removeNeighbor
  split
  · exact .inl rfl
  · rename_i e he
    split
    · exact .inl rfl
    · have hs : Sends m (m.sendToNeighbors env (.removeNeighbor id)) := sendToNeighborsIf_sends _ _
      exact .bind ((leaveGroups_sends id _).mono (fun _ h => hs.trans h) fun _ _ => trivial)
        fun m₁ h₁ => .inr ⟨e, m₁, he, h₁, rfl⟩

/-! ## Messages -/

theorem handleJoinReduceGroup_binds (sender : ExternalManager V) (reduceTag tagProduced : TagID) :
    Binds m (m.handleJoinReduceGroup sender reduceTag tagProduced).2 := by
  unfold handleJoinReduceGroup
  split
  · exact .refl m
  · dsimp only
    split
    · split <;> exact .of_eq rfl rfl rfl rfl
    · split
      · split <;> exact .of_eq rfl rfl rfl rfl
      · exact .refl m

variable [Typed V]

theorem handlePublishData_binds (tag : TagID) (value : Option V) (version : VersionID) :
    (m.handlePublishData env tag value version).Ends (fun r => Binds m r.2) fun _ => True := by
  unfold handlePublishData
  split
  · exact Binds.refl m
  · refine .foldlM (I := fun _ (r : Bool × Manager V) => Binds m r.2) (Binds.refl m) fun e _ s _ h => ?_
    unfold processData
    split
    · trivial
    · exact h.trans (.of_eq rfl rfl rfl rfl)

theorem handleMessage_binds (sender : ExternalManager V) (msg : Message V) :
    (m.handleMessage env sender msg).Ends (fun r => Binds m r.2) fun _ => True := by
  unfold handleMessage
  cases msg with
  | greeting sender neighbors port => exact Binds.refl m
  | goodbye => exact atNeighbor_binds markAsDead_standing sender.id
  | heartbeat => exact Binds.refl m
  | newNeighbor id => exact atNeighbor_binds (handleNewNeighbor_standing id) sender.id
  | removeNeighbor id => exact atNeighbor_binds (handleRemoveNeighbor_standing id) sender.id
  | reportPublishers tags addresses machines localTags =>
    dsimp only
    split
    · exact Binds.refl m
    · refine .bind (addPublishersAndPropagate_binds sender tags addresses machines _) fun r h => ?_
      split
      · exact h
      · exact h.trans (atNeighbor_binds (requestAnswered_standing env) sender.id)
  | getPublishers tags needed ignoreCache =>
    dsimp only
    split
    · exact Binds.refl m
    · exact .bind (handleGetPublishers_binds sender tags needed ignoreCache) fun _ h => h
  | joinReduceGroup reduceTag tagProduced =>
    dsimp only
    split
    · exact Binds.refl m
    · exact handleJoinReduceGroup_binds sender reduceTag tagProduced
  | submitReduceValue reduceTag tag value version =>
    dsimp only
    split
    · exact Binds.refl m
    · refine .bind (P := fun r : Bool × Manager V => Binds m r.2) ?_ fun r h => h
      unfold handleReduceValue
      split
      · split
        · trivial
        · exact .bind (updateGroup_binds _ _ _) fun _ h => h
      · exact Binds.refl m
  | reportReduceDisconnection reduceTag machine id =>
    dsimp only
    split
    · exact Binds.refl m
    · refine .bind (P := fun r : Bool × Manager V => Binds m r.2) ?_ fun r h => h
      unfold handleReportReduceDisconnection
      split
      · exact Binds.refl m
      · exact .bind (updateGroup_binds _ _ _) fun _ h => h
  | publishData tag value version =>
    dsimp only
    split
    · exact Binds.refl m
    · exact .bind (handlePublishData_binds tag value version) fun r h => h
  | subscriptionNotice tags isUnsubscribe =>
    show Binds m (m.atNeighbor sender.id _)
    refine atNeighbor_binds (fun e => ?_) sender.id
    exact ⟨rfl, rfl, rfl, rfl, rfl⟩

theorem publish_binds (version : VersionID) (tag : TagID) (value : V) :
    (m.publish env version tag value).Ends (Binds m) fun _ => True := by
  unfold publish
  refine .bind (P := fun r : Bool × Manager V => Binds m r.2) ?_ fun r h =>
    h.trans (.of_sends (sendToNeighborsIf_sends _ _))
  refine .foldlM (I := fun _ (r : Bool × Manager V) => Binds m r.2) (Binds.refl m) fun e _ s _ h => ?_
  unfold processData
  split
  · trivial
  · exact h.trans (.of_eq rfl rfl rfl rfl)

end Manager

end Skywing.L3
