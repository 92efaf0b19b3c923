import Skywing.L3Protocol.TagFrame
import Skywing.L4App.MainLoop

/-!
# The machines of a reduce group (`skywing_core/manager.cpp`)

`parent_machines` and `child_machines` list the neighbours that a value of
the group is sent to. A machine enters a list with a join message or when the
manager joins it, and leaves it when it dies: `std::find` and one `erase`.
With a machine twice in a list every value goes to it twice, and one entry
stays behind when it is gone.

The check against a second join looks for the tag among the machine ids, and
`finalize_reduce_group` has no check.

Results:
* `clean_of_new`: in a run in which no machine joins a list it is in already,
  and no parent machine is finalised twice for a group, every list has each
  machine once, and only neighbours.
* `not_clean`: a machine that joins twice leaves itself behind when it dies.
-/
namespace Skywing.L4.GroupMembers

open L1.Text L2.Socket L3
open L3.Manager (Via SameId Shrinks Plain Searches ConnEvent InitLoop machineList setMachineList
  machineList_setMachineList finalizeParentTag initTag findPublishers_searches askNeighbors_searches)

variable {V : Type}

/-! ## Clean lists -/

/-- Every list of every group names each machine once, and only neighbours. -/
def Clean (m : Manager V) : Prop :=
  ∀ g data, m.reduceTagData.lookup g = some data →
    ∀ i, (machineList data i).Nodup ∧ ∀ id ∈ machineList data i, id ∈ m.neighbors

structure Good (m : Manager V) : Prop where
  keyed : m.Keyed
  clean : Clean m

/-- The lists have only lost machines, the neighbours are the same. -/
structure Members (m m' : Manager V) : Prop where
  shrinks : Shrinks m m'
  neighbors : Via SameId m m'

namespace Members

variable {m m₁ m₂ : Manager V}

theorem of_eq (hg : m₁.reduceTagData = m.reduceTagData) (hn : m₁.neighbors = m.neighbors) : Members m m₁ :=
  ⟨.of_eq hg, .of_eq SameId.refl hn⟩

theorem refl (m : Manager V) : Members m m := of_eq rfl rfl

theorem trans (h : Members m m₁) (h' : Members m₁ m₂) : Members m m₂ :=
  ⟨h.shrinks.trans h'.shrinks, h.neighbors.trans SameId.trans h'.neighbors⟩

theorem of_plain (h : Plain m m₁) : Members m m₁ :=
  ⟨h.shrinks, h.neighbors.mono fun _ _ hq => ⟨hq.ptr, hq.id⟩⟩

theorem of_searches (h : Searches m m₁) : Members m m₁ :=
  ⟨.of_eq h.reduceTagData, h.neighbors.mono fun _ _ hq => ⟨hq.ptr, hq.id⟩⟩

theorem mapNeighbors {f : ExternalManager V → ExternalManager V} (hf : ∀ e, SameId e (f e)) (m : Manager V) :
    Members m (m.mapNeighbors f) :=
  ⟨.of_eq rfl, fun _ => f, fun _ => hf, rfl⟩

theorem atNeighbor {f : ExternalManager V → ExternalManager V} (hf : ∀ e, SameId e (f e)) (m : Manager V)
    (id : MachineID) : Members m (m.atNeighbor id f) := by
  refine ⟨.of_eq rfl, _, fun key e => ?_, rfl⟩
  split
  · exact hf e
  · exact .refl e

theorem good (h : Members m m₁) (hm : Good m) : Good m₁ where
  keyed := hm.keyed.of_via h.neighbors fun _ _ hq => hq.2
  clean g data' hd' i := by
    obtain ⟨data, hd, hs⟩ := h.shrinks g data' hd'
    obtain ⟨hnd, hmem⟩ := hm.clean g data hd i
    exact ⟨hnd.sublist (hs i), fun id hid => (h.neighbors.mem id).mpr (hmem id ((hs i).subset hid))⟩

end Members

theorem Good.of_eq {m m₁ : Manager V} (hm : Good m) (hg : m₁.reduceTagData = m.reduceTagData)
    (hn : m₁.neighbors = m.neighbors) : Good m₁ :=
  (Members.of_eq hg hn).good hm

/-! ## Joining a group -/

/-- The child list that a join message is for. -/
def joinedList (data : ReduceGroupData V) (tagProduced : TagID) : Option (Fin 2) :=
  if tagProduced = data.group.tagNeighbors.leftChild then some 0
  else if tagProduced = data.group.tagNeighbors.rightChild then some 1
  else none

/-- The sender of a join message that is going to be added is not in the list
yet. -/
def joinIsNew (m : Manager V) (id : MachineID) : Message V → Bool
  | .joinReduceGroup reduceTag tagProduced =>
    !(tagNameOkay reduceTag && tagNameOkay tagProduced) ||
      match m.reduceTagData.lookup reduceTag with
      | none => true
      | some data =>
        match joinedList data tagProduced with
        | none => true
        | some i => (data.childMachines i).contains tagProduced || !(data.childMachines i).contains id
  | _ => true

/-- `finalize_reduce_group` is called for a group that does not have the
machine as a parent yet. -/
def finalizeIsNew (env : Env) (id : MachineID) (m : Manager V) (tag : TagID) : Bool :=
  match m.groupFromParentTag env tag with
  | .ok e => !e.2.parentMachines.contains id
  | .error _ => true

/-- … in each round of `finalizeParentTags`. -/
def finalizesAreNew (env : Env) (id : MachineID) : List TagID → Manager V → Bool
  | [], _ => true
  | tag :: tags, m =>
    finalizeIsNew env id m tag &&
      match finalizeParentTag env id m tag with
      | .ok m => finalizesAreNew env id tags m
      | .error _ => true

/-- … in each round of the loop over the pending tags. -/
def initIsNew (env : Env) : List TagID → InitLoop V → Bool
  | [], _ => true
  | tag :: tags, s =>
    (match s.m.route env tag with
      | .ok (.finalize _ id) =>
        marker tag == publishTagMarker || finalizesAreNew env id (split tag nul 0) s.m
      | _ => true) &&
      match initTag env s tag with
      | .ok s => initIsNew env tags s
      | .error _ => true

/-- … for a connection that is complete. -/
def connIsNew (env : Env) (info : PendingInfo) (event : ConnEvent V) (m : Manager V) : Bool :=
  match info.type, event with
  | .reduceGroup, .message (.greeting sender neighbors port) ip =>
    finalizesAreNew env (m.greet env sender neighbors port ip).1.id (split info.tag nul 0)
      (m.greet env sender neighbors port ip).2
  | _, _ => true

/-- No machine is put twice into a list. -/
def isNew : Sys V → Label V → Bool
  | .running (.messages (some id) _) m, .message msg _ => joinIsNew m id msg
  | .running _ m, .init env => initIsNew env m.pendingTags ⟨m, [], ∅⟩
  | .running (.conns (key :: _) _) m, .conn event env =>
    match m.pendingConns.lookup key with
    | some info => connIsNew env info event m
    | none => true
  | _, _ => true

/-! ## Lists that grow -/

variable {m m₁ : Manager V} {env : Env}

/-- New lists for one group. -/
theorem Good.setGroupData (hm : Good m) {g : TagID} {data : ReduceGroupData V}
    (h : ∀ i, (machineList data i).Nodup ∧ ∀ id ∈ machineList data i, id ∈ m.neighbors) :
    Good (m.setGroupData g data) where
  keyed := hm.keyed
  clean g' d hd := by
    by_cases he : g' = g
    · subst he
      rw [Manager.setGroupData, AList.lookup_insert] at hd
      cases hd
      exact h
    · rw [Manager.setGroupData, AList.lookup_insert_ne he] at hd
      exact hm.clean g' d hd

/-- One list of one group with one more machine. -/
theorem Good.addMachine (hm : Good m) {g : TagID} {data : ReduceGroupData V}
    (hd : m.reduceTagData.lookup g = some data) (i : Fin 3) {id : MachineID} (hid : id ∈ m.neighbors)
    (hnew : id ∉ machineList data i) :
    Good (m.setGroupData g (setMachineList data i (machineList data i ++ [id]))) := by
  apply hm.setGroupData
  intro j
  rw [machineList_setMachineList]
  split
  · obtain ⟨hnd, hmem⟩ := hm.clean g data hd i
    refine ⟨List.nodup_append.mpr ⟨hnd, List.nodup_singleton id, ?_⟩, ?_⟩
    · intro a ha b hb hab
      rw [List.mem_singleton.mp hb] at hab
      exact hnew (hab ▸ ha)
    · intro a ha
      rcases List.mem_append.mp ha with ha | ha
      · exact hmem a ha
      · rw [List.mem_singleton.mp ha]
        exact hid
  · exact hm.clean g data hd j

theorem setMachineList_succ (data : ReduceGroupData V) (i : Fin 2) (l : List MachineID) :
    setMachineList data i.succ l = { data with childMachines := Function.update data.childMachines i l } := by
  match i with
  | 0 | 1 => rfl

theorem machineList_succ (data : ReduceGroupData V) (i : Fin 2) :
    machineList data i.succ = data.childMachines i := by
  match i with
  | 0 | 1 => rfl

/-- What a join message does, by the list it is for. -/
theorem handleJoinReduceGroup_eq (sender : ExternalManager V) (reduceTag tagProduced : TagID) {data : ReduceGroupData V}
    (hd : m.reduceTagData.lookup reduceTag = some data) :
    (m.handleJoinReduceGroup sender reduceTag tagProduced).2 =
      match joinedList data tagProduced with
      | none => m
      | some i => m.setGroupData reduceTag (setMachineList data i.succ
          (if tagProduced ∈ data.childMachines i then (data.childMachines i).erase tagProduced
            else data.childMachines i ++ [sender.id])) := by
  unfold Manager.handleJoinReduceGroup joinedList
  rw [hd]
  dsimp only
  split
  · dsimp only
    rw [setMachineList_succ]
    split <;> rfl
  · split
    · dsimp only
      rw [setMachineList_succ]
      split <;> rfl
    · rfl

theorem handleJoinReduceGroup_good (hm : Good m) {sender : ExternalManager V} (hs : sender.id ∈ m.neighbors)
    {reduceTag tagProduced : TagID} (hnames : (tagNameOkay reduceTag && tagNameOkay tagProduced) = true)
    (hnew : joinIsNew m sender.id (.joinReduceGroup reduceTag tagProduced) = true) :
    Good (m.handleJoinReduceGroup sender reduceTag tagProduced).2 := by
  cases hd : m.reduceTagData.lookup reduceTag with
  | none =>
    unfold Manager.handleJoinReduceGroup
    rw [hd]
    exact hm
  | some data =>
    rw [handleJoinReduceGroup_eq sender reduceTag tagProduced hd]
    simp only [joinIsNew, hnames, hd] at hnew
    cases hi : joinedList data tagProduced with
    | none => exact hm
    | some i =>
      simp only [hi] at hnew
      have hne : tagProduced ∈ data.childMachines i ∨ sender.id ∉ data.childMachines i := by
        simpa [List.contains_iff_mem] using hnew
      dsimp only
      split
      · -- a machine id that is also the tag leaves the list
        apply hm.setGroupData
        intro j
        rw [machineList_setMachineList]
        split
        · obtain ⟨hnd, hmem⟩ := hm.clean reduceTag data hd i.succ
          rw [machineList_succ] at hnd hmem
          exact ⟨hnd.erase _, fun id hid => hmem id (List.mem_of_mem_erase hid)⟩
        · exact hm.clean reduceTag data hd j
      · rename_i ht
        rw [← machineList_succ] at hne ⊢
        refine hm.addMachine hd i.succ hs (hne.resolve_left ?_)
        rwa [machineList_succ]

/-! ## Finalising -/

theorem groupFromParentTag_lookup {tag : TagID} {e : Σ _ : TagID, ReduceGroupData V}
    (h : m.groupFromParentTag env tag = .ok e) : m.reduceTagData.lookup e.1 = some e.2 := by
  unfold Manager.groupFromParentTag at h
  split at h
  · rename_i e' he
    cases h
    exact AList.mem_entries_iff.mp (env.mem_order.mp (List.mem_of_find?_eq_some he))
  · cases h

theorem finalizeReduceGroup_good (hm : Good m) {id : MachineID} {g : TagID} {data : ReduceGroupData V}
    (hd : m.reduceTagData.lookup g = some data) (hnew : id ∉ data.parentMachines) :
    (m.finalizeReduceGroup env id g).Ends Good fun _ => True := by
  unfold Manager.finalizeReduceGroup
  rw [hd]
  dsimp only
  split
  · rename_i hid
    have ha := hm.addMachine hd 0 hid hnew
    exact (Members.atNeighbor (Manager.sendMessage_sameId env _) _ id).good ha
  · trivial

theorem finalizeParentTag_good (hm : Good m) {id : MachineID} {tag : TagID}
    (hnew : finalizeIsNew env id m tag = true) : (finalizeParentTag env id m tag).Ends Good fun _ => True := by
  unfold finalizeIsNew at hnew
  unfold finalizeParentTag
  cases he : m.groupFromParentTag env tag with
  | error a => trivial
  | ok e =>
    rw [he] at hnew
    have hn : id ∉ e.2.parentMachines := by simpa using hnew
    rw [Except.ok_bind]
    refine .bind (finalizeReduceGroup_good hm (groupFromParentTag_lookup he) hn) fun m' h' => ?_
    exact Except.Ends.pure (h'.of_eq rfl rfl)

theorem foldlM_finalizeParentTag_good {id : MachineID} {tags : List TagID} (hm : Good m)
    (hnew : finalizesAreNew env id tags m = true) :
    (tags.foldlM (finalizeParentTag env id) m).Ends Good fun _ => True := by
  induction tags generalizing m with
  | nil => exact hm
  | cons tag tags ih =>
    obtain ⟨hn, hrest⟩ := (Bool.and_eq_true _ _).mp hnew
    have hf := finalizeParentTag_good hm hn
    rw [List.foldlM_cons]
    cases hx : finalizeParentTag env id m tag with
    | error a => trivial
    | ok m' =>
      rw [hx] at hrest
      exact ih (hf.of_ok hx) hrest

theorem finalizeSubscription_members (tags : Str) (source : Nat) :
    Members m (m.finalizeSubscription env tags source) := by
  refine ⟨.of_eq rfl, _, fun _ e => ?_, rfl⟩
  split
  · exact Manager.sendMessage_sameId env _ e
  · exact .refl e

theorem finalizePending_good (hm : Good m) {ptr : Nat} {id : MachineID} {tag : TagID}
    (hnew : (marker tag == publishTagMarker || finalizesAreNew env id (split tag nul 0) m) = true) :
    (m.finalizePending env ptr id tag).Ends Good fun _ => True := by
  unfold Manager.finalizePending
  split
  · exact (finalizeSubscription_members tag ptr).good hm
  · rename_i ht
    have hn : finalizesAreNew env id (split tag nul 0) m = true := by simpa [ht] using hnew
    exact foldlM_finalizeParentTag_good hm hn

/-! ## Connections for pending tags -/

theorem initTag_good {s : InitLoop V} (hm : Good s.m) {tag : TagID}
    (hnew : (match s.m.route env tag with
      | .ok (.finalize _ id) =>
        marker tag == publishTagMarker || finalizesAreNew env id (split tag nul 0) s.m
      | _ => true) = true) :
    (initTag env s tag).Ends (fun s' => Good s'.m) fun _ => True := by
  unfold initTag
  cases hr : s.m.route env tag with
  | error a => trivial
  | ok r =>
    rw [Except.ok_bind]
    cases r with
    | selfProduced => exact Except.Ends.pure (hm.of_eq rfl rfl)
    | keep => exact hm
    | finalize ptr id =>
      rw [hr] at hnew
      exact .bind (finalizePending_good hm hnew) fun m' h' => h'
    | connect address => exact hm

theorem foldlM_initTag_good {tags : List TagID} {s : InitLoop V} (hm : Good s.m)
    (hnew : initIsNew env tags s = true) :
    (tags.foldlM (initTag env) s).Ends (fun s' => Good s'.m) fun _ => True := by
  induction tags generalizing s with
  | nil => exact hm
  | cons tag tags ih =>
    obtain ⟨hn, hrest⟩ := (Bool.and_eq_true _ _).mp hnew
    have hf := initTag_good hm hn
    rw [List.foldlM_cons]
    cases hx : initTag env s tag with
    | error a => trivial
    | ok s' =>
      rw [hx] at hrest
      exact ih (hf.of_ok hx) hrest

theorem insertPending_members : ∀ (tries : Nat) (key : AddrPort) (info : PendingInfo) (m : Manager V),
    (Manager.insertPending tries key info m).Ends (Members m) fun _ => True
  | 0, _, _, _ => trivial
  | tries + 1, (host, port), info, m => by
    unfold Manager.insertPending
    split
    · exact insertPending_members tries _ _ m
    · exact Members.of_eq rfl rfl

theorem startConnection_members (m : Manager V) (e : Σ _ : Str, Str) :
    (m.startConnection env e).Ends (Members m) fun _ => True := by
  unfold Manager.startConnection
  refine .bind (P := fun _ => True) ?_ fun err _ => ?_
  · cases Manager.connectNonBlocking env e.1 <;> trivial
  · split
    · exact insertPending_members _ _ _ m
    · exact Members.refl m

theorem initConnections_good (hm : Good m) (hnew : initIsNew env m.pendingTags ⟨m, [], ∅⟩ = true) :
    (m.initConnections env).Ends Good fun _ => True := by
  unfold Manager.initConnections
  refine .bind (foldlM_initTag_good (s := ⟨m, [], ∅⟩) hm hnew) fun s hs => ?_
  refine .bind (P := Good) ?_ fun m' h' => Except.Ends.pure (h'.of_eq rfl rfl)
  refine .foldlM (I := fun _ m' => Good m') hs fun e rest m' _ h' => ?_
  exact (startConnection_members m' e).mono (fun _ h => h.good h') fun _ he => he

/-! ## Pending connections -/

theorem greet_good (hm : Good m) (sender : MachineID) (neighbors : List MachineID) (port : UInt16) (ip : Str) :
    Good (m.greet env sender neighbors port ip).2 := by
  unfold Manager.greet
  cases he : m.neighbors.lookup sender with
  | some e =>
    exact (Members.atNeighbor (f := ExternalManager.addCommunicator ip) (fun _ => ⟨rfl, rfl⟩) m sender).good hm
  | none =>
    have hid : (ExternalManager.create (V := V) env m.nextPtr ip sender neighbors port).id = sender := rfl
    refine ⟨fun key e h => hm.keyed.insert hid h, fun g data hd i => ?_⟩
    obtain ⟨hnd, hmem⟩ := hm.clean g data hd i
    exact ⟨hnd, fun id hid => (AList.mem_insert _).mpr (.inr (hmem id hid))⟩

theorem finalizeConnection_good (hm : Good m) {info : PendingInfo} {e : ExternalManager V}
    (hnew : info.type = .reduceGroup → finalizesAreNew env e.id (split info.tag nul 0) m = true) :
    (m.finalizeConnection env info e).Ends (fun r => ∀ m', r = some m' → Good m') fun _ => True := by
  have hsub (tags : Str) : ∀ m', some (m.finalizeSubscription env tags e.ptr) = some m' → Good m' := by
    intro m' h
    cases h
    exact (finalizeSubscription_members tags e.ptr).good hm
  unfold Manager.finalizeConnection
  split
  · exact fun m' h => Option.some.inj h ▸ hm
  · exact fun m' h => Option.some.inj h ▸ hm
  · rename_i ht
    refine .bind (foldlM_finalizeParentTag_good hm (hnew ht)) fun m₁ h₁ => ?_
    exact Except.Ends.pure fun m' h => Option.some.inj h ▸ h₁
  · exact hsub info.tag
  · split
    · refine Except.Ends.pure fun m' h => ?_
      split at h
      · cases h
      · exact hsub _ m' h
    · trivial

theorem handleGreeting_good (hm : Good m) {key : AddrPort} {info : PendingInfo} {sender : MachineID}
    {neighbors : List MachineID} {port : UInt16} {ip : Str}
    (hnew : connIsNew env info (.message (.greeting sender neighbors port) ip) m = true) :
    (m.handleGreeting env key info sender neighbors port ip).Ends Good fun _ => True := by
  have hg : Good (m.greet env sender neighbors port ip).2 := greet_good hm sender neighbors port ip
  unfold Manager.handleGreeting
  refine .bind (finalizeConnection_good hg fun ht => ?_) fun r hr => ?_
  · unfold connIsNew at hnew
    rw [ht] at hnew
    exact hnew
  · cases r with
    | none =>
      have hd : Good ((m.greet env sender neighbors port ip).2.atPtr (m.greet env sender neighbors port ip).1.ptr
          ExternalManager.markAsDead) := by
        refine (Members.mapNeighbors (fun e => ?_) _).good hg
        split <;> exact ⟨rfl, rfl⟩
      exact hd.of_eq rfl rfl
    | some m₁ =>
      have h₁ : Members m₁ (m₁.notifyOfNewNeighbor env sender) :=
        .of_plain (Manager.sendToNeighborsIf_plain rfl _)
      have h₂ : Good ((m₁.notifyOfNewNeighbor env sender).findPublishersForPendingTags env false) :=
        (h₁.trans (.of_searches (findPublishers_searches false))).good (hr m₁ rfl)
      exact h₂.of_eq rfl rfl

theorem handleTag_members (pubTag baseTag : TagID) (m : Manager V) :
    (m.handleTag pubTag baseTag).Ends (Members m) fun _ => True := by
  unfold Manager.handleTag
  split
  · trivial
  · dsimp only
    split
    · exact ⟨.of_eq rfl, fun _ e => { e with ignoreCacheOnNextRequest := true }, fun _ _ => ⟨rfl, rfl⟩, rfl⟩
    · exact Members.of_eq rfl rfl

theorem dropConnection_members (key : AddrPort) (info : PendingInfo) (m : Manager V) :
    (m.dropConnection env key info).Ends (fun r => Members m r.1) fun _ => True := by
  unfold Manager.dropConnection
  refine .bind (P := fun r => Members m r.1) ?_ fun r hr => hr.trans (.of_eq rfl rfl)
  unfold Manager.handleError
  split
  · exact Members.refl m
  · exact Members.refl m
  · exact Members.refl m
  · refine .bind (P := Members m) ?_ fun m' h' => h'
    refine .foldlM (I := fun _ => Members m) (.refl m) fun tag rest m' _ h' => ?_
    exact (handleTag_members tag tag m').mono (fun _ h => h'.trans h) fun _ he => he
  · refine .bind (P := Members m) ?_ fun m' h' => h'
    refine .foldlM (I := fun _ => Members m) (.refl m) fun tag rest m' _ h' => ?_
    refine .bind (P := fun _ => True) ?_ fun e _ => ?_
    · cases Manager.groupFromParentTag env m' tag <;> trivial
    · exact (handleTag_members _ tag m').mono (fun _ h => h'.trans h) fun _ he => he

theorem processConn_good (hm : Good m) {key : AddrPort} {info : PendingInfo} {event : ConnEvent V}
    (hnew : connIsNew env info event m = true) :
    (m.processConn env key info event).Ends (fun r => Good r.1) fun _ => True := by
  have hdrop : (m.dropConnection env key info).Ends (fun r => Good r.1) fun _ => True :=
    (dropConnection_members key info m).mono (fun _ h => h.good hm) fun _ he => he
  unfold Manager.processConn
  split
  · exact hm
  · split
    · exact hm.of_eq rfl rfl
    · exact hm.of_eq rfl rfl
  · exact hdrop
  · exact hdrop
  · exact hdrop
  · exact .bind (handleGreeting_good hm hnew) fun m' h' => h'
  · exact hdrop

/-! ## Dead neighbours -/

/-- A machine that is not in a list of a group. -/
def Gone (id : MachineID) (g : TagID) (i : Fin 3) (m : Manager V) : Prop :=
  ∀ data, m.reduceTagData.lookup g = some data → id ∉ machineList data i

theorem Gone.of_plain {id : MachineID} {g : TagID} {i : Fin 3} (h : Gone id g i m) (hp : Plain m m₁) :
    Gone id g i m₁ := by
  intro data' hd' hmem
  obtain ⟨data, hd, hs⟩ := hp.shrinks g data' hd'
  exact h data hd ((hs i).subset hmem)

/-- One `erase` is enough where the machine is in the list once. -/
theorem leaveList_gone (hm : Good m) (id : MachineID) (g : TagID) (i : Fin 3) :
    (Manager.leaveList env id g m i).Ends (Gone id g i) fun _ => True := by
  unfold Manager.leaveList
  split
  · trivial
  · rename_i data hd
    split
    · dsimp only
      refine (Manager.updateGroup_plain env (AList.lookup_insert _) ?_ _).mono (fun m' h' => ?_) fun _ _ => trivial
      · rw [Manager.setMachineList_group]
        rfl
      · refine Gone.of_plain (fun d hl => ?_) h'
        rw [Manager.setGroupData, AList.lookup_insert] at hl
        cases hl
        rw [machineList_setMachineList, if_pos rfl]
        exact (hm.clean g data hd i).1.not_mem_erase
    · rename_i hni
      intro d hl
      rw [hd] at hl
      cases hl
      exact hni

theorem leaveGroup_gone (hm : Good m) (id : MachineID) (g : TagID) :
    ([0, 1, 2].foldlM (Manager.leaveList env id g) m).Ends
      (fun m' => Plain m m' ∧ ∀ i, Gone id g i m') fun _ => True := by
  have hstep (l : List (Fin 3)) : (l.foldlM (Manager.leaveList env id g) m).Ends
      (fun m' => Plain m m' ∧ ∀ i ∈ l, Gone id g i m') fun _ => True := by
    refine (Except.Ends.foldlM (I := fun rest m' => Plain m m' ∧ ∀ i ∈ l, i ∉ rest → Gone id g i m')
      ⟨.refl m, fun i hi hn => absurd hi hn⟩ fun i rest m' _ h' => ?_).mono
      (fun m' h' => ⟨h'.1, fun i hi => h'.2 i hi List.not_mem_nil⟩) fun _ he => he
    have hp := Manager.leaveList_plain env id g m' i
    have hgone := @leaveList_gone _ _ env ((Members.of_plain h'.1).good hm) id g i
    cases hx : Manager.leaveList env id g m' i with
    | error a => trivial
    | ok m'' =>
      refine ⟨h'.1.trans (hp.of_ok hx), fun j hj hn => ?_⟩
      by_cases hji : j = i
      · exact hji ▸ hgone.of_ok hx
      · refine (h'.2 j hj fun hmem => ?_).of_plain (hp.of_ok hx)
        rcases List.mem_cons.mp hmem with h | h
        · exact hji h
        · exact hn h
  refine (hstep [0, 1, 2]).mono (fun m' h' => ⟨h'.1, fun i => h'.2 i ?_⟩) fun _ he => he
  match i with
  | 0 | 1 | 2 => simp

/-- A machine that has left is in no list any more. -/
theorem leaveGroups_gone (hm : Good m) (id : MachineID) :
    (m.leaveGroups env id).Ends (fun m' => Plain m m' ∧ ∀ g i, Gone id g i m') fun _ => True := by
  unfold Manager.leaveGroups
  refine (Except.Ends.foldlM
    (I := fun rest m' => Plain m m' ∧ ∀ g i, (∀ e ∈ rest, e.1 ≠ g) → Gone id g i m')
    ⟨.refl m, fun g i hn data hd => ?_⟩ fun e rest m' _ h' => ?_).mono
    (fun m' h' => ⟨h'.1, fun g i => h'.2 g i nofun⟩) fun _ he => he
  · exact absurd rfl (hn ⟨g, data⟩ (env.mem_order.mpr (AList.mem_entries_iff.mpr hd)))
  · refine (leaveGroup_gone ((Members.of_plain h'.1).good hm) id e.1).mono (fun m'' h'' => ?_) fun _ he => he
    refine ⟨h'.1.trans h''.1, fun g i hn => ?_⟩
    by_cases hg : e.1 = g
    · exact hg ▸ h''.2 i
    · exact (h'.2 g i fun e' he' => by
        rcases List.mem_cons.mp he' with rfl | he'
        · exact hg
        · exact hn e' he').of_plain h''.1

theorem removeNeighbor_good (hm : Good m) (id : MachineID) :
    (m.removeNeighbor env id).Ends (fun r => Good r.1) fun _ => True := by
  unfold Manager.removeNeighbor
  split
  · exact hm
  · split
    · exact hm
    · have hs : Members m (m.sendToNeighborsIf env (.removeNeighbor id) fun _ => true) :=
        .of_plain (Manager.sendToNeighborsIf_plain rfl _)
      refine .bind (leaveGroups_gone (hs.good hm) id) fun m₁ h₁ => ?_
      have hg := (Members.of_plain h₁.1).good (hs.good hm)
      refine Except.Ends.pure ⟨fun key e he => hg.keyed.erase id he, fun g data hd i => ?_⟩
      · obtain ⟨hnd, hmem⟩ := hg.clean g data hd i
        refine ⟨hnd, fun a ha => AList.mem_erase.mpr ⟨fun he => ?_, hmem a ha⟩⟩
        exact h₁.2 g i data hd (he ▸ ha)

/-! ## Calls from jobs -/

theorem queueWanted_members (m : Manager V) (tagIds : List TagID) : Members m (m.queueWanted tagIds) := by
  unfold Manager.queueWanted
  induction tagIds generalizing m with
  | nil => exact .refl m
  | cons tag tagIds ih =>
    rw [List.foldl_cons]
    refine Members.trans ?_ (ih _)
    split
    · exact .of_eq rfl rfl
    · exact .refl m

theorem subscribe_members (m : Manager V) (tagIds : List TagID) : Members m (m.subscribe env tagIds) := by
  have hq : Members m { m.queueWanted tagIds with subscribed := m.subscribed ++ tagIds } :=
    (queueWanted_members m tagIds).trans (.of_eq rfl rfl)
  unfold Manager.subscribe
  dsimp only
  split
  · exact hq
  · exact hq.trans (.of_searches (askNeighbors_searches tagIds))

theorem queueParentTag_members (m : Manager V) (parentTag : TagID) :
    Members m (m.queueParentTag env parentTag) := by
  have h : Members m { m with pendingTags := m.pendingTags ++ [parentTag] } := .of_eq rfl rfl
  exact h.trans (.of_searches (askNeighbors_searches [parentTag]))

theorem ipSubscribe_members (m : Manager V) (addr : AddrPort) (tagIds : List TagID) :
    (m.ipSubscribe env addr tagIds).Ends (Members m) fun _ => True := by
  unfold Manager.ipSubscribe
  refine .bind (.any _) fun canonical _ => .bind (.any _) fun a _ => .bind (.any _) fun b _ => ?_
  split
  · refine .foldlM (I := fun _ => Members m) (.refl m) fun tag rest m' _ h' => ?_
    split
    · exact h'.trans (.of_eq rfl rfl)
    · trivial
  · split
    · refine .bind (.any _) fun e _ => Except.Ends.pure (Members.mapNeighbors (fun e' => ?_) m)
      split
      · exact Manager.sendMessage_sameId env _ e'
      · exact .refl e'
    · split
      · trivial
      · exact .bind (.any _) fun _ _ => Members.of_eq rfl rfl

theorem connectToServer_members (m : Manager V) (addr : AddrPort) :
    (m.connectToServer env addr).Ends (Members m) fun _ => True := by
  unfold Manager.connectToServer
  refine .bind (.any _) fun canonical _ => ?_
  split
  · exact Members.refl m
  · exact .bind (.any _) fun _ _ => Members.of_eq rfl rfl

theorem reportNewPublishTags_members (m : Manager V) (tags : List TagID) :
    (m.reportNewPublishTags tags).Ends (Members m) fun _ => True := by
  refine .foldlM (I := fun _ => Members m) (.refl m) fun tag rest m' _ h' => ?_
  split
  · trivial
  · exact h'.trans (.of_eq rfl rfl)

theorem createReduceGroup_good (hm : Good m) (group : ReduceGroup V) :
    (m.createReduceGroup env group).Ends Good fun _ => True := by
  unfold Manager.createReduceGroup
  split
  · trivial
  dsimp only
  have hg : Good { m with
      selfSubCount := m.selfSubCount.insert group.producedTag 0
      reduceTagData := m.reduceTagData.insertNew group.groupId ⟨group, [], fun _ => []⟩ } := by
    refine ⟨hm.keyed, fun g data hd => ?_⟩
    rw [AList.lookup_insertNew] at hd
    split at hd
    · cases hl : m.reduceTagData.lookup group.groupId with
      | some d =>
        rw [hl] at hd
        cases hd
        exact hm.clean _ d hl
      | none =>
        rw [hl] at hd
        cases hd
        intro i
        match i with
        | 0 | 1 | 2 => exact ⟨List.nodup_nil, nofun⟩
    · exact hm.clean g data hd
  split
  · trivial
  · refine Except.Ends.pure ?_
    split
    · exact hg
    · exact (queueParentTag_members _ _).good hg

theorem rebuildReduceGroup_members (m : Manager V) (groupId : TagID) :
    (m.rebuildReduceGroup env groupId).Ends (Members m) fun _ => True := by
  unfold Manager.rebuildReduceGroup
  split
  · trivial
  · show Members m _
    split
    · exact queueParentTag_members m _
    · exact .refl m

theorem acceptConnection_members : ∀ (tries : Nat) (addr : AddrPort) (m : Manager V),
    (Manager.acceptConnection tries addr m).Ends (Members m) fun _ => True
  | 0, _, _ => trivial
  | tries + 1, (address, port), m => by
    unfold Manager.acceptConnection
    split
    · exact acceptConnection_members tries _ m
    · exact Members.of_eq rfl rfl

variable [Typed V]

theorem handleMessage_good (hm : Good m) {sender : ExternalManager V} (hs : sender.id ∈ m.neighbors)
    {msg : Message V} (hnew : joinIsNew m sender.id msg = true) :
    (m.handleMessage env sender msg).Ends (fun r => Good r.2) fun _ => True := by
  by_cases hp : msg.handledPlain = true
  · exact (Manager.handleMessage_plain env sender hp).mono (fun _ h => (Members.of_plain h).good hm)
      fun _ _ => trivial
  unfold Manager.handleMessage
  cases msg with
  | reportPublishers tags addresses machines locallyProducedTags =>
    dsimp only
    split
    · exact hm
    · refine .bind ((Manager.addPublishersAndPropagate_searches env sender tags addresses machines _).mono
        (fun _ h => h) fun _ _ => trivial) fun r h => ?_
      split
      · exact (Members.of_searches h).good hm
      · exact (Members.atNeighbor (f := ExternalManager.requestAnswered env) (fun _ => ⟨rfl, rfl⟩) _ _).good
          ((Members.of_searches h).good hm)
  | getPublishers tags publishersNeeded ignoreCache =>
    dsimp only
    split
    · exact hm
    · exact .bind ((Manager.handleGetPublishers_searches env sender tags publishersNeeded ignoreCache).mono
        (fun _ h => h) fun _ _ => trivial) fun _ h => (Members.of_searches h).good hm
  | joinReduceGroup reduceTag tagProduced =>
    dsimp only
    split
    · exact hm
    · rename_i hnames
      have hok : (tagNameOkay reduceTag && tagNameOkay tagProduced) = true := by simpa using hnames
      exact handleJoinReduceGroup_good hm hs hok hnew
  | _ => exact absurd rfl hp

theorem handleNext_good (hm : Good m) {id : MachineID} {todo : List MachineID} {msg : Message V}
    (hnew : joinIsNew m id msg = true) :
    (handleNext env id todo msg m).Ends (fun r => Good r.2) fun _ => True := by
  have hh : Good (m.atNeighbor id (·.hear env msg)) :=
    (Members.atNeighbor (f := fun e => e.hear env msg) (fun _ => ⟨rfl, rfl⟩) m id).good hm
  unfold handleNext
  dsimp only
  split
  · trivial
  · rename_i sender hsender
    have hid : sender.id = id := hh.keyed id sender hsender
    have hmem : sender.id ∈ (m.atNeighbor id (·.hear env msg)).neighbors := by
      rw [hid]
      exact AList.lookup_isSome.mp (by rw [hsender]; rfl)
    refine .bind (handleMessage_good hh hmem (by rw [hid]; exact hnew)) fun r hr => ?_
    split
    · exact hr
    · exact (Members.of_plain (Manager.atNeighbor_plain ExternalManager.markAsDead_plainSends id)).good hr
    · exact hr

/-! ## Runs -/

theorem act_good {pc : Pc} {l : Label V} (hm : Good m) (hnew : isNew (.running pc m) l = true) :
    (act l pc m).Ends (fun r => Good r.2) fun _ => True := by
  unfold act
  split
  · exact (subscribe_members m _).good hm
  · exact .bind (ipSubscribe_members m _ _) fun m' h' => h'.good hm
  · exact .bind (connectToServer_members m _) fun m' h' => h'.good hm
  · exact .bind (reportNewPublishTags_members m _) fun m' h' => h'.good hm
  · exact .bind (createReduceGroup_good hm _) fun m' h' => h'
  · split
    · trivial
    · rename_i groupId env _ data hd
      have hg : Good (m.setGroupData groupId { data with group := data.group.rebuild }) :=
        hm.setGroupData fun i => by
          match i with
          | 0 => exact hm.clean groupId data hd 0
          | 1 => exact hm.clean groupId data hd 1
          | 2 => exact hm.clean groupId data hd 2
      exact .bind (rebuildReduceGroup_members _ groupId) fun m' h' => h'.good hg
  · split
    · trivial
    · rename_i groupId isAllReduce op value env _ data hd
      split
      · trivial
      · rename_i _ w group sends hr
        have hp := Manager.updateGroup_plain env hd (ReduceGroup.reduceImpl_tagNeighbors hr) sends
        exact .bind (hp.mono (fun _ h => (Members.of_plain h).good hm) fun _ _ => trivial) fun m' h' => h'
  · exact .bind ((Manager.publish_plain _ _ _ _).mono (fun _ h => (Members.of_plain h).good hm)
      fun _ _ => trivial) fun m' h' => h'
  · exact hm
  · split
    · exact hm
    · rename_i event env key todo newTags _ info hl
      have hc : connIsNew env info event m = true := by
        simpa [isNew, hl] using hnew
      exact .bind (processConn_good hm hc) fun r hr => hr
  · show Good _
    split
    · exact (Members.of_searches (findPublishers_searches false)).good hm
    · exact hm
  · exact .bind (initConnections_good hm hnew) fun m' h' => h'
  · rename_i env id todo
    refine .bind (initConnections_good hm hnew) fun m' h' => ?_
    exact (Members.atNeighbor (f := ExternalManager.requestAnswered env) (fun _ => ⟨rfl, rfl⟩) m' id).good h'
  · exact .bind (acceptConnection_members _ _ m) fun m' h' => h'.good hm
  · exact hm
  · exact hm
  · exact handleNext_good hm hnew
  · exact (Members.of_plain (Manager.atNeighbor_plain ExternalManager.markAsDead_plainSends _)).good hm
  · exact hm
  · exact .bind (removeNeighbor_good hm _) fun r hr => hr
  · rename_i env todo newTags
    have h₁ : Good (if newTags = true then m.findPublishersForPendingTags env true else m) := by
      split
      · exact (Members.of_searches (findPublishers_searches true)).good hm
      · exact hm
    have h₂ := @Members.of_searches _ _ _ (@findPublishers_searches _ _ env false) |>.good h₁
    exact (Members.of_plain (Manager.mapNeighbors_plain
      (ExternalManager.sendHeartbeat_plainSends env _))).good h₂
  · exact hm

theorem good_inductive :
    ((lts V).restrict fun s l => isNew s l = true).Inductive (Holds (fun _ m => Good m) fun _ => True) := by
  apply holds_inductive
  · intro port id interval jobs
    constructor
    · intro key e h
      cases h
    · intro g data h
      cases h
  · exact fun pc m l _ hnew hm => act_good hm hnew

/-- **Clean lists.** While no machine is put into a list a second time, each
list of each group has every machine once, and only neighbours. -/
theorem clean_of_new {pc : Pc} {m : Manager V}
    (h : ((lts V).restrict fun s l => isNew s l = true).Reachable (.running pc m)) : Clean m :=
  (good_inductive.reachable _ h : Good m).clean

/-! ## Twice in a list -/

/-- A machine whose calls all succeed. -/
def quietEnv : Env where
  now := 1
  sendResult _ _ := .noError
  initConnection _ _ := .inProgress
  resolve := some
  order l := l
  order_perm l := .refl l
  prng _ _ := 0

def parentGroup : ReduceGroup Nat :=
  ReduceGroup.create ⟨fun i => if i = 0 then [] else if i = 1 then ['r', '2'] else ['r', '3']⟩ ['g'] ['r', '1'] []

/-- A child connects and joins `n` times. -/
def joins (n : Nat) : List (Label Nat) :=
  [.createReduceGroup parentGroup quietEnv, .connectToServer (['c'], 1) quietEnv,
    .beginPass quietEnv, .conn (.connected .noError) quietEnv, .endConns quietEnv,
    .endAccept quietEnv, .endMessages quietEnv, .endPass quietEnv,
    .beginPass quietEnv, .conn (.message (.greeting ['c'] [] 1) ['c']) quietEnv, .endConns quietEnv,
    .endAccept quietEnv, .nextNeighbor] ++
    List.replicate n (.message (.joinReduceGroup ['g'] ['r', '2']) quietEnv)

def machine : Sys Nat := .running .idle (Manager.create 1 ['m'] 5000)

theorem initial_machine : Initial machine := ⟨1, ['m'], 5000, ∅, rfl⟩

theorem clean_of_new_one_join : ∃ m : Manager Nat,
    (m.reduceTagData.lookup ['g']).map (·.childMachines 0) = some [['c']] ∧ Clean m := by
  obtain ⟨pc, m, hx, hl⟩ : ∃ pc m, LTS.exec (LTS.guarded step fun s l => isNew s l = true) machine (joins 1) =
      some (.running pc m) ∧ (m.reduceTagData.lookup ['g']).map (·.childMachines 0) = some [['c']] :=
    ⟨_, _, rfl, rfl⟩
  exact ⟨m, hl, clean_of_new (LTS.restrict_reachable_of_exec initial_machine hx)⟩

/-- The child has joined twice and is gone; `remove_dead_neighbors` is
through, and it is still in the list. -/
theorem not_clean : ∃ m : Manager Nat, (lts Nat).Reachable (.running .idle m) ∧ ¬ Clean m := by
  obtain ⟨m, hx, hn, data, hd, hc⟩ : ∃ m, LTS.exec step machine
      (joins 2 ++ [.readError, .endMessages quietEnv, .remove quietEnv, .endPass quietEnv]) =
        some (.running .idle m) ∧ m.neighbors.keys = [] ∧
      ∃ data, m.reduceTagData.lookup ['g'] = some data ∧ data.childMachines 0 = [['c']] :=
    ⟨_, rfl, rfl, _, rfl, rfl⟩
  refine ⟨m, LTS.reachable_of_exec initial_machine hx, fun hclean => ?_⟩
  have hmem := (hclean ['g'] data hd 1).2 ['c'] (by
    show ['c'] ∈ data.childMachines 0
    rw [hc]
    exact List.mem_singleton_self _)
  have hk : ['c'] ∈ m.neighbors.keys := hmem
  rw [hn] at hk
  cases hk

end Skywing.L4.GroupMembers
