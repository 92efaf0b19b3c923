import Skywing.L3Protocol.PendingTags

/-!
# Which neighbours survive a step

A send that fails marks the neighbour dead (`ExternalManager::send_message`,
`skywing_core/manager.cpp`), and nothing more is sent to it. A neighbour
survives `n` messages exactly when it was alive and each of them could be sent
(`Delivers`); `Sent` says so of a piece of a step, and pieces add up.

Results:
* `completed_of_binding`: what the step that completes a connection sends to
  whom, and who is alive after it.
-/
namespace Skywing.L3

open L1.Text

namespace ExternalManager

variable {V : Type} {env : Env} {e e' e'' : ExternalManager V} {n k : ℕ}

/-- Alive, and the next `n` messages can be sent. -/
def Delivers (env : Env) (n : ℕ) (e : ExternalManager V) : Prop :=
  e.dead = false ∧ ∀ i < n, env.sendResult e.ptr (e.sent.length + i) = .noError

instance (env : Env) (n : ℕ) (e : ExternalManager V) : Decidable (e.Delivers env n) :=
  inferInstanceAs (Decidable (_ ∧ _))

theorem delivers_add : e.Delivers env (n + k) ↔
    e.Delivers env n ∧ ∀ i < k, env.sendResult e.ptr (e.sent.length + n + i) = .noError := by
  constructor
  · intro h
    refine ⟨⟨h.1, fun i hi => h.2 i (by omega)⟩, fun i hi => ?_⟩
    rw [Nat.add_assoc]
    exact h.2 (n + i) (by omega)
  · intro h
    refine ⟨h.1.1, fun i hi => ?_⟩
    by_cases hin : i < n
    · exact h.1.2 i hin
    · have hk := h.2 (i - n) (by omega)
      rwa [show e.sent.length + n + (i - n) = e.sent.length + i by omega] at hk

/-- `e'` is `e` after `n` messages. -/
structure Sent (env : Env) (n : ℕ) (e e' : ExternalManager V) : Prop where
  ptr : e'.ptr = e.ptr
  id : e'.id = e.id
  asks : e'.shouldAskForTags env = e.shouldAskForTags env
  length : e'.dead = false → e'.sent.length = e.sent.length + n
  alive : e'.dead = false ↔ e.Delivers env n

namespace Sent

theorem refl (env : Env) (e : ExternalManager V) : Sent env 0 e e :=
  ⟨rfl, rfl, rfl, fun _ => rfl, ⟨fun h => ⟨h, fun _ hi => absurd hi (Nat.not_lt_zero _)⟩, fun h => h.1⟩⟩

/-- What follows the `n` messages. -/
theorem delivers_iff (h : Sent env n e e') (k : ℕ) : e'.Delivers env k ↔ e.Delivers env (n + k) := by
  rw [delivers_add, ← h.alive]
  refine and_congr_right fun hd => ?_
  rw [h.ptr, h.length hd]

theorem trans (h : Sent env n e e') (h' : Sent env k e' e'') : Sent env (n + k) e e'' where
  ptr := h'.ptr.trans h.ptr
  id := h'.id.trans h.id
  asks := h'.asks.trans h.asks
  length hd := by
    have hd' : e'.dead = false := (h'.alive.mp hd).1
    rw [h'.length hd, h.length hd', Nat.add_assoc]
  alive := h'.alive.trans (h.delivers_iff k)

end Sent

theorem sendMessage_sent (env : Env) (msg : Message V) (e : ExternalManager V) :
    Sent env 1 e (e.sendMessage env msg) := by
  unfold sendMessage
  split
  · rename_i hd
    exact ⟨rfl, rfl, rfl, fun h => (by simp [hd] at h), by simp [Delivers, hd]⟩
  · rename_i hd
    split
    · rename_i hs
      exact ⟨rfl, rfl, rfl, nofun, by simpa [Delivers, hd] using hs⟩
    · rename_i hs
      exact ⟨rfl, rfl, rfl, fun _ => List.length_append, by simpa [Delivers, hd] using hs⟩

/-- A search reaches a neighbour that is due for one. -/
theorem ask_alive (env : Env) (tags : List TagID) (needed : List UInt8) (e : ExternalManager V)
    (h : e.shouldAskForTags env = true) :
    ((e.increaseBackoffCounter env).findPublishersForTags env tags needed).ptr = e.ptr ∧
      (((e.increaseBackoffCounter env).findPublishersForTags env tags needed).dead = false ↔ e.Delivers env 1) := by
  have hp : (e.increaseBackoffCounter env).pendingTagRequest = false := by
    have hp := ((Bool.and_eq_true _ _).mp h).1
    rwa [Bool.not_eq_true'] at hp
  have hs := sendMessage_sent env (.getPublishers tags needed e.ignoreCacheOnNextRequest) (e.increaseBackoffCounter env)
  rw [findPublishersForTags, hp]
  exact ⟨hs.ptr, hs.alive⟩

end ExternalManager

namespace Manager

open ExternalManager

variable {V : Type} {m m₁ m₂ : Manager V} {env : Env} {n k : MachineID → ExternalManager V → ℕ}

/-- Each record is sent so many messages. -/
def Delivered (env : Env) (n : MachineID → ExternalManager V → ℕ) (m m' : Manager V) : Prop :=
  ∃ f : MachineID → ExternalManager V → ExternalManager V,
    (∀ id e, Sent env (n id e) e (f id e)) ∧ m'.neighbors = m.neighbors.mapVal f

namespace Delivered

theorem of_eq (h : m₁.neighbors = m.neighbors) : Delivered env (fun _ _ => 0) m m₁ :=
  ⟨fun _ e => e, fun _ e => .refl env e, by simp [h]⟩

theorem trans (h : Delivered env n m m₁) (h' : Delivered env k m₁ m₂)
    (hk : ∀ id e e', e'.ptr = e.ptr → e'.id = e.id → k id e' = k id e) :
    Delivered env (fun id e => n id e + k id e) m m₂ := by
  obtain ⟨f, hf, hn⟩ := h
  obtain ⟨g, hg, hn'⟩ := h'
  refine ⟨fun id e => g id (f id e), fun id e => ?_, by rw [hn', hn, AList.mapVal_mapVal]⟩
  have hs := (hf id e).trans (hg id (f id e))
  rwa [hk id e (f id e) (hf id e).ptr (hf id e).id] at hs

theorem lookup (h : Delivered env n m m₁) {id : MachineID} {e : ExternalManager V}
    (he : m.neighbors.lookup id = some e) : ∃ e', m₁.neighbors.lookup id = some e' ∧ Sent env (n id e) e e' := by
  obtain ⟨f, hf, hn⟩ := h
  exact ⟨f id e, by rw [hn, AList.lookup_mapVal, he]; rfl, hf id e⟩

end Delivered

/-! ## Who is sent what -/

theorem atPtr_delivered (env : Env) (msg : Message V) (ptr : ℕ) (m : Manager V) :
    Delivered env (fun _ e => if e.ptr = ptr then 1 else 0) m (m.atPtr ptr (·.sendMessage env msg)) := by
  refine ⟨fun _ e => if e.ptr = ptr then e.sendMessage env msg else e, fun _ e => ?_, rfl⟩
  dsimp only
  split
  · exact sendMessage_sent env msg e
  · exact .refl env e

theorem atNeighbor_delivered (env : Env) (msg : Message V) (id : MachineID) (m : Manager V) :
    Delivered env (fun key _ => if key = id then 1 else 0) m (m.atNeighbor id (·.sendMessage env msg)) := by
  refine ⟨fun key e => if key = id then e.sendMessage env msg else e, fun key e => ?_, rfl⟩
  dsimp only
  split
  · exact sendMessage_sent env msg e
  · exact .refl env e

theorem notify_delivered (env : Env) (id : MachineID) (m : Manager V) :
    Delivered env (fun _ e => if e.id = id then 0 else 1) m (m.notifyOfNewNeighbor env id) := by
  refine ⟨fun _ e => if e.id != id then e.sendMessage env (.newNeighbor id) else e, fun _ e => ?_, rfl⟩
  by_cases h : e.id = id
  · simpa [h] using Sent.refl env e
  · simpa [h] using sendMessage_sent env (.newNeighbor id) e

/-- Some pending tag has no known publisher, the tags of `bound` aside, and the
neighbour is due for a search. -/
def asks (env : Env) (m : Manager V) (bound : List TagID) (e : ExternalManager V) : Bool :=
  (m.pendingTags.any fun tag =>
    tag ∉ bound && (tag ∉ m.tagToMachine && ((m.publishersForTag.lookup tag).getD []).isEmpty)) &&
  e.shouldAskForTags env

theorem findPublishers_alive {id : MachineID} {e : ExternalManager V} (he : m.neighbors.lookup id = some e) :
    ∃ e', (m.findPublishersForPendingTags env false).neighbors.lookup id = some e' ∧ e'.ptr = e.ptr ∧
      (e'.dead = false ↔ e.Delivers env (if m.asks env [] e then 1 else 0)) := by
  have hsame : e.dead = false ↔ e.Delivers env 0 := (Sent.refl env e).alive
  have hasks : m.asks env [] e = (!(m.pendingTags.filter fun tag =>
      tag ∉ m.tagToMachine && ((m.publishersForTag.lookup tag).getD []).isEmpty).isEmpty &&
        e.shouldAskForTags env) := by
    rw [asks, Bool.eq_iff_iff]
    simp [List.filter_eq_nil_iff]
  rw [hasks]
  unfold findPublishersForPendingTags
  rw [if_neg Bool.false_ne_true]
  dsimp only
  split
  · rename_i hnone
    refine ⟨e, he, rfl, ?_⟩
    rw [hnone]
    exact hsame
  · rename_i hsome
    refine ⟨_, (AList.lookup_mapVal _ _ _).trans (congrArg _ he), ?_⟩
    rw [Bool.not_eq_true] at hsome
    rw [hsome]
    by_cases hask : e.shouldAskForTags env = true
    · dsimp only
      rw [hask]
      exact ask_alive env _ _ e hask
    · rw [Bool.not_eq_true] at hask
      dsimp only
      rw [hask]
      exact ⟨rfl, hsame⟩

/-! ## Completed connections -/

/-- What the finalisation of a connection sends, for the record `e` of its
peer. -/
def finalizeSends (info : PendingInfo) (e : ExternalManager V) (id : MachineID) (r : ExternalManager V) : ℕ :=
  match info.type with
  | .byAccept | .userRequested => 0
  | .subscription | .specificIp => if r.ptr = e.ptr then 1 else 0
  | .reduceGroup => if id = e.id then (split info.tag nul 0).length else 0

/-- Messages were sent, and tags bound to the record `ptr`. -/
structure Binding (env : Env) (n : MachineID → ExternalManager V → ℕ) (bound : List TagID) (ptr : ℕ)
    (m m' : Manager V) : Prop where
  sent : Delivered env n m m'
  tagToMachine : m'.tagToMachine = (m.bindTags bound ptr).tagToMachine
  pendingTags : m'.pendingTags = m.pendingTags
  publishersForTag : m'.publishersForTag = m.publishersForTag
  addrToMachine : m'.addrToMachine = m.addrToMachine

theorem Binding.refl (env : Env) (ptr : ℕ) (m : Manager V) : Binding env (fun _ _ => 0) [] ptr m m :=
  ⟨.of_eq rfl, rfl, rfl, rfl, rfl⟩

/-- One message to the parent for each tag. -/
theorem finalizeParentTags_binding (id : MachineID) (ptr : ℕ) : ∀ (tags : List TagID) (m : Manager V),
    (tags.foldlM (finalizeParentTag env id) m).Ends
      (Binding env (fun key _ => if key = id then tags.length else 0) [] ptr m) fun _ => True
  | [], m => by
    have h := Binding.refl env ptr m
    refine Except.Ends.pure ⟨?_, h.tagToMachine, h.pendingTags, h.publishersForTag, h.addrToMachine⟩
    simpa using h.sent
  | tag :: tags, m => by
    have hone : (m.finalizeParentTag env id tag).Ends
        (Binding env (fun key _ => if key = id then 1 else 0) [] ptr m) fun _ => True := by
      unfold finalizeParentTag
      refine .bind (Except.Ends.any _) fun group _ => ?_
      refine .bind (P := Binding env (fun key _ => if key = id then 1 else 0) [] ptr m) ?_ fun m' h =>
        ⟨h.sent, h.tagToMachine, h.pendingTags, h.publishersForTag, h.addrToMachine⟩
      unfold finalizeReduceGroup
      split
      · trivial
      · split
        · exact ⟨atNeighbor_delivered env _ id m, rfl, rfl, rfl, rfl⟩
        · trivial
    rw [List.foldlM_cons]
    refine .bind hone fun m₁ h => (finalizeParentTags_binding id ptr tags m₁).mono (fun m' h' => ?_) fun _ h => h
    refine ⟨?_, h'.tagToMachine.trans h.tagToMachine, h'.pendingTags.trans h.pendingTags,
      h'.publishersForTag.trans h.publishersForTag, h'.addrToMachine.trans h.addrToMachine⟩
    obtain ⟨f, hf, hn⟩ := h.sent.trans h'.sent fun _ _ _ _ _ => rfl
    refine ⟨f, fun key e => ?_, hn⟩
    have hcount := hf key e
    by_cases hk : key = id
    · simpa [hk, Nat.add_comm] using hcount
    · simpa [hk] using hcount

theorem finalizeSubscription_binding (env : Env) (tags : Str) (ptr : ℕ) (m : Manager V) :
    Binding env (fun _ e => if e.ptr = ptr then 1 else 0) (split tags nul 0) ptr m
      (m.finalizeSubscription env tags ptr) :=
  ⟨atPtr_delivered env _ ptr (m.bindTags (split tags nul 0) ptr), rfl, rfl, rfl, rfl⟩

theorem finalizeConnection_binding (info : PendingInfo) (e : ExternalManager V) (m : Manager V) :
    (m.finalizeConnection env info e).Ends (fun r => ∀ m' ∈ r,
      Binding env (finalizeSends info e) (boundBy info) e.ptr m m') fun _ => True := by
  unfold finalizeConnection finalizeSends boundBy
  cases info.type with
  | byAccept => exact fun m' hm' => Option.some.inj hm' ▸ .refl env e.ptr m
  | userRequested => exact fun m' hm' => Option.some.inj hm' ▸ .refl env e.ptr m
  | reduceGroup =>
    exact .bind (finalizeParentTags_binding e.id e.ptr (split info.tag nul 0) m) fun m₁ h m' hm' =>
      Option.some.inj hm' ▸ h
  | subscription => exact fun m' hm' => Option.some.inj hm' ▸ finalizeSubscription_binding env info.tag e.ptr m
  | specificIp =>
    dsimp only
    generalize split info.tag nul 2 = parts
    match parts with
    | [ip, tags] =>
      refine Except.Ends.pure fun m' hm' => ?_
      split at hm'
      · cases hm'
      · exact Option.some.inj hm' ▸ finalizeSubscription_binding env tags e.ptr m
    | [] => trivial
    | [_] => trivial
    | _ :: _ :: _ :: _ => trivial

/-- What a step that completes a connection with `sender` sends; `e` is the
record of `sender`. -/
def greetingSends (env : Env) (m : Manager V) (info : PendingInfo) (e : ExternalManager V) (sender id : MachineID)
    (r : ExternalManager V) : ℕ :=
  finalizeSends info e id r + (if r.id = sender then 0 else 1) + if m.asks env (boundBy info) r then 1 else 0

/-- A connection that is complete, from the state after the greeting. -/
structure Completed (env : Env) (info : PendingInfo) (e : ExternalManager V) (sender : MachineID)
    (m m' : Manager V) : Prop where
  tagToMachine : m'.tagToMachine = (m.bindTags (boundBy info) e.ptr).tagToMachine
  addrToMachine : m'.addrToMachine = m.addrToMachine
  alive : ∀ id r, m.neighbors.lookup id = some r → ∃ r', m'.neighbors.lookup id = some r' ∧ r'.ptr = r.ptr ∧
    (r'.dead = false ↔ r.Delivers env (greetingSends env m info e sender id r))

/-- The search at the end comes after the tags are bound. -/
theorem Binding.asks {bound : List TagID} {ptr : ℕ} (h : Binding env n bound ptr m m₁) {r r' : ExternalManager V}
    (hr : r'.shouldAskForTags env = r.shouldAskForTags env) : m₁.asks env [] r' = m.asks env bound r := by
  have hmem (tag : TagID) : tag ∈ m₁.tagToMachine ↔ tag ∈ bound ∨ tag ∈ m.tagToMachine := by
    rw [h.tagToMachine, mem_bindTags]
  unfold Manager.asks
  rw [h.pendingTags, h.publishersForTag, hr]
  simp [hmem, Bool.and_assoc]

theorem completed_of_binding {info : PendingInfo} {e : ExternalManager V} (sender : MachineID) (key : AddrPort)
    (h : Binding env (finalizeSends info e) (boundBy info) e.ptr m m₁) : Completed env info e sender m
      (((m₁.notifyOfNewNeighbor env sender).findPublishersForPendingTags env false).erasePending key) where
  tagToMachine := by
    rw [erasePending, (findPublishers_searches false).tagToMachine]
    exact h.tagToMachine
  addrToMachine := by
    rw [erasePending, (findPublishers_binds false).addrToMachine]
    exact h.addrToMachine
  alive id r hr := by
    obtain ⟨r₁, hr₁, hs⟩ := (h.sent.trans (notify_delivered env sender m₁) fun _ _ _ _ hid => by rw [hid]).lookup hr
    obtain ⟨r', hr', hptr, halive⟩ := @findPublishers_alive V _ env _ _ hr₁
    refine ⟨r', hr', hptr.trans hs.ptr, ?_⟩
    have hasks : (m₁.notifyOfNewNeighbor env sender).asks env [] r₁ = m.asks env (boundBy info) r := h.asks hs.asks
    rw [halive, hasks]
    exact hs.delivers_iff _

end Manager

end Skywing.L3
