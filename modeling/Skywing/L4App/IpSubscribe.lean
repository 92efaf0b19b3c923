import Skywing.L4App.Connected
import Skywing.L4App.TagSteps

/-!
# Subscriptions at an address

`ip_subscribe` (`skywing_core/manager.cpp`) has two paths. Where the address
leads to a neighbour, it sends the subscription notice at once; else it makes a
pending connection that carries the tags, and the greeting finalises them.
Both are complete once no connection to the address is pending, and a success
where the address leads to a living neighbour and the tags are bound. Only the
second path binds them.

Results:
* `subscribed_iff`: from every reachable state, exactly when an operation has
  succeeded once it is complete: at once, where the tags were bound to the
  neighbour before; else by what the last step looks at.
* `not_subscribed`: a neighbour that is connected already.
-/
namespace Skywing.L4.IpSubscribe

open L3 L1.Text
open L3.Manager hiding id
open L3.ExternalManager (Delivers Sent markAsDead)
open References (NoDangling)
open Connected (Leads addrIsConnected_iff leads_of_alive greet_leads asks_greet)
open CutOff (connected)
open GroupMembers (quietEnv machine initial_machine)

variable {V : Type}

/-! ## The property -/

/-- The waiter yields true, and the tags are bound to the neighbour at the
address. -/
def Subscribed (key : AddrPort) (tags : List TagID) (m : Manager V) : Prop :=
  m.ipSubscribeSuccess key tags false = .ok true ∧
    ∃ ptr, m.addrToMachine.lookup key = some ptr ∧ ∀ tag ∈ tags, m.tagToMachine.lookup tag = some ptr

/-! ## The condition -/

/-- The tags are bound to the neighbour at the address, and `n` messages can be
sent to it. -/
def Bound (env : Env) (n : ℕ) (key : AddrPort) (tags : List TagID) (m : Manager V) : Prop :=
  Leads m key fun _ r => r.Delivers env n ∧ ∀ tag ∈ tags, m.tagToMachine.lookup tag = some r.ptr

/-- The neighbour at the end of a connection for an address is not the one
expected.
mirrors skywing/skywing_core/manager.cpp:1523-1532 -/
def rejects (env : Env) (info : PendingInfo) (e : ExternalManager V) : Bool :=
  info.type == .specificIp &&
    match split info.tag nul 2 with
    | [expectedIp, _] => e.address env .expectedIp != expectedIp
    | _ => false

/-- What the record `r` is sent and what is bound to it, where a connection
with the record `e` of `sender` is complete. -/
def Serves (env : Env) (tags : List TagID) (info : PendingInfo) (m : Manager V) (e : ExternalManager V)
    (sender id : MachineID) (r : ExternalManager V) : Prop :=
  r.Delivers env (greetingSends env m info e sender id r) ∧
    ∀ tag ∈ tags, (if tag ∈ boundBy info then some e.ptr else m.tagToMachine.lookup tag) = some r.ptr

/-- Before the last step of a connection to the address. -/
def WillBeBound (env : Env) (key : AddrPort) (tags : List TagID) (info : PendingInfo) (event : ConnEvent V)
    (m : Manager V) : Prop :=
  match event with
  | .message (.greeting sender neighbors port) ip =>
    let e := (m.greet env sender neighbors port ip).1
    if rejects env info e then
      Leads m key fun _ r => r.ptr ≠ e.ptr ∧ r.dead = false ∧ ∀ tag ∈ tags, m.tagToMachine.lookup tag = some r.ptr
    else
      Leads m key (Serves env tags info m e sender) ∨
      m.addrToMachine.lookup key = none ∧ sender ∉ m.neighbors ∧
        ((env.unnamedPeer m.nextPtr .addressKey).getD ip, port) = key ∧
        Serves env tags info m e sender sender e
  | _ => Bound env 0 key tags m

variable {m m' m₁ : Manager V} {env : Env} {key : AddrPort} {tags : List TagID} {info : PendingInfo}

theorem subscribed_leads (h : NoDangling m) (key : AddrPort) (tags : List TagID) : Subscribed key tags m ↔
    Leads m key fun _ r => r.dead = false ∧ ∀ tag ∈ tags, m.tagToMachine.lookup tag = some r.ptr := by
  have hconnected := addrIsConnected_iff h key
  constructor
  · intro hex
    obtain ⟨hs, ptr, hptr, hb⟩ := hex
    have hyes : m.addrIsConnected key = .ok true := by
      unfold ipSubscribeSuccess at hs
      cases hc : m.addrIsConnected key with
      | error a =>
        rw [hc] at hs
        cases hs
      | ok b =>
        rw [hc] at hs
        have hand : (b && m.subscribeIsDone tags) = true := Except.ok.inj hs
        rw [((Bool.and_eq_true _ _).mp hand).1]
    obtain ⟨id, r, hr, haddr, hd⟩ := hconnected.mp hyes
    refine ⟨id, r, hr, haddr, hd, fun tag ht => ?_⟩
    rw [← haddr, hptr]
    exact hb tag ht
  · intro hex
    obtain ⟨id, r, hr, haddr, hd, hb⟩ := hex
    refine ⟨?_, r.ptr, haddr, hb⟩
    have hdone : m.subscribeIsDone tags = true := by
      refine List.all_eq_true.mpr fun tag ht => ?_
      have hmem : tag ∈ m.tagToMachine := AList.lookup_isSome.mp (by rw [hb tag ht]; rfl)
      simp [hmem]
    unfold ipSubscribeSuccess
    rw [hconnected.mpr ⟨id, r, hr, haddr, hd⟩, hdone]
    rfl

/-- Messages were sent, and the rest is as it was. -/
theorem subscribed_of_delivered {n : MachineID → ExternalManager V → ℕ} (hm : References.Inv False m)
    (hm' : NoDangling m')
    (hd : Delivered env n m m') (ha : m'.addrToMachine = m.addrToMachine) (ht : m'.tagToMachine = m.tagToMachine) :
    Subscribed key tags m' ↔ Leads m key fun id r => r.Delivers env (n id r) ∧
      ∀ tag ∈ tags, m.tagToMachine.lookup tag = some r.ptr := by
  rw [subscribed_leads hm', ht]
  refine leads_of_alive hm hm' ha (fun id r hr => ?_) key fun ptr => ∀ tag ∈ tags, m.tagToMachine.lookup tag = some ptr
  obtain ⟨r', hr', hs⟩ := hd.lookup hr
  exact ⟨r', hr', hs.ptr, hs.alive⟩

/-! ## The call -/

/-- The entry of an operation that has to connect. -/
def entry (key : AddrPort) (tags : List TagID) : PendingInfo :=
  ⟨true, .waitingForConn, .specificIp, joinAfter (addressString key) tags⟩

/-- The two paths. -/
theorem ipSubscribe_paths {addr : AddrPort} (hkey : toCanonical env addr = .ok key)
    (hother : toIpPort env key ≠ toIpPort env (localhost, m.port)) (hcall : m.ipSubscribe env addr tags = .ok m') :
    (∃ ptr e, m.addrToMachine.lookup key = some ptr ∧ m.deref ptr = .ok e ∧
      m' = m.atPtr e.ptr (·.sendMessage env (.subscriptionNotice tags false))) ∨
    m.addrToMachine.lookup key = none ∧ key ∉ m.pendingConns ∧ m' = m.addPending key (entry key tags) := by
  unfold ipSubscribe at hcall
  rw [hkey, Except.ok_bind] at hcall
  cases hip : toIpPort env key with
  | error a =>
    rw [hip] at hcall
    cases hcall
  | ok ip =>
    cases hlocal : toIpPort env (localhost, m.port) with
    | error a =>
      rw [hip, hlocal] at hcall
      cases hcall
    | ok here =>
      have hne : ip ≠ here := fun h => hother (by rw [hip, hlocal, h])
      rw [hip, hlocal, Except.ok_bind, Except.ok_bind, if_neg hne] at hcall
      cases hl : m.addrToMachine.lookup key with
      | some ptr =>
        simp only [hl] at hcall
        cases hd : m.deref ptr with
        | error a =>
          rw [hd] at hcall
          cases hcall
        | ok e =>
          rw [hd] at hcall
          exact .inl ⟨ptr, e, rfl, hd, (Except.ok.inj hcall).symm⟩
      | none =>
        simp only [hl] at hcall
        split at hcall
        · cases hcall
        · rename_i hfree
          cases hc : connectTo env key.1 key.2 with
          | error a =>
            rw [hc] at hcall
            cases hcall
          | ok err =>
            rw [hc] at hcall
            exact .inr ⟨rfl, hfree, (Except.ok.inj hcall).symm⟩

/-- A call that leaves no connection to the address pending sent one message,
to the neighbour there. -/
theorem subscribed_at_once {addr : AddrPort} (hm : References.Inv False m) (hm' : NoDangling m')
    (hkey : toCanonical env addr = .ok key) (hother : toIpPort env key ≠ toIpPort env (localhost, m.port))
    (hcall : m.ipSubscribe env addr tags = .ok m') (hdone : m'.connIsComplete key = true) :
    Subscribed key tags m' ↔ Bound env 1 key tags m := by
  rcases ipSubscribe_paths hkey hother hcall with ⟨ptr, e, hptr, hd, rfl⟩ | ⟨-, -, rfl⟩
  · rw [subscribed_of_delivered hm hm' (atPtr_delivered env _ e.ptr m) rfl rfl, Bound, Leads, Leads]
    have hone {r : ExternalManager V} (haddr : m.addrToMachine.lookup key = some r.ptr) :
        (if r.ptr = e.ptr then 1 else 0) = 1 := by
      rw [hptr] at haddr
      exact if_pos ((Option.some.inj haddr).symm.trans (deref_eq hd).1.symm)
    constructor
    · intro hex
      obtain ⟨id, r, hr, haddr, hdel, hb⟩ := hex
      exact ⟨id, r, hr, haddr, hone haddr ▸ hdel, hb⟩
    · intro hex
      obtain ⟨id, r, hr, haddr, hdel, hb⟩ := hex
      exact ⟨id, r, hr, haddr, (hone haddr).symm ▸ hdel, hb⟩
  · simp [connIsComplete, addPending] at hdone

/-! ## The last step -/

theorem finalizeConnection_none {e : ExternalManager V} {r : Option (Manager V)}
    (h : m.finalizeConnection env info e = .ok r) : r = none ↔ rejects env info e = true := by
  unfold finalizeConnection at h
  unfold rejects
  cases htype : info.type with
  | byAccept =>
    simp only [htype] at h
    cases h
    exact ⟨nofun, nofun⟩
  | userRequested =>
    simp only [htype] at h
    cases h
    exact ⟨nofun, nofun⟩
  | subscription =>
    simp only [htype] at h
    cases h
    exact ⟨nofun, nofun⟩
  | reduceGroup =>
    simp only [htype] at h
    cases hf : m.finalizeParentTags env e.id info.tag with
    | error a =>
      rw [hf] at h
      cases h
    | ok m₁ =>
      rw [hf] at h
      cases h
      exact ⟨nofun, nofun⟩
  | specificIp =>
    simp only [htype] at h
    generalize split info.tag nul 2 = parts at h ⊢
    match parts with
    | [ip, rest] =>
      have hr := Except.ok.inj h
      rw [← hr]
      simp
    | [] => cases h
    | [_] => cases h
    | _ :: _ :: _ :: _ => cases h

/-- A connection that is dropped tells no one. -/
theorem dropConnection_delivered (key : AddrPort) (info : PendingInfo) (m : Manager V) :
    (m.dropConnection env key info).Ends (fun r => Delivered env (fun _ _ => 0) m r.1) fun _ => True := by
  have htag (pub base : TagID) (m : Manager V) :
      (m.handleTag pub base).Ends (Delivered env (fun _ _ => 0) m) fun _ => True := by
    unfold handleTag
    split
    · trivial
    · dsimp only
      split
      · refine ⟨fun _ e => { e with ignoreCacheOnNextRequest := true }, fun _ e => ?_, rfl⟩
        obtain ⟨hptr, hid, hasks, hlength, halive⟩ := Sent.refl env e
        exact ⟨hptr, hid, hasks, hlength, halive⟩
      · exact .of_eq rfl
  have htags {f : Manager V → TagID → Except Abort (Manager V)}
      (hf : ∀ m tag, (f m tag).Ends (Delivered env (fun _ _ => 0) m) fun _ => True) (l : List TagID) :
      (l.foldlM f m).Ends (Delivered env (fun _ _ => 0) m) fun _ => True := by
    refine .foldlM (I := fun _ m' => Delivered env (fun _ _ => 0) m m') (.of_eq rfl) fun tag _ m' _ h => ?_
    exact (hf m' tag).mono (fun _ h' => h.trans h' fun _ _ _ _ _ => rfl) fun _ h => h
  have herror : (m.handleError env info).Ends (fun r => Delivered env (fun _ _ => 0) m r.1) fun _ => True := by
    unfold handleError
    cases info.type with
    | byAccept => exact Delivered.of_eq rfl
    | userRequested => exact Delivered.of_eq rfl
    | specificIp => exact Delivered.of_eq rfl
    | subscription => exact .bind (htags (fun m tag => htag tag tag m) _) fun _ h => h
    | reduceGroup =>
      exact .bind (htags (fun m tag => .bind (Except.Ends.any _) fun _ _ => htag _ tag m) _) fun _ h => h
  unfold dropConnection
  exact .bind herror fun _ h => h

theorem greet_new (sender : MachineID) (neighbors : List MachineID) (port : UInt16) (ip : Str)
    (h : sender ∉ m.neighbors) : (m.greet env sender neighbors port ip).1 =
      ExternalManager.create env m.nextPtr ip sender neighbors port := by
  rw [greet, AList.lookup_eq_none.mpr h]

/-- A greeting on a connection to the address. -/
theorem greeted_bound {sender : MachineID} {neighbors : List MachineID} {port : UInt16} {ip : Str}
    (hm : References.Inv False m) (hm' : NoDangling m')
    (h : m.handleGreeting env key info sender neighbors port ip = .ok m') :
    Subscribed key tags m' ↔ WillBeBound env key tags info (.message (.greeting sender neighbors port) ip) m := by
  have hmg : References.Inv False (m.greet env sender neighbors port ip).2 :=
    (References.greet_refers sender neighbors port ip m fun h => h.elim).inv hm
  have htag : (m.greet env sender neighbors port ip).2.tagToMachine = m.tagToMachine := by
    obtain ⟨_, _, _, hg⟩ := greet_eq env sender neighbors port ip m
    rw [hg]
  unfold handleGreeting at h
  rw [subscribed_leads hm', WillBeBound]
  cases hf : (m.greet env sender neighbors port ip).2.finalizeConnection env info
      (m.greet env sender neighbors port ip).1 with
  | error a =>
    simp only [hf] at h
    cases h
  | ok r =>
    have hr := finalizeConnection_none hf
    simp only [hf, Except.ok_bind] at h
    cases r with
    | none =>
      cases h
      rw [if_pos (hr.mp rfl)]
      generalize hg : m.greet env sender neighbors port ip = g
      rw [hg] at hm' htag hmg
      have hmap (id : MachineID) : ((g.2.atPtr g.1.ptr markAsDead).erasePending key).neighbors.lookup id =
          (g.2.neighbors.lookup id).map fun r => if r.ptr = g.1.ptr then r.markAsDead else r :=
        AList.lookup_mapVal _ _ _
      have hleads : Leads ((g.2.atPtr g.1.ptr markAsDead).erasePending key) key (fun _ r => r.dead = false ∧
          ∀ tag ∈ tags, ((g.2.atPtr g.1.ptr markAsDead).erasePending key).tagToMachine.lookup tag = some r.ptr) ↔
          Leads g.2 key fun _ r => r.ptr ≠ g.1.ptr ∧ r.dead = false ∧
            ∀ tag ∈ tags, m.tagToMachine.lookup tag = some r.ptr := by
        rw [← htag]
        constructor
        · intro hex
          obtain ⟨id, r', hr', haddr, hd, hb⟩ := hex
          rw [hmap] at hr'
          obtain ⟨r, hl, rfl⟩ := Option.map_eq_some_iff.mp hr'
          by_cases hp : r.ptr = g.1.ptr
          · simp [hp, markAsDead] at hd
          · rw [if_neg hp] at haddr hd hb
            exact ⟨id, r, hl, haddr, hp, hd, hb⟩
        · intro hex
          obtain ⟨id, r, hl, haddr, hp, hd, hb⟩ := hex
          exact ⟨id, r, by rw [hmap, hl, Option.map_some, if_neg hp], haddr, hd, hb⟩
      rw [hleads, ← hg, greet_leads hm sender neighbors port ip (P := fun _ r =>
        r.ptr ≠ (m.greet env sender neighbors port ip).1.ptr ∧ r.dead = false ∧
          ∀ tag ∈ tags, m.tagToMachine.lookup tag = some r.ptr) fun _ _ => Iff.rfl]
      refine ⟨fun h => h.resolve_right fun hnew => ?_, .inl⟩
      obtain ⟨-, hno, -, hp, -⟩ := hnew
      rw [greet_new sender neighbors port ip hno] at hp
      exact hp rfl
    | some m₁ =>
      cases h
      have hno : ¬ rejects env info (m.greet env sender neighbors port ip).1 = true := fun hyes => nomatch hr.mpr hyes
      have hc : Completed env info (m.greet env sender neighbors port ip).1 sender
          (m.greet env sender neighbors port ip).2 _ :=
        completed_of_binding sender key ((finalizeConnection_binding info _ _).of_ok hf _ rfl)
      rw [if_neg hno, hc.tagToMachine, leads_of_alive hmg hm' hc.addrToMachine hc.alive key fun ptr => ∀ tag ∈ tags,
        ((m.greet env sender neighbors port ip).2.bindTags (boundBy info)
          (m.greet env sender neighbors port ip).1.ptr).tagToMachine.lookup tag = some ptr]
      have hserves : (fun id (r : ExternalManager V) =>
          r.Delivers env (greetingSends env (m.greet env sender neighbors port ip).2 info
            (m.greet env sender neighbors port ip).1 sender id r) ∧
          ∀ tag ∈ tags, ((m.greet env sender neighbors port ip).2.bindTags (boundBy info)
            (m.greet env sender neighbors port ip).1.ptr).tagToMachine.lookup tag = some r.ptr) =
          Serves env tags info m (m.greet env sender neighbors port ip).1 sender := by
        funext id r
        simp only [Serves, greetingSends, asks_greet, bindTags, lookup_bindAll, htag]
      rw [hserves, greet_leads hm sender neighbors port ip fun _ _ => Iff.rfl]
      refine or_congr_right (and_congr_right fun _ => and_congr_right fun hnew => ?_)
      rw [greet_new sender neighbors port ip hnew]

/-- The last step of a connection to the address. -/
theorem processConn_bound {event : ConnEvent V} {new : Bool} (hm : References.Inv False m) (hm' : NoDangling m')
    (hinfo : m.pendingConns.lookup key = some info) (h : m.processConn env key info event = .ok (m', new))
    (hdone : m'.connIsComplete key = true) : Subscribed key tags m' ↔ WillBeBound env key tags info event m := by
  have hpending : ¬ m.connIsComplete key = true := by
    have hmem : key ∈ m.pendingConns := AList.lookup_isSome.mp (hinfo ▸ rfl)
    simp [connIsComplete, hmem]
  have hdropped (hd : m.dropConnection env key info = .ok (m', new)) :
      Subscribed key tags m' ↔ Bound env 0 key tags m := by
    have hsent := (dropConnection_delivered key info m).of_ok hd
    have hbinds := (dropConnection_binds key info).of_ok hd
    have hstill := (dropConnection_cases key info m).of_ok hd
    exact subscribed_of_delivered hm hm' hsent hbinds.addrToMachine hstill.2.tagToMachine
  unfold processConn at h
  cases event with
  | quiet =>
    cases h
    exact absurd hdone hpending
  | connected send =>
    dsimp only at h
    split at h
    · cases h
      exact subscribed_of_delivered hm hm' (.of_eq rfl) rfl rfl
    · cases h
      simp [connIsComplete] at hdone
  | failed => exact hdropped h
  | readError => exact hdropped h
  | badMessage => exact hdropped h
  | message msg ip =>
    cases msg with
    | greeting sender neighbors port =>
      dsimp only at h
      cases hg : m.handleGreeting env key info sender neighbors port ip with
      | error a =>
        rw [hg] at h
        cases h
      | ok m₁ =>
        rw [hg] at h
        cases h
        exact greeted_bound hm hm' hg
    | _ => exact hdropped h

/-! ## Until the last step -/

/-- The entry is there, perhaps with another status. -/
def Stays (key : AddrPort) (info : PendingInfo) (m : Manager V) : Prop :=
  ∃ info', m.pendingConns.lookup key = some info' ∧ info'.type = info.type ∧ info'.tag = info.tag

theorem Stays.of_eq (h : Stays key info m) (hc : m'.pendingConns = m.pendingConns) : Stays key info m' := by
  unfold Stays
  rw [hc]
  exact h

theorem Stays.addPending (h : Stays key info m) {key' : AddrPort} (hfree : key' ∉ m.pendingConns)
    (info' : PendingInfo) : Stays key info (m.addPending key' info') := by
  obtain ⟨i, hl, hrest⟩ := h
  have hne : key ≠ key' := by
    rintro rfl
    exact hfree (AList.lookup_isSome.mp (hl ▸ rfl))
  exact ⟨i, (AList.lookup_insert_ne hne).trans hl, hrest⟩

theorem initConnections_stays (h : Stays key info m) :
    (m.initConnections env).Ends (Stays key info) fun _ => True := by
  unfold initConnections
  refine .bind (initLoop_rule (P := fun _ s => s.m.pendingConns = m.pendingConns) (fun _ _ => trivial) rfl
    (fun _ _ h => h) (fun _ _ h => h) (fun _ _ _ hs => ?_) fun _ _ h => h) fun s hs => ?_
  · refine (finalizePending_still env _ _ _ _).mono (fun m' hm' => ?_) fun _ _ => trivial
    obtain ⟨-, hm'⟩ := hm'
    split at hm'
    · exact hm'.pendingConns.trans hs
    · obtain ⟨_, -, hstill⟩ := hm'
      exact hstill.pendingConns.trans hs
  · refine .bind (.foldlM (I := fun _ m' => Stays key info m') (h.of_eq hs) fun e _ m' _ hm' => ?_) fun m' hm' => hm'
    refine (startConnection_cases e m').mono (fun m₁ hm₁ => ?_) fun _ _ => trivial
    rcases hm₁ with ⟨-, rfl⟩ | ⟨key', conn, hfree, rfl, -⟩
    · exact hm'
    · exact hm'.addPending hfree _

/-- What a step does to the entry it looks at. -/
theorem processConn_pending (key : AddrPort) (info : PendingInfo) (event : ConnEvent V) (m : Manager V) :
    (m.processConn env key info event).Ends (fun r => r.1.pendingConns = m.pendingConns ∨
      r.1.pendingConns = m.pendingConns.erase key ∨
        r.1.pendingConns = m.pendingConns.insert key { info with status := .waitingForResp }) fun _ => True := by
  have hdrop : (m.dropConnection env key info).Ends (fun r => r.1.pendingConns = m.pendingConns ∨
      r.1.pendingConns = m.pendingConns.erase key ∨
        r.1.pendingConns = m.pendingConns.insert key { info with status := .waitingForResp }) fun _ => True :=
    (dropConnection_cases key info m).mono (fun _ h => .inr (.inl h.2.pendingConns)) fun _ _ => trivial
  unfold processConn
  cases event with
  | quiet => exact .inl rfl
  | connected send =>
    dsimp only
    split
    · exact .inr (.inl rfl)
    · exact .inr (.inr rfl)
  | failed => exact hdrop
  | readError => exact hdrop
  | badMessage => exact hdrop
  | message msg ip =>
    cases msg with
    | greeting sender neighbors port =>
      refine .bind ((handleGreeting_cases key info sender neighbors port ip m).mono (fun m' h => ?_)
        fun _ _ => trivial) fun m' h => .inr (.inl h)
      obtain ⟨m₁, hc, hs⟩ := h
      obtain ⟨_, _, _, hg⟩ := greet_eq env sender neighbors port ip m
      have hpending : m₁.pendingConns = m.pendingConns := by
        rw [hg] at hc
        cases hc <;> rfl
      exact hs.pendingConns.trans (congrArg (AList.erase key) hpending)
    | _ => exact hdrop

variable [Typed V]

/-- A look at a connection. -/
theorem conn_stays {key' : AddrPort} {todo : List AddrPort} {new : Bool} {event : ConnEvent V} (h : Stays key info m)
    (he : (Label.conn event env).enabled (.conns (key' :: todo) new) m = true) :
    (act (.conn event env) (.conns (key' :: todo) new) m).Ends
      (fun r => Stays key info r.2 ∨ r.2.connIsComplete key = true ∧ key = key') fun _ => True := by
  obtain ⟨info', hi, -⟩ := (Option.any_eq_true _ _).mp he
  unfold L4.act
  dsimp only
  rw [hi]
  refine .bind (processConn_pending key' info' event m) fun r hr => ?_
  obtain ⟨i, hk, htype, htag⟩ := h
  rcases hr with hr | hr | hr
  · exact .inl ⟨i, by rw [hr, hk], htype, htag⟩
  · by_cases hkey : key = key'
    · subst hkey
      exact .inr ⟨by simp [connIsComplete, hr], rfl⟩
    · exact .inl ⟨i, by rw [hr, AList.lookup_erase_ne hkey, hk], htype, htag⟩
  · by_cases hkey : key = key'
    · subst hkey
      rw [hk] at hi
      cases hi
      exact .inl ⟨{ info' with status := .waitingForResp }, by rw [hr, AList.lookup_insert], htype, htag⟩
    · exact .inl ⟨i, by rw [hr, AList.lookup_insert_ne hkey, hk], htype, htag⟩

/-- Only a look at the connection ends its entry. -/
theorem act_stays {l : Label V} {pc : Pc} (he : l.enabled pc m = true) (h : Stays key info m) :
    (act l pc m).Ends (fun r => Stays key info r.2 ∨ r.2.connIsComplete key = true ∧
      ∃ todo new event env, pc = .conns (key :: todo) new ∧ l = .conn event env) fun _ => True := by
  by_cases hl : l.movesTags = false
  · exact (act_still hl).mono (fun _ hs => .inl (h.of_eq hs.pendingConns)) fun _ _ => trivial
  cases l with
  | subscribe tagIds env =>
    obtain ⟨fresh, -, -, hs⟩ := Manager.subscribe_still env tagIds m
    exact .inl (h.of_eq hs.pendingConns)
  | ipSubscribe addr tagIds env =>
    refine .bind ((Manager.ipSubscribe_cases addr tagIds m).mono ?_ fun _ _ => trivial) fun m' h' => Or.inl h'
    intro m' hor
    rcases hor with hs | ⟨key', -, hfree, rfl⟩
    · exact h.of_eq hs.pendingConns
    · exact h.addPending hfree _
  | connectToServer addr env =>
    refine .bind ((Manager.connectToServer_cases addr m).mono ?_ fun _ _ => trivial) fun m' h' => Or.inl h'
    intro m' hor
    rcases hor with rfl | ⟨key', hfree, rfl⟩
    · exact h
    · exact h.addPending hfree _
  | createReduceGroup group env =>
    refine .bind ((Manager.createReduceGroup_still group).mono ?_ fun _ _ => trivial) fun m' h' => Or.inl h'
    intro m' hex
    obtain ⟨data, -, hs⟩ := hex
    exact h.of_eq hs.pendingConns
  | rebuildReduceGroup groupId env =>
    unfold L4.act
    dsimp only
    split
    · trivial
    · refine .bind ((Manager.rebuildReduceGroup_still groupId).mono ?_ fun _ _ => trivial) fun m' h' => Or.inl h'
      intro m' hex
      obtain ⟨tags, queued, -, -, hs⟩ := hex
      exact h.of_eq hs.pendingConns
  | conn event env =>
    cases pc with
    | conns todo new =>
      cases todo with
      | nil => cases he
      | cons key' todo =>
        refine (conn_stays h he).mono (fun r hr => hr.imp_right fun hdone => ?_) fun _ _ => trivial
        obtain ⟨hcomplete, rfl⟩ := hdone
        exact ⟨hcomplete, todo, new, event, env, rfl, rfl⟩
    | _ => cases he
  | init env =>
    cases pc with
    | connsInit => exact .bind (initConnections_stays h) fun m' h' => Or.inl h'
    | reportInit id todo => exact .bind (initConnections_stays h) fun m' h' => Or.inl h'
    | _ => cases he
  | accept addr =>
    refine .bind ((Manager.acceptConnection_cases m _ addr).mono ?_ fun _ _ => trivial) fun m' h' => Or.inl h'
    intro m' hex
    obtain ⟨key', hfree, rfl⟩ := hex
    exact h.addPending hfree _
  | remove env =>
    cases pc with
    | removing todo new =>
      cases todo with
      | nil => cases he
      | cons id todo =>
        refine .bind ((Manager.removeNeighbor_still id m).mono ?_ fun _ _ => trivial) fun r hr => Or.inl hr
        rintro ⟨m', new⟩ (rfl | ⟨e, m₁, -, hs, rfl⟩)
        · exact h
        · exact h.of_eq hs.pendingConns
    | _ => cases he
  | _ => exact absurd rfl hl

/-- The run while the operation is incomplete. -/
def waiting (key : AddrPort) : Sys V → Label V → Prop
  | .running _ m, _ => m.connIsComplete key = false
  | .aborted _, _ => True

theorem run_stays {s t : Sys V} {ls : List (Label V)} (hrun : ((lts V).restrict (waiting key)).Run s ls t) :
    ∀ {pc pc' : Pc} {m m' : Manager V}, s = .running pc m → t = .running pc' m' → Stays key info m →
      m'.connIsComplete key = false → Stays key info m' := by
  induction hrun with
  | nil s =>
    rintro pc pc' m m' rfl ht h -
    cases ht
    exact h
  | cons hstep hrest ih =>
    rintro pc pc' m m' rfl rfl h hm'
    rename_i u l ls
    obtain ⟨hs, -⟩ := hstep
    cases u with
    | aborted a =>
      cases hrest with
      | cons hs' _ => cases hs'.1
    | running pc₁ m₁ =>
      obtain ⟨he, ha⟩ := step_running hs
      refine ih rfl rfl (((act_stays he h).of_ok ha).resolve_right fun hdone => ?_) hm'
      have hwait : m₁.connIsComplete key = false := by
        cases hrest with
        | nil => exact hm'
        | cons hs' _ => exact hs'.2
      rw [hwait] at hdone
      exact nomatch hdone.1

/-! ## The result -/

/-- **When an `ip_subscribe` that is complete has succeeded.** Where no
connection to the address is pending after the call, exactly when the tags were
bound to the neighbour before. Else the last step is a look at that connection,
which still has the entry of the call where the call made one, and it decides. -/
theorem subscribed_iff {addr : AddrPort} (h : (lts V).Reachable (.running .idle m))
    (hkey : toCanonical env addr = .ok key) (hother : toIpPort env key ≠ toIpPort env (localhost, m.port))
    (hcall : step (.running .idle m) (.ipSubscribe addr tags env) = some (.running .idle m₁)) :
    (m₁.connIsComplete key = true → (Subscribed key tags m₁ ↔ Bound env 1 key tags m)) ∧
    ∀ ls pc m' l pc₂ m₂, ((lts V).restrict (waiting key)).Run (.running .idle m₁) ls (.running pc m') →
      m'.connIsComplete key = false → step (.running pc m') l = some (.running pc₂ m₂) →
        m₂.connIsComplete key = true →
      ∃ todo new event env' info, pc = .conns (key :: todo) new ∧ l = .conn event env' ∧
        m'.pendingConns.lookup key = some info ∧
        (key ∉ m.addrToMachine → info.type = .specificIp ∧ info.tag = joinAfter (addressString key) tags) ∧
        (Subscribed key tags m₂ ↔ WillBeBound env' key tags info event m') := by
  have hm : References.Inv False m := References.inv_of_reachable h
  have hr₁ : (lts V).Reachable (.running .idle m₁) := h.step hcall
  have hok : m.ipSubscribe env addr tags = .ok m₁ := by
    obtain ⟨-, ha⟩ := step_running hcall
    change (m.ipSubscribe env addr tags >>= fun m' => pure (Pc.idle, m')) = .ok (.idle, m₁) at ha
    cases hx : m.ipSubscribe env addr tags with
    | error a =>
      rw [hx] at ha
      cases ha
    | ok m₂ =>
      rw [hx] at ha
      cases ha
      rfl
  refine ⟨subscribed_at_once hm (References.inv_of_reachable hr₁).noDangling hkey hother hok, ?_⟩
  intro ls pc m' l pc₂ m₂ hrun hwait hstep hdone
  have hpending : m₁.connIsComplete key = false := by
    cases hrun with
    | nil => exact hwait
    | cons hs _ => exact hs.2
  have hr' : (lts V).Reachable (.running pc m') := hr₁.run hrun.of_restrict
  obtain ⟨he, ha⟩ := step_running hstep
  have hnot {i : PendingInfo} : ¬ Stays key i m₂ := by
    intro hex
    obtain ⟨i', hl, -⟩ := hex
    have hmem : key ∈ m₂.pendingConns := AList.lookup_isSome.mp (hl ▸ rfl)
    simp [connIsComplete, hmem] at hdone
  have hlast {i : PendingInfo} (hs : Stays key i m') :
      ∃ todo new event env', pc = .conns (key :: todo) new ∧ l = .conn event env' := by
    rcases (act_stays he hs).of_ok ha with hs' | ⟨-, hl⟩
    · exact absurd hs' hnot
    · exact hl
  obtain ⟨i₁, hi₁⟩ : ∃ i, m₁.pendingConns.lookup key = some i := by
    refine Option.isSome_iff_exists.mp (AList.lookup_isSome.mpr ?_)
    simpa [connIsComplete] using hpending
  have hstays : Stays key i₁ m' := run_stays hrun rfl rfl ⟨i₁, hi₁, rfl, rfl⟩ hwait
  obtain ⟨todo, new, event, env', rfl, rfl⟩ := hlast hstays
  obtain ⟨info, hinfo, htype, htag⟩ := hstays
  refine ⟨todo, new, event, env', info, rfl, rfl, hinfo, fun hfree => ?_, ?_⟩
  · rcases ipSubscribe_paths hkey hother hok with ⟨ptr, e, hptr, -⟩ | ⟨-, -, rfl⟩
    · exact absurd (AList.lookup_isSome.mp (hptr ▸ rfl)) hfree
    · rw [addPending, AList.lookup_insert] at hi₁
      cases hi₁
      exact ⟨htype, htag⟩
  · unfold act at ha
    simp only [hinfo] at ha
    cases hx : m'.processConn env' key info event with
    | error a =>
      rw [hx] at ha
      cases ha
    | ok r =>
      rw [hx] at ha
      cases ha
      exact processConn_bound (References.inv_of_reachable hr')
        (References.inv_of_reachable (hr'.step hstep)).noDangling hinfo hx hdone

/-- The neighbour `c` at its address. -/
theorem not_subscribed : ∃ m m₁ : Manager Nat, (lts Nat).Reachable (.running .idle m) ∧
    step (.running .idle m) (.ipSubscribe (['c'], 1) [['p', 't']] quietEnv) = some (.running .idle m₁) ∧
    m₁.connIsComplete (['c'], 1) = true ∧ ¬ Subscribed (['c'], 1) [['p', 't']] m₁ := by
  obtain ⟨m, m₁, hx, hs, hdone, hno⟩ : ∃ m m₁ : Manager Nat,
      LTS.exec step machine (connected ++ [.endMessages quietEnv, .remove quietEnv, .endPass quietEnv]) =
        some (.running .idle m) ∧
      step (.running .idle m) (.ipSubscribe (['c'], 1) [['p', 't']] quietEnv) = some (.running .idle m₁) ∧
      m₁.connIsComplete (['c'], 1) = true ∧ m₁.tagToMachine.lookup ['p', 't'] = none :=
    ⟨_, _, rfl, rfl, rfl, rfl⟩
  refine ⟨m, m₁, LTS.reachable_of_exec initial_machine hx, hs, hdone, fun h => ?_⟩
  obtain ⟨-, ptr, -, hb⟩ := h
  have hyes := hb ['p', 't'] (List.mem_singleton_self _)
  rw [hno] at hyes
  cases hyes

/-- A tag of `c` that was found before. -/
theorem subscribed_again : ∃ m m₁ : Manager Nat,
    step (.running .idle m) (.ipSubscribe (['c'], 1) [['p', 't']] quietEnv) = some (.running .idle m₁) ∧
    m₁.connIsComplete (['c'], 1) = true ∧ Subscribed (['c'], 1) [['p', 't']] m₁ := by
  obtain ⟨m, m₁, e, hx, hs, hdone, hother, he, haddr, hdead, hb⟩ : ∃ (m m₁ : Manager Nat) (e : ExternalManager Nat),
      LTS.exec step machine (.subscribe [['p', 't']] quietEnv :: connected ++
        [.message (.reportPublishers [] [] [] [['p', 't']]) quietEnv, .init quietEnv, .endMessages quietEnv,
          .remove quietEnv, .endPass quietEnv]) = some (.running .idle m) ∧
      step (.running .idle m) (.ipSubscribe (['c'], 1) [['p', 't']] quietEnv) = some (.running .idle m₁) ∧
      m₁.connIsComplete (['c'], 1) = true ∧ m.port = 1 ∧ m.neighbors.lookup ['c'] = some e ∧
      m.addrToMachine.lookup (['c'], 1) = some e.ptr ∧ e.dead = false ∧
      m.tagToMachine.lookup ['p', 't'] = some e.ptr :=
    ⟨_, _, _, rfl, rfl, rfl, rfl, rfl, rfl, rfl, rfl⟩
  refine ⟨m, m₁, hs, hdone, ?_⟩
  have hkey : toCanonical quietEnv (['c'], 1) = .ok (['c'], 1) := rfl
  have hne : toIpPort quietEnv (['c'], 1) ≠ toIpPort quietEnv (localhost, m.port) := by
    rw [hother]
    decide
  refine ((subscribed_iff (LTS.reachable_of_exec initial_machine hx) hkey hne hs).1 hdone).mpr
    ⟨['c'], e, he, haddr, ⟨hdead, fun _ _ => rfl⟩, fun tag ht => ?_⟩
  rw [List.mem_singleton.mp ht]
  exact hb

end Skywing.L4.IpSubscribe
