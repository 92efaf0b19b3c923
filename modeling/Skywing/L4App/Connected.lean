import Skywing.L3Protocol.Delivery
import Skywing.L4App.References

/-!
# Connections that are complete

`connect_to_server` (`skywing_core/manager.cpp`) gives back a waiter. It waits
until the address dialled is no longer pending and then says whether the
address leads to a neighbour that is alive. A greeting is handled by machine
id: a new machine is entered under its address, and one that is a neighbour
already gets one more socket, so the address dialled may lead nowhere, or to a
record that died before.

Results:
* `reported_iff`: in every reachable state, a handshake that completes is
  reported as a success exactly where the address led to a neighbour already
  or the machine is new, and the messages of the step can be sent to it.
* `unreported`: a neighbour is connected to at its second address.
-/
namespace Skywing.L4.Connected

open L3
open L3.Manager hiding id
open L3.ExternalManager (Delivers addCommunicator)
open References (NoDangling)
open CutOff (connected)
open GroupMembers (quietEnv machine initial_machine)

variable {V : Type}

/-! ## The property and the condition -/

/-- What the waiter looks at. -/
def Reported (key : AddrPort) (m : Manager V) : Prop :=
  m.connIsComplete key = true ∧ m.addrIsConnected key = .ok true

/-- The messages to a record in the step that completes a connection with
`sender`: news of a new neighbour, and a search for publishers. -/
def sendsTo (env : Env) (m : Manager V) (sender : MachineID) (e : ExternalManager V) : ℕ :=
  (if e.id = sender then 0 else 1) + if m.asks env [] e then 1 else 0

/-- The address leads to a neighbour with `P`. -/
def Leads (m : Manager V) (key : AddrPort) (P : MachineID → ExternalManager V → Prop) : Prop :=
  ∃ id e, m.neighbors.lookup id = some e ∧ m.addrToMachine.lookup key = some e.ptr ∧ P id e

/-- The address dialled leads to a neighbour, or `sender` is new and is entered
under it; and the neighbour survives the step. -/
def LeadsToNeighbor (env : Env) (key : AddrPort) (sender : MachineID) (neighbors : List MachineID) (ip : Str)
    (m : Manager V) : Prop :=
  Leads m key (fun _ e => e.Delivers env (sendsTo env m sender e)) ∨
  m.addrToMachine.lookup key = none ∧ sender ∉ m.neighbors ∧ (env.unnamedPeer m.nextPtr .addressKey).getD ip = key.1 ∧
    Delivers env (sendsTo env m sender (.create (V := V) env m.nextPtr ip sender neighbors key.2))
      (.create (V := V) env m.nextPtr ip sender neighbors key.2)

/-! ## Addresses that lead somewhere -/

variable {m m' : Manager V} {env : Env} {key : AddrPort}

theorem deref_of_lookup (h : NoDangling m) {id : MachineID} {e : ExternalManager V}
    (he : m.neighbors.lookup id = some e) : m.deref e.ptr = .ok e := by
  unfold deref
  cases hf : m.neighbors.entries.find? fun r => r.2.ptr = e.ptr with
  | none =>
    have hno := List.find?_eq_none.mp hf ⟨id, e⟩ (AList.mem_entries_iff.mpr he)
    simp at hno
  | some r =>
    have hptr : r.2.ptr = e.ptr := by simpa using List.find?_some hf
    have hr := AList.mem_entries_iff.mp (List.mem_of_find?_eq_some hf)
    have hid := h.distinct r.1 id r.2 e hr he hptr
    rw [hid, he] at hr
    cases hr
    rfl

theorem addrIsConnected_iff (h : NoDangling m) (key : AddrPort) : m.addrIsConnected key = .ok true ↔
    Leads m key fun _ e => e.dead = false := by
  unfold addrIsConnected Leads
  cases hl : m.addrToMachine.lookup key with
  | none => exact ⟨nofun, nofun⟩
  | some ptr =>
    obtain ⟨id, e, he, rfl⟩ := h.addr key ptr hl
    dsimp only
    rw [deref_of_lookup h he]
    constructor
    · intro hd
      have hd : (!e.dead) = true := Except.ok.inj hd
      exact ⟨id, e, he, rfl, by simpa using hd⟩
    · intro hex
      obtain ⟨id', e', he', hptr, hd⟩ := hex
      have hid := h.distinct id id' e e' he he' (Option.some.inj hptr)
      rw [← hid, he] at he'
      cases he'
      show Except.ok (!e.dead) = _
      rw [hd]
      rfl

/-- Where an address leads once messages were sent. -/
theorem leads_of_alive {n : MachineID → ExternalManager V → ℕ} (hm : References.Inv False m) (hm' : NoDangling m')
    (ha : m'.addrToMachine = m.addrToMachine)
    (halive : ∀ id r, m.neighbors.lookup id = some r → ∃ r', m'.neighbors.lookup id = some r' ∧ r'.ptr = r.ptr ∧
      (r'.dead = false ↔ r.Delivers env (n id r))) (key : AddrPort) (Q : ℕ → Prop) :
    Leads m' key (fun _ r => r.dead = false ∧ Q r.ptr) ↔
      Leads m key fun id r => r.Delivers env (n id r) ∧ Q r.ptr := by
  unfold Leads
  rw [ha]
  constructor
  · intro hex
    obtain ⟨id', r', hr', haddr, hd, hQ⟩ := hex
    obtain ⟨id, r, hr, hptr, -⟩ := hm.addr key r'.ptr haddr
    obtain ⟨r'', hr'', hptr', hdead⟩ := halive id r hr
    have hid := hm'.distinct id id' r'' r' hr'' hr' (hptr'.trans hptr)
    rw [← hid, hr''] at hr'
    cases hr'
    rw [hptr'] at haddr hQ
    exact ⟨id, r, hr, haddr, hdead.mp hd, hQ⟩
  · intro hex
    obtain ⟨id, r, hr, haddr, hd, hQ⟩ := hex
    obtain ⟨r', hr', hptr, hdead⟩ := halive id r hr
    exact ⟨id, r', hr', by rw [haddr, hptr], hdead.mpr hd, by rw [hptr]; exact hQ⟩

theorem asks_greet (sender : MachineID) (neighbors : List MachineID) (port : UInt16) (ip : Str) (bound : List TagID)
    (r : ExternalManager V) : (m.greet env sender neighbors port ip).2.asks env bound r = m.asks env bound r := by
  unfold greet
  split <;> rfl

/-- What an address leads to once a greeting was read: the record it led to
before, or the new one. -/
theorem greet_leads (hm : References.Inv False m) (sender : MachineID) (neighbors : List MachineID)
    (port : UInt16) (ip : Str)
    {P : MachineID → ExternalManager V → Prop} (hP : ∀ id r, P id (addCommunicator ip r) ↔ P id r) :
    Leads (m.greet env sender neighbors port ip).2 key P ↔ Leads m key P ∨
      m.addrToMachine.lookup key = none ∧ sender ∉ m.neighbors ∧
        ((env.unnamedPeer m.nextPtr .addressKey).getD ip, port) = key ∧
        P sender (.create env m.nextPtr ip sender neighbors port) := by
  unfold greet Leads
  generalize hip : (env.unnamedPeer m.nextPtr .addressKey).getD ip = kept
  cases hs : m.neighbors.lookup sender with
  | some e =>
    have hmem : sender ∈ m.neighbors := AList.lookup_isSome.mp (hs ▸ rfl)
    have hone (id : MachineID) (r : ExternalManager V) :
        P id (if id = sender then addCommunicator ip r else r) ↔ P id r := by
      split
      · exact hP id r
      · rfl
    have hptr (id : MachineID) (r : ExternalManager V) :
        (if id = sender then addCommunicator ip r else r).ptr = r.ptr := by split <;> rfl
    constructor
    · intro hex
      obtain ⟨id, r', hr', haddr, hr⟩ := hex
      obtain ⟨r, hl, rfl⟩ := of_lookup_atNeighbor hr'
      rw [hptr] at haddr
      exact .inl ⟨id, r, hl, haddr, (hone id r).mp hr⟩
    · intro hor
      rcases hor with ⟨id, r, hl, haddr, hr⟩ | ⟨-, hno, -⟩
      · refine ⟨id, _, (lookup_atNeighbor _ _ _ _).trans (congrArg _ hl), ?_, (hone id r).mpr hr⟩
        rw [hptr]
        exact haddr
      · exact absurd hmem hno
  | none =>
    have hnew : sender ∉ m.neighbors := AList.lookup_eq_none.mp hs
    have hother {id : MachineID} {r : ExternalManager V} (hl : m.neighbors.lookup id = some r) : id ≠ sender := by
      rintro rfl
      rw [hs] at hl
      cases hl
    -- an address that was there leads to an older record
    have haddr (ptr : ℕ) : (m.addrToMachine.insertNew (kept, port) m.nextPtr).lookup key = some ptr ↔
        m.addrToMachine.lookup key = some ptr ∨
          m.addrToMachine.lookup key = none ∧ (kept, port) = key ∧ ptr = m.nextPtr := by
      rw [AList.lookup_insertNew]
      by_cases hk : key = (kept, port)
      · subst hk
        rw [if_pos rfl]
        cases m.addrToMachine.lookup (kept, port) with
        | none => simp [eq_comm]
        | some p => simp
      · rw [if_neg hk]
        exact ⟨.inl, fun h => h.elim (fun h => h) fun h => absurd h.2.1.symm hk⟩
    have hpair : (ExternalManager.create (V := V) env m.nextPtr ip sender neighbors port).addressPair env =
        (kept, port) := by rw [← hip]; rfl
    dsimp only
    rw [hpair]
    constructor
    · intro hex
      obtain ⟨id, r, hl, hk, hr⟩ := hex
      by_cases hid : id = sender
      · subst hid
        rw [AList.lookup_insert] at hl
        cases hl
        rcases (haddr _).mp hk with hk | ⟨hk, hkey, -⟩
        · obtain ⟨id', r', hl', hptr, -⟩ := hm.addr key _ hk
          exact absurd (hptr ▸ hm.numbered.lt id' r' hl') (lt_irrefl _)
        · exact .inr ⟨hk, hnew, hkey, hr⟩
      · rw [AList.lookup_insert_ne hid] at hl
        rcases (haddr _).mp hk with hk | ⟨-, -, hptr⟩
        · exact .inl ⟨id, r, hl, hk, hr⟩
        · exact absurd (hptr ▸ hm.numbered.lt id r hl) (lt_irrefl _)
    · intro hor
      rcases hor with ⟨id, r, hl, hk, hr⟩ | ⟨hk, -, hkey, hr⟩
      · exact ⟨id, r, (AList.lookup_insert_ne (hother hl)).trans hl, (haddr _).mpr (.inl hk), hr⟩
      · exact ⟨sender, _, AList.lookup_insert _, (haddr _).mpr (.inr ⟨hk, hkey, rfl⟩), hr⟩

/-! ## The result -/

variable [Typed V]

/-- **A handshake that completes is reported as a success exactly where the
address leads to a neighbour that survives the step.** -/
theorem reported_iff {todo : List AddrPort} {newTags : Bool} {info : PendingInfo}
    (h : (lts V).Reachable (.running (.conns (key :: todo) newTags) m)) (hinfo : m.pendingConns.lookup key = some info)
    (hconn : info.conn = true) (hstatus : info.status = .waitingForResp) (htype : info.type = .userRequested)
    (env : Env) (sender : MachineID) (neighbors : List MachineID) (ip : Str) :
    ∃ m', step (.running (.conns (key :: todo) newTags) m)
        (.conn (.message (.greeting sender neighbors key.2) ip) env) = some (.running (.conns todo newTags) m') ∧
      (Reported key m' ↔ LeadsToNeighbor env key sender neighbors ip m) := by
  have hm : References.Inv False m := References.inv_of_reachable h
  have hmg : References.Inv False (m.greet env sender neighbors key.2 ip).2 :=
    (References.greet_refers sender neighbors key.2 ip m fun h => h.elim).inv hm
  have hfinalize (e : ExternalManager V) (m₁ : Manager V) : m₁.finalizeConnection env info e = .ok (some m₁) := by
    rw [finalizeConnection, htype]
    rfl
  have hs : step (.running (.conns (key :: todo) newTags) m)
      (.conn (.message (.greeting sender neighbors key.2) ip) env) = some (.running (.conns todo newTags)
        ((((m.greet env sender neighbors key.2 ip).2.notifyOfNewNeighbor env sender).findPublishersForPendingTags env
          false).erasePending key)) := by
    refine step_of_act ?_ ?_
    · simp [Label.enabled, hinfo, ConnEvent.possible, hconn, hstatus]
    · simp only [act, hinfo, processConn, handleGreeting, hfinalize]
      simp [pure, Except.pure]
  refine ⟨_, hs, ?_⟩
  have hc : Completed env info (m.greet env sender neighbors key.2 ip).1 sender
      (m.greet env sender neighbors key.2 ip).2 _ :=
    completed_of_binding sender key ((finalizeConnection_binding info _ _).of_ok (hfinalize _ _) _ rfl)
  have hsends (id : MachineID) (r : ExternalManager V) :
      greetingSends env (m.greet env sender neighbors key.2 ip).2 info
      (m.greet env sender neighbors key.2 ip).1 sender id r = sendsTo env m sender r := by
    rw [greetingSends, finalizeSends, boundBy, htype, asks_greet]
    exact congrArg (· + _) (Nat.zero_add _)
  have hcomplete : connIsComplete key (((m.greet env sender neighbors key.2 ip).2.notifyOfNewNeighbor env
      sender).findPublishersForPendingTags env false |>.erasePending key) = true := by
    simp [connIsComplete, erasePending, AList.mem_erase]
  have hnd := (References.inv_of_reachable (h.step hs)).noDangling
  have hleads := leads_of_alive hmg hnd hc.addrToMachine hc.alive key fun _ => True
  simp only [and_true] at hleads
  rw [Reported, addrIsConnected_iff hnd, hleads]
  simp only [hcomplete, hsends, true_and]
  rw [greet_leads hm sender neighbors key.2 ip (P := fun _ r => r.Delivers env (sendsTo env m sender r))
    fun _ _ => Iff.rfl]
  unfold LeadsToNeighbor
  rw [Prod.ext_iff]
  simp

/-! ## A second address -/

/-- The neighbour `c` at its address `d` as well. -/
def connectedTwice : List (Label Nat) :=
  connected ++ [.endMessages quietEnv, .remove quietEnv, .endPass quietEnv, .connectToServer (['d'], 1) quietEnv,
    .beginPass quietEnv, .conn (.connected .noError) quietEnv, .endConns quietEnv, .endAccept quietEnv, .nextNeighbor,
    .endMessages quietEnv, .remove quietEnv, .endPass quietEnv, .beginPass quietEnv]

theorem unreported : ∃ (m m' : Manager Nat), (lts Nat).Reachable (.running (.conns [(['d'], 1)] false) m) ∧
    step (.running (.conns [(['d'], 1)] false) m) (.conn (.message (.greeting ['c'] [] 1) ['d']) quietEnv) =
      some (.running (.conns [] false) m') ∧ ¬ Reported (['d'], 1) m' := by
  obtain ⟨m, m', hx, hs, hno⟩ : ∃ m m' : Manager Nat,
      LTS.exec step machine connectedTwice = some (.running (.conns [(['d'], 1)] false) m) ∧
      step (.running (.conns [(['d'], 1)] false) m) (.conn (.message (.greeting ['c'] [] 1) ['d']) quietEnv) =
        some (.running (.conns [] false) m') ∧ m'.addrToMachine.lookup (['d'], 1) = none :=
    ⟨_, _, rfl, rfl, rfl⟩
  refine ⟨m, m', LTS.reachable_of_exec initial_machine hx, hs, fun h => ?_⟩
  have hyes := h.2
  rw [addrIsConnected, hno] at hyes
  cases hyes

/-- Its first address. -/
theorem reported_first : ∃ m m' : Manager Nat, step (.running (.conns [(['c'], 1)] false) m)
    (.conn (.message (.greeting ['c'] [] 1) ['c']) quietEnv) = some (.running (.conns [] false) m') ∧
      Reported (['c'], 1) m' := by
  obtain ⟨m, info, hx, hinfo, hconn, hstatus, htype, haddr, hnew, hsend⟩ : ∃ (m : Manager Nat) (info : PendingInfo),
      LTS.exec step machine (connected.take 8) = some (.running (.conns [(['c'], 1)] false) m) ∧
      m.pendingConns.lookup (['c'], 1) = some info ∧ info.conn = true ∧ info.status = .waitingForResp ∧
      info.type = .userRequested ∧ m.addrToMachine.lookup (['c'], 1) = none ∧ m.neighbors.lookup ['c'] = none ∧
      Delivers quietEnv (sendsTo quietEnv m ['c'] (.create (V := Nat) quietEnv m.nextPtr ['c'] ['c'] [] 1))
        (.create (V := Nat) quietEnv m.nextPtr ['c'] ['c'] [] 1) :=
    ⟨_, _, rfl, rfl, rfl, rfl, rfl, rfl, rfl, rfl, fun _ _ => rfl⟩
  obtain ⟨m', hs, hiff⟩ := reported_iff (LTS.reachable_of_exec initial_machine hx) hinfo hconn hstatus htype quietEnv
    ['c'] [] ['c']
  exact ⟨m, m', hs, hiff.mpr (.inr ⟨haddr, AList.lookup_eq_none.mp hnew, rfl, hsend⟩)⟩

end Skywing.L4.Connected
