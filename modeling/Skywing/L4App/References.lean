import Skywing.L3Protocol.RecordFrame
import Skywing.L4App.CutOff
import Skywing.L4App.Waiting

/-!
# References to neighbours

`addr_to_machine_` and `tag_to_machine_` (`skywing_core/manager.hpp`) hold
pointers into `neighbors_`. They are entered by a greeting and by
`finalize_subscription`, and `remove_dead_neighbors` erases them before the
neighbour goes.

The key of a neighbour is what `address_pair()` said at its greeting, and
`address_pair()` asks the kernel anew each time. Once the peer has reset the
connection `getpeername` fails; the error is logged and no more.

Results:
* `never_dangle`: in every reachable state each target of the two maps is a
  neighbour, and a step that releases a tag has told every job and wants the
  tag again. Where the kernel named the peer at each greeting, each address is
  its target's for as long as the kernel names the target.
* `unnamed_key`: a neighbour that resets the connection once it has greeted is
  entered under an address it does not have, or has another one afterwards.
-/
namespace Skywing.L4.References

open L3
open L3.Manager hiding id
open L3.ExternalManager (markAsDead hear addCommunicator Standing markAsDead_standing requestAnswered_standing
  sendMessage_standing)
open CutOff (connected subscribedJob)
open GroupMembers (quietEnv machine initial_machine)

variable {V : Type}

/-! ## The property -/

structure NoDangling (m : Manager V) : Prop where
  /-- a pointer points to one record at most -/
  distinct : ∀ id id' e e', m.neighbors.lookup id = some e → m.neighbors.lookup id' = some e' → e.ptr = e'.ptr →
    id = id'
  addr : ∀ addr ptr, m.addrToMachine.lookup addr = some ptr → ∃ id e, m.neighbors.lookup id = some e ∧ e.ptr = ptr
  tag : ∀ tag ptr, m.tagToMachine.lookup tag = some ptr → ∃ id e, m.neighbors.lookup id = some e ∧ e.ptr = ptr

/-- The neighbour an address leads to says that it has that address. -/
def KeyedByAddress (env : Env) (m : Manager V) (addr : AddrPort) (ptr : Nat) : Prop :=
  ∃ id e, m.neighbors.lookup id = some e ∧ e.ptr = ptr ∧ e.addressPair env = addr

/-- A job has been told that a tag is dead: what it knows of the tag is marked
as disconnected, on a new connection. -/
def Told (tag : TagID) (job job' : Job V) : Prop :=
  job'.bufs.lookup tag = (job.bufs.lookup tag).map fun info =>
    { info with errorOccurred := .disconnected, connectionId := info.connectionId + 1 }

/-- A tag that is bound no more is pending, and every job was told. -/
def Released (m m' : Manager V) : Prop :=
  ∀ tag ∈ m.tagToMachine, tag ∉ m'.tagToMachine →
    tag ∈ m'.pendingTags ∧
      ∀ name job, m.jobs.lookup name = some job → ∃ job', m'.jobs.lookup name = some job' ∧ Told tag job job'

/-- The kernel names the peer of a new neighbour. -/
def peerNamed : Sys V → Label V → Bool
  | .running _ m, .conn (.message (.greeting sender _ _) _) env =>
    decide (sender ∈ m.neighbors) || (env.unnamedPeer m.nextPtr .addressKey).isNone
  | _, _ => true

/-! ## The invariant -/

/-- `named`: the peers of all neighbours were named when they greeted. -/
structure Inv (named : Prop) (m : Manager V) : Prop where
  numbered : m.Numbered
  connected : ∀ id e, m.neighbors.lookup id = some e → e.conns ≠ []
  addr : ∀ addr ptr, m.addrToMachine.lookup addr = some ptr →
    ∃ id e, m.neighbors.lookup id = some e ∧ e.ptr = ptr ∧ (named → e.peer = addr)
  tag : ∀ tag ptr, m.tagToMachine.lookup tag = some ptr → m.Points ptr

/-- The invariant is kept, and no tag is released. -/
structure Refers (named : Prop) (m m' : Manager V) : Prop where
  inv : Inv named m → Inv named m'
  kept : ∀ tag ∈ m.tagToMachine, tag ∈ m'.tagToMachine

/-- The same record at the same address. -/
structure Placed (e e' : ExternalManager V) : Prop where
  ptr : e'.ptr = e.ptr
  id : e'.id = e.id
  conns : e'.conns = e.conns
  port : e'.port = e.port

variable {m m₁ m₂ : Manager V} {env : Env} {named : Prop}

theorem Inv.noDangling (h : Inv named m) : NoDangling m where
  distinct := h.numbered.inj
  addr addr ptr hl := by
    obtain ⟨id, e, he, hptr, -⟩ := h.addr addr ptr hl
    exact ⟨id, e, he, hptr⟩
  tag := h.tag

theorem Placed.of_standing {e e' : ExternalManager V} (h : Standing e e') : Placed e e' :=
  ⟨h.ptr, h.id, h.conns, h.port⟩

theorem sendHeartbeat_placed (env : Env) (interval : Nat) (e : ExternalManager V) :
    Placed e (e.sendHeartbeatIfPastInterval env interval) := by
  unfold ExternalManager.sendHeartbeatIfPastInterval
  split
  · obtain ⟨hptr, hid, hconns, hport, -⟩ := sendMessage_standing env .heartbeat e
    exact ⟨hptr, hid, hconns, hport⟩
  · exact ⟨rfl, rfl, rfl, rfl⟩

/-- The record after a change to the neighbours that leaves it in place. -/
theorem lookup_placed (hn : Via Placed m m₁) {id : MachineID} {e : ExternalManager V}
    (he : m.neighbors.lookup id = some e) : ∃ e', m₁.neighbors.lookup id = some e' ∧ Placed e e' := by
  rcases hn.lookup id with ⟨hnone, -⟩ | ⟨e₀, e', h₀, h', hp⟩
  · rw [hnone] at he
    cases he
  · rw [h₀] at he
    cases he
    exact ⟨e', h', hp⟩

theorem points_placed (hn : Via Placed m m₁) {ptr : Nat} (h : m.Points ptr) : m₁.Points ptr := by
  obtain ⟨id, e, he, hptr⟩ := h
  obtain ⟨e', he', hp⟩ := lookup_placed hn he
  exact ⟨id, e', he', hp.ptr.trans hptr⟩

/-- Tags are bound to records there are, and the records stay in place. -/
theorem Inv.placed (h : Inv named m) (hx : m₁.nextPtr = m.nextPtr) (ha : m₁.addrToMachine = m.addrToMachine)
    (hb : ∀ tag ptr, m₁.tagToMachine.lookup tag = some ptr → m.tagToMachine.lookup tag = some ptr ∨ m.Points ptr)
    (hn : Via Placed m m₁) : Inv named m₁ where
  numbered := h.numbered.of_lookup hx fun id e' he' => by
    obtain ⟨e, he, hp⟩ := hn.of_lookup he'
    exact ⟨e, he, hp.ptr, hp.id⟩
  connected id e' he' := by
    obtain ⟨e, he, hp⟩ := hn.of_lookup he'
    rw [hp.conns]
    exact h.connected id e he
  addr addr ptr hl := by
    rw [ha] at hl
    obtain ⟨id, e, he, hptr, haddr⟩ := h.addr addr ptr hl
    obtain ⟨e', he', hp⟩ := lookup_placed hn he
    refine ⟨id, e', he', hp.ptr.trans hptr, fun hn => ?_⟩
    rw [← haddr hn, ExternalManager.peer, ExternalManager.peer, hp.conns, hp.port]
  tag tag ptr hl := by
    rcases hb tag ptr hl with hl | hp
    · exact points_placed hn (h.tag tag ptr hl)
    · exact points_placed hn hp

namespace Refers

theorem refl (m : Manager V) : Refers named m m := ⟨fun h => h, fun _ h => h⟩

theorem trans (h : Refers named m m₁) (h' : Refers named m₁ m₂) : Refers named m m₂ :=
  ⟨fun hm => h'.inv (h.inv hm), fun tag ht => h'.kept tag (h.kept tag ht)⟩

theorem of_binds (h : Binds m m₁) : Refers named m m₁ :=
  ⟨fun hm => hm.placed h.nextPtr h.addrToMachine h.bound (h.neighbors.mono fun _ _ => .of_standing), h.kept⟩

theorem mapVal {f : MachineID → ExternalManager V → ExternalManager V} (hf : ∀ id e, Placed e (f id e)) :
    Refers named m { m with neighbors := m.neighbors.mapVal f } :=
  ⟨fun hm => hm.placed rfl rfl (fun _ _ h => .inl h) ⟨f, hf, rfl⟩, fun _ h => h⟩

theorem released (h : Refers named m m₁) : Released m m₁ := fun tag ht hno => absurd (h.kept tag ht) hno

end Refers

/-! ## Greetings -/

/-- A machine that is a neighbour already gets one more socket. -/
theorem addCommunicator_refers (id : MachineID) (ip : Str) (m : Manager V) :
    Refers named m (m.atNeighbor id (addCommunicator ip)) := by
  refine ⟨fun hm => ?_, fun _ h => h⟩
  have hsame (e : ExternalManager V) (hc : e.conns ≠ []) : (e.addCommunicator ip).peer = e.peer := by
    unfold ExternalManager.peer addCommunicator
    cases hl : e.conns with
    | nil => exact absurd hl hc
    | cons conn conns => rfl
  have hlookup {key : MachineID} {e : ExternalManager V} (he : m.neighbors.lookup key = some e) :
      ∃ e', (m.atNeighbor id (addCommunicator ip)).neighbors.lookup key = some e' ∧ e'.ptr = e.ptr ∧
        e'.peer = e.peer := by
    refine ⟨if key = id then e.addCommunicator ip else e, ?_, ?_, ?_⟩
    · rw [lookup_atNeighbor, he]
      rfl
    · split <;> rfl
    · split
      · exact hsame e (hm.connected key e he)
      · rfl
  constructor
  · exact hm.numbered.atNeighbor (f := addCommunicator ip) (fun _ => ⟨rfl, rfl⟩) id
  · intro key e' he'
    obtain ⟨e, he, rfl⟩ := of_lookup_atNeighbor he'
    split
    · exact List.append_ne_nil_of_right_ne_nil _ (List.cons_ne_nil ip [])
    · exact hm.connected key e he
  · intro addr ptr hl
    obtain ⟨key, e, he, hptr, haddr⟩ := hm.addr addr ptr hl
    obtain ⟨e', he', hp, hpair⟩ := hlookup he
    exact ⟨key, e', he', hp.trans hptr, fun hn => hpair.trans (haddr hn)⟩
  · intro tag ptr hl
    obtain ⟨key, e, he, hptr⟩ := hm.tag tag ptr hl
    obtain ⟨e', he', hp, -⟩ := hlookup he
    exact ⟨key, e', he', hp.trans hptr⟩

theorem greet_refers (sender : MachineID) (neighbors : List MachineID) (port : UInt16) (ip : Str) (m : Manager V)
    (hpeer : named → sender ∉ m.neighbors → env.unnamedPeer m.nextPtr .addressKey = none) :
    Refers named m (m.greet env sender neighbors port ip).2 := by
  cases he : m.neighbors.lookup sender with
  | some e =>
    have hg : (m.greet env sender neighbors port ip).2 = m.atNeighbor sender (addCommunicator ip) := by
      rw [greet, he]
    rw [hg]
    exact addCommunicator_refers sender ip m
  | none =>
    refine ⟨fun hm => ?_, fun tag ht => ?_⟩
    · have hnumbered : (m.greet env sender neighbors port ip).2.Numbered := hm.numbered.greet sender neighbors port ip
      have hold {id : MachineID} {e : ExternalManager V} (h : m.neighbors.lookup id = some e) : id ≠ sender := by
        rintro rfl
        rw [he] at h
        cases h
      rw [greet, he] at hnumbered ⊢
      refine ⟨hnumbered, fun id e hl => ?_, fun addr ptr hl => ?_, fun tag ptr hl => ?_⟩
      · by_cases hid : id = sender
        · subst hid
          rw [AList.lookup_insert] at hl
          cases hl
          exact List.cons_ne_nil ip []
        · rw [AList.lookup_insert_ne hid] at hl
          exact hm.connected id e hl
      · dsimp only at hl
        rw [AList.lookup_insertNew] at hl
        have hcase : m.addrToMachine.lookup addr = some ptr ∨
            (ExternalManager.create (V := V) env m.nextPtr ip sender neighbors port).addressPair env = addr ∧
              m.nextPtr = ptr := by
          split at hl
          · rename_i ha
            cases hx : m.addrToMachine.lookup addr with
            | some p =>
              rw [← ha, hx] at hl
              exact .inl hl
            | none =>
              rw [← ha, hx] at hl
              exact .inr ⟨ha.symm, Option.some.inj hl⟩
          · exact .inl hl
        rcases hcase with hl | ⟨ha, hptr⟩
        · obtain ⟨id, e, h, hptr, haddr⟩ := hm.addr addr ptr hl
          exact ⟨id, e, (AList.lookup_insert_ne (hold h)).trans h, hptr, haddr⟩
        · refine ⟨sender, _, AList.lookup_insert _, hptr, fun hn => ?_⟩
          rw [← ha, ExternalManager.addressPair, ExternalManager.ipAddress_of_named
            (hpeer hn (AList.lookup_eq_none.mp he))]
          rfl
      · obtain ⟨id, e, h, hptr⟩ := hm.tag tag ptr hl
        exact ⟨id, e, (AList.lookup_insert_ne (hold h)).trans h, hptr⟩
    · rw [greet, he]
      exact ht

theorem handleGreeting_refers (key : AddrPort) (info : PendingInfo) (sender : MachineID)
    (neighbors : List MachineID) (port : UInt16) (ip : Str) (m : Manager V)
    (hpeer : named → sender ∉ m.neighbors → env.unnamedPeer m.nextPtr .addressKey = none) :
    (m.handleGreeting env key info sender neighbors port ip).Ends (Refers named m) fun _ => True :=
  (handleGreeting_binds key info sender neighbors port ip m (greet_points sender neighbors port ip m)).mono
    (fun _ h => (greet_refers sender neighbors port ip m hpeer).trans (.of_binds h)) fun _ _ => trivial

theorem processConn_refers (key : AddrPort) (info : PendingInfo) (event : ConnEvent V) {pc : Pc}
    (hpeer : named → peerNamed (.running pc m) (.conn event env) = true) :
    (m.processConn env key info event).Ends (fun r => Refers named m r.1) fun _ => True := by
  by_cases hg : ∃ sender neighbors port ip, event = .message (.greeting sender neighbors port) ip
  · obtain ⟨sender, neighbors, port, ip, rfl⟩ := hg
    refine .bind (handleGreeting_refers key info sender neighbors port ip m fun hn hno => ?_) fun _ h => h
    have hp : (decide (sender ∈ m.neighbors) || (env.unnamedPeer m.nextPtr .addressKey).isNone) = true := hpeer hn
    simpa [hno] using hp
  · refine (processConn_binds key info fun sender neighbors port ip he => ?_).mono (fun _ => .of_binds)
      fun _ _ => trivial
    exact hg ⟨sender, neighbors, port, ip, he⟩

/-! ## Removals -/

theorem markTagAsDead_told (job : Job V) (tag : TagID) : Told tag job (job.markTagAsDead tag) := by
  unfold Told Job.markTagAsDead
  cases h : job.bufs.lookup tag with
  | none => exact h
  | some info => exact Job.setInfo_self job tag _

theorem markTagAsDead_of_ne {job : Job V} {tag t : TagID} (h : t ≠ tag) :
    (job.markTagAsDead tag).bufs.lookup t = job.bufs.lookup t := by
  unfold Job.markTagAsDead
  split
  · rfl
  · exact Job.setInfo_of_ne job _ h

/-- Each tag of a list is reported once. -/
theorem told_of_mem {tag : TagID} : ∀ {tags : List TagID} {job : Job V}, tags.Nodup → tag ∈ tags →
    Told tag job (tags.foldl Job.markTagAsDead job)
  | [], _, _, h => absurd h List.not_mem_nil
  | t :: tags, job, hnd, h => by
    have hrest : ∀ {tags : List TagID} {job : Job V}, tag ∉ tags →
        (tags.foldl Job.markTagAsDead job).bufs.lookup tag = job.bufs.lookup tag := by
      intro tags
      induction tags with
      | nil => exact fun _ => rfl
      | cons t tags ih =>
        intro job hno
        obtain ⟨hne, hno⟩ := List.ne_and_not_mem_of_not_mem_cons hno
        exact (ih hno).trans (markTagAsDead_of_ne hne)
    obtain ⟨ht, hnd⟩ := List.nodup_cons.mp hnd
    rw [List.foldl_cons]
    by_cases he : tag = t
    · subst he
      exact (hrest ht).trans (markTagAsDead_told job tag)
    · refine (told_of_mem hnd ((List.mem_cons.mp h).resolve_left he)).trans ?_
      rw [markTagAsDead_of_ne he]

/-- The record leaves, and whatever refers to it. -/
theorem removeNeighbor_good (id : MachineID) (hm : Inv named m) :
    (m.removeNeighbor env id).Ends (fun r => Inv named r.1 ∧ Released m r.1) fun _ => True := by
  refine (removeNeighbor_sends id m).mono ?_ fun _ _ => trivial
  rintro ⟨m', new⟩ (rfl | ⟨e, m₁, he, hs, rfl⟩)
  · exact ⟨hm, (Refers.refl _ : Refers named _ _).released⟩
  have hm₁ : Inv named m₁ := (Refers.of_binds (.of_sends hs)).inv hm
  obtain ⟨e₁, he₁, hp⟩ := lookup_placed (hs.neighbors.mono fun _ _ => Placed.of_standing) he
  have hstays {ptr : Nat} {key : MachineID} {e' : ExternalManager V} (h : m₁.neighbors.lookup key = some e')
      (hptr : e'.ptr = ptr) (hne : ptr ≠ e.ptr) : (m₁.neighbors.erase id).lookup key = some e' := by
    rw [AList.lookup_erase_ne, h]
    rintro rfl
    rw [he₁] at h
    cases h
    exact hne (hptr.symm.trans hp.ptr)
  refine ⟨⟨?_, fun key e' hl => ?_, fun addr ptr hl => ?_, fun tag ptr hl => ?_⟩, fun tag ht hno => ?_⟩
  · exact hm₁.numbered.erase id (m₁.removed ++ [e]) |>.of_lookup rfl fun _ e' h => ⟨e', h, rfl, rfl⟩
  · by_cases hk : key = id
    · subst hk
      rw [AList.lookup_erase] at hl
      cases hl
    · rw [AList.lookup_erase_ne hk] at hl
      exact hm₁.connected key e' hl
  · rw [AList.lookup_eraseVal, Option.filter_eq_some_iff] at hl
    obtain ⟨key, e', h, hptr, haddr⟩ := hm₁.addr addr ptr hl.1
    exact ⟨key, e', hstays h hptr (by simpa using hl.2), hptr, haddr⟩
  · rw [AList.lookup_eraseVal, Option.filter_eq_some_iff] at hl
    obtain ⟨key, e', h, hptr⟩ := hm₁.tag tag ptr hl.1
    exact ⟨key, e', hstays h hptr (by simpa using hl.2), hptr⟩
  · obtain ⟨ptr, hptr⟩ := Option.isSome_iff_exists.mp (AList.lookup_isSome.mpr ht)
    rw [← hs.tagToMachine] at hptr
    have hdead : ptr = e.ptr := by
      by_contra hne
      refine hno (AList.lookup_isSome.mp ?_)
      rw [AList.lookup_eraseVal, hptr, Option.filter_some]
      simp [hne]
    have htag : tag ∈ m₁.tagsOf env e.ptr := mem_tagsOf.mpr (hdead ▸ hptr)
    refine ⟨List.mem_append_right _ htag, fun name job hj => ?_⟩
    refine ⟨_, ?_, told_of_mem (tagsOf_nodup env m₁ e.ptr) htag⟩
    rw [AList.lookup_mapVal, hs.jobs, hj]
    rfl

/-! ## Steps -/

theorem inv_initial (port : UInt16) (id : MachineID) (interval : Nat) (jobs : AList fun _ : JobID => Job V) :
    Inv named { Manager.create port id interval with jobs := jobs } where
  numbered := ⟨nofun, nofun, nofun⟩
  connected := nofun
  addr := nofun
  tag := nofun

variable [Typed V]

theorem handleNext_refers (id : MachineID) (todo : List MachineID) (msg : Message V) :
    (handleNext env id todo msg m).Ends (fun r => Refers named m r.2) fun _ => True := by
  have hhear : Refers named m (m.atNeighbor id (·.hear env msg)) := by
    refine .mapVal fun key e => ?_
    split <;> exact ⟨rfl, rfl, rfl, rfl⟩
  unfold handleNext
  dsimp only
  split
  · trivial
  · rename_i sender hs
    refine .bind (handleMessage_binds sender msg) fun r hr => ?_
    have hr' := hhear.trans (.of_binds hr)
    obtain ⟨handled, m₁⟩ := r
    cases handled with
    | accepted => exact hr'
    | rejected => exact hr'.trans (.of_binds (atNeighbor_binds markAsDead_standing id))
    | reported => exact hr'

/-- Only a removal releases tags. -/
theorem act_refers {l : Label V} {pc : Pc} (hne : ∀ env, l ≠ .remove env)
    (hpeer : named → peerNamed (.running pc m) l = true) :
    (act l pc m).Ends (fun r => Refers named m r.2) fun _ => True := by
  have hbinds {pc : Pc} {x : Except Abort (Manager V)} (hx : x.Ends (Binds m) fun _ => True) :
      (x >>= fun m' => pure (pc, m')).Ends (fun r => Refers named m r.2) fun _ => True :=
    .bind hx fun _ h => Refers.of_binds h
  unfold act
  split
  · exact Refers.of_binds (subscribe_binds _)
  · exact hbinds (ipSubscribe_binds _ _)
  · exact hbinds (connectToServer_binds _)
  · exact hbinds (reportNewPublishTags_binds _)
  · exact hbinds (createReduceGroup_binds _)
  · split
    · trivial
    · exact hbinds ((rebuildReduceGroup_binds _).mono (fun _ h => h.from_same rfl rfl rfl rfl) fun _ h => h)
  · split
    · trivial
    · split
      · trivial
      · exact hbinds (updateGroup_binds _ _ _)
  · exact hbinds (publish_binds _ _ _)
  · exact Refers.refl m
  · split
    · exact Refers.refl m
    · exact .bind (processConn_refers _ _ _ hpeer) fun _ h => h
  · show Refers named m _
    split
    · exact .of_binds (findPublishers_binds false)
    · exact .refl m
  · exact hbinds initConnections_binds
  · rename_i env id todo
    refine .bind initConnections_binds fun m₁ h => ?_
    exact Refers.of_binds (h.trans (atNeighbor_binds (requestAnswered_standing env) id))
  · exact hbinds (acceptConnection_binds _ _ m)
  · exact Refers.refl m
  · exact Refers.refl m
  · exact handleNext_refers _ _ _
  · exact Refers.of_binds (atNeighbor_binds markAsDead_standing _)
  · exact Refers.refl m
  · exact absurd rfl (hne _)
  · rename_i env todo newTags
    have hforced : Binds m (if newTags = true then m.findPublishersForPendingTags env true else m) := by
      split
      · exact findPublishers_binds true
      · exact .refl m
    exact (Refers.of_binds (hforced.trans (findPublishers_binds false))).trans
      (.mapVal fun _ => sendHeartbeat_placed env _)
  · exact Refers.refl m

theorem act_good {l : Label V} {pc : Pc} (he : l.enabled pc m = true) (hm : Inv named m)
    (hpeer : named → peerNamed (.running pc m) l = true) :
    (act l pc m).Ends (fun r => Inv named r.2 ∧ Released m r.2) fun _ => True := by
  by_cases hr : ∃ env, l = .remove env
  · obtain ⟨env, rfl⟩ := hr
    match pc, he with
    | .removing (id :: todo) newTags, _ => exact .bind (removeNeighbor_good id hm) fun _ h => h
  · exact (act_refers (fun env hl => hr ⟨env, hl⟩) hpeer).mono (fun _ h => ⟨h.inv hm, h.released⟩) fun _ _ => trivial

theorem inv_inductive {C : Sys V → Label V → Prop} (hC : ∀ s l, C s l → named → peerNamed s l = true) :
    ((lts V).restrict C).Inductive (Holds (fun _ => Inv named) fun _ => True) :=
  holds_inductive inv_initial fun pc m l he hc hm =>
    (act_good he hm (hC (.running pc m) l hc)).mono (fun _ h => h.1) fun _ _ => trivial

/-- In every run at all. -/
theorem inv_of_reachable {pc : Pc} (h : (lts V).Reachable (.running pc m)) : Inv False m :=
  ((inv_inductive (C := fun _ _ => True) fun _ _ _ h => h.elim).of_restrict fun _ _ => trivial).reachable _ h

/-- **References to neighbours never dangle, and an address is its
target's where the kernel names the peer.** -/
theorem never_dangle (pc : Pc) (m : Manager V) (h : (lts V).Reachable (.running pc m)) :
    NoDangling m ∧ (∀ l pc' m', step (.running pc m) l = some (.running pc' m') → Released m m') ∧
      (((lts V).restrict fun s l => peerNamed s l = true).Reachable (.running pc m) → ∀ env addr ptr,
        m.addrToMachine.lookup addr = some ptr → env.unnamedPeer ptr .addressKey = none →
          KeyedByAddress env m addr ptr) := by
  have hm : Inv False m := inv_of_reachable h
  refine ⟨hm.noDangling, fun l pc' m' hs => ?_, fun hnamed env addr ptr hl hpeer => ?_⟩
  · obtain ⟨he, ha⟩ := step_running hs
    exact ((act_good he hm fun h => h.elim).of_ok ha).2
  · have hm : Inv True m := (inv_inductive fun _ _ h _ => h).reachable _ hnamed
    obtain ⟨id, e, he, hptr, haddr⟩ := hm.addr addr ptr hl
    refine ⟨id, e, he, hptr, ?_⟩
    rw [ExternalManager.addressPair, ExternalManager.ipAddress_of_named (hptr ▸ hpeer)]
    exact haddr trivial

/-- A neighbour that a job's tag is bound to dies. -/
theorem never_dangle_lost : ∃ (m m' : Manager Nat) (pc pc' : Pc), (lts Nat).Reachable (.running pc m) ∧
    NoDangling m ∧ ['p', 't'] ∈ m.tagToMachine ∧ ['p', 't'] ∉ m'.tagToMachine ∧
    step (.running pc m) (.remove quietEnv) = some (.running pc' m') ∧ Released m m' ∧
    KeyedByAddress quietEnv m (['c'], 1) 0 := by
  obtain ⟨m, m', pc, pc', hx, hs, hbound, hfree, hkey⟩ : ∃ (m m' : Manager Nat) (pc pc' : Pc),
      LTS.exec (LTS.guarded step fun s l => peerNamed s l = true) (.running .idle { Manager.create 1 ['m'] 5000 with
          jobs := (∅ : AList fun _ : JobID => Job Nat).insert ['j'] subscribedJob })
        (.subscribe [['p', 't']] quietEnv :: connected ++
          [.message (.reportPublishers [] [] [] [['p', 't']]) quietEnv, .init quietEnv, .readError,
            .endMessages quietEnv]) = some (.running pc m) ∧
      step (.running pc m) (.remove quietEnv) = some (.running pc' m') ∧
      m.tagToMachine.lookup ['p', 't'] = some 0 ∧ m'.tagToMachine.lookup ['p', 't'] = none ∧
      m.addrToMachine.lookup (['c'], 1) = some 0 :=
    ⟨_, _, _, _, rfl, rfl, rfl, rfl, rfl⟩
  have hnamed : ((lts Nat).restrict fun s l => peerNamed s l = true).Reachable (.running pc m) :=
    LTS.restrict_reachable_of_exec ⟨1, ['m'], 5000, _, rfl⟩ hx
  obtain ⟨hm, hreleased, hkeyed⟩ := never_dangle pc m hnamed.of_restrict
  exact ⟨m, m', pc, pc', hnamed.of_restrict, hm, AList.lookup_isSome.mp (hbound ▸ rfl), AList.lookup_eq_none.mp hfree,
    hs, hreleased _ _ _ hs, hkeyed hnamed quietEnv _ _ hkey rfl⟩

/-! ## Peers without a name -/

/-- The peer has reset the connection. -/
def resetEnv : Env := { quietEnv with unnamedPeer := fun _ _ => some ['0'] }

/-- A neighbour is connected whose greeting was read in `env`. -/
def greetedIn (env : Env) : List (Label Nat) :=
  connected.take 8 ++ [.conn (.message (.greeting ['c'] [] 1) ['c']) env]

omit [Typed V] in
theorem not_keyed {m : Manager V} {env : Env} {addr : AddrPort} {ptr : Nat} {id : MachineID} {e : ExternalManager V}
    (h : m.neighbors.entries = [⟨id, e⟩]) (hne : e.addressPair env ≠ addr) : ¬ KeyedByAddress env m addr ptr := by
  rintro ⟨id', e', he', -, haddr⟩
  have hmem := AList.mem_entries_iff.mpr he'
  rw [h, List.mem_singleton] at hmem
  cases hmem
  exact hne haddr

/-- It resets the connection before its address is asked for, or after. -/
theorem unnamed_key : (∃ (pc : Pc) (m : Manager Nat), (lts Nat).Reachable (.running pc m) ∧
      m.addrToMachine.lookup (['0'], 1) = some 0 ∧ ¬ KeyedByAddress quietEnv m (['0'], 1) 0) ∧
    ∃ (pc : Pc) (m : Manager Nat), (lts Nat).Reachable (.running pc m) ∧
      m.addrToMachine.lookup (['c'], 1) = some 0 ∧ ¬ KeyedByAddress resetEnv m (['c'], 1) 0 := by
  constructor
  · obtain ⟨pc, m, e, hx, haddr, he, hpair⟩ : ∃ pc m e, LTS.exec step machine (greetedIn resetEnv) =
        some (.running pc m) ∧ m.addrToMachine.lookup (['0'], 1) = some 0 ∧ m.neighbors.entries = [⟨['c'], e⟩] ∧
        e.addressPair quietEnv = (['c'], 1) := ⟨_, _, _, rfl, rfl, rfl, rfl⟩
    exact ⟨pc, m, LTS.reachable_of_exec initial_machine hx, haddr, not_keyed he (hpair ▸ by decide)⟩
  · obtain ⟨pc, m, e, hx, haddr, he, hpair⟩ : ∃ pc m e, LTS.exec step machine (greetedIn quietEnv) =
        some (.running pc m) ∧ m.addrToMachine.lookup (['c'], 1) = some 0 ∧ m.neighbors.entries = [⟨['c'], e⟩] ∧
        e.addressPair resetEnv = (['0'], 1) := ⟨_, _, _, rfl, rfl, rfl, rfl⟩
    exact ⟨pc, m, LTS.reachable_of_exec initial_machine hx, haddr, not_keyed he (hpair ▸ by decide)⟩

end Skywing.L4.References
