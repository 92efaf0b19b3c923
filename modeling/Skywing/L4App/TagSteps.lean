import Skywing.L3Protocol.PendingTags
import Skywing.L4App.MainLoop

/-!
# Steps that move tags

Of the steps of the main loop, the calls from jobs, the connections looked at,
the attempts to connect and the removals move tags; `act_still` says that no
other step does.

`TagRule` lists what these steps do to the tags. An invariant that each item
keeps holds in every run (`TagRule.holds`), and the program stops for no
reason outside `E`.
-/
namespace Skywing.L4

open L3
open L3.Manager (Still ConnEvent addPending erasePending bindTags carried ofGroups Completes NoGroup IsParent
  parentTags)

variable {V : Type} {m m' : Manager V}

/-- The steps that may move a tag. -/
def Label.movesTags : Label V → Bool
  | .subscribe _ _ | .ipSubscribe _ _ _ | .connectToServer _ _ | .createReduceGroup _ _ | .rebuildReduceGroup _ _
  | .conn _ _ | .init _ | .accept _ | .remove _ => true
  | _ => false

variable [Typed V]

theorem handleNext_still (env : Env) (id : MachineID) (todo : List MachineID) (msg : Message V) (m : Manager V) :
    (handleNext env id todo msg m).Ends (fun r => Still m r.2) Abort.Other := by
  have hhear : Still m (m.atNeighbor id (·.hear env msg)) :=
    .atNeighbor (f := fun e => e.hear env msg) (fun _ => ⟨rfl, rfl⟩) id
  unfold handleNext
  dsimp only
  split
  · exact fun _ => nofun
  · rename_i sender hsender
    refine .bind (Manager.handleMessage_sameTags env sender msg) fun r hr => ?_
    have hs := hhear.trans (.of_sameTags hr)
    obtain ⟨handled, m₁⟩ := r
    cases handled with
    | accepted => exact hs
    | rejected => exact hs.trans (.atNeighbor (f := ExternalManager.markAsDead) (fun _ => ⟨rfl, rfl⟩) id)
    | reported => exact hs

theorem act_still {l : Label V} {pc : Pc} (h : l.movesTags = false) :
    (act l pc m).Ends (fun r => Still m r.2) Abort.Other := by
  unfold act
  split
  · cases h
  · cases h
  · cases h
  · exact .bind (Manager.reportNewPublishTags_still _) fun m' h' => h'
  · cases h
  · cases h
  · split
    · exact fun _ => nofun
    · rename_i groupId isAllReduce op value env _ data hd
      split
      · exact fun _ => nofun
      · rename_i _ w group sends hr
        have hp := Manager.updateGroup_plain env hd (ReduceGroup.reduceImpl_tagNeighbors hr) sends
        exact .bind (hp.mono (fun _ h => Still.of_plain h) fun _ h => h) fun m' h' => h'
  · exact .bind ((Manager.publish_plain _ _ _ _).mono (fun _ h => Still.of_plain h) fun _ h => h) fun m' h' => h'
  · exact Still.refl m
  · cases h
  · show Still m _
    split
    · exact .of_searches (Manager.findPublishers_searches false)
    · exact .refl m
  · cases h
  · cases h
  · cases h
  · exact Still.refl m
  · exact Still.refl m
  · exact handleNext_still _ _ _ _ m
  · exact Still.atNeighbor (f := ExternalManager.markAsDead) (fun _ => ⟨rfl, rfl⟩) _
  · exact Still.refl m
  · cases h
  · rename_i env todo newTags
    have h₁ : Still m (if newTags = true then m.findPublishersForPendingTags env true else m) := by
      split
      · exact .of_searches (Manager.findPublishers_searches true)
      · exact .refl m
    exact (h₁.trans (.of_searches (Manager.findPublishers_searches false))).trans
      (.of_plain (Manager.mapNeighbors_plain (ExternalManager.sendHeartbeat_plainSends env _)))
  · exact Still.refl m

/-! ## The invariant rule -/

/-- What the steps do to the tags, and that `I` is kept. -/
structure TagRule (C : Sys V → Label V → Prop) (I : Manager V → Prop) (E : Abort → Prop) : Prop where
  initial : ∀ port id interval jobs, I { Manager.create port id interval with jobs := jobs }
  other : ∀ a : Abort, a.Other → E a
  still : ∀ {m m'}, Still m m' → I m → I m'
  subscribe : ∀ {pc m tagIds env fresh}, C (.running pc m) (.subscribe tagIds env) → I m → fresh.Nodup →
    (∀ tag, tag ∈ fresh ↔ tag ∈ tagIds ∧ m.wants tag = true) →
      I { m with pendingTags := m.pendingTags ++ fresh, subscribed := m.subscribed ++ tagIds }
  ipSubscribe : ∀ {pc m addr tagIds env key}, C (.running pc m) (.ipSubscribe addr tagIds env) → I m →
    Manager.toCanonical env addr = .ok key → key ∉ m.pendingConns →
      I (m.addPending key ⟨true, .waitingForConn, .specificIp, L1.Text.joinAfter (L1.Text.addressString key) tagIds⟩)
  connects : ∀ {m key}, I m → key ∉ m.pendingConns → I (m.addPending key ⟨true, .waitingForConn, .userRequested, []⟩)
  createReduceGroup : ∀ {pc m group env data}, C (.running pc m) (.createReduceGroup group env) → I m →
    (m.reduceTagData.insertNew group.groupId ⟨group, [], fun _ => []⟩).lookup group.groupId = some data →
      I { m with
        selfSubCount := m.selfSubCount.insert group.producedTag 0
        reduceTagData := m.reduceTagData.insertNew group.groupId ⟨group, [], fun _ => []⟩
        pendingTags := m.pendingTags ++ parentTags data.group.tagNeighbors }
  rebuildReduceGroup : ∀ {pc m groupId env tags}, C (.running pc m) (.rebuildReduceGroup groupId env) → I m →
    m.groupTags groupId = some tags → I { m with pendingTags := m.pendingTags ++ parentTags tags }
  handshakeSent : ∀ {m key info}, I m → m.pendingConns.lookup key = some info →
    I (m.addPending key { info with status := .waitingForResp })
  handshakeFailed : ∀ {key todo new m info send env},
    C (.running (.conns (key :: todo) new) m) (.conn (.connected send) env) → I m →
      m.pendingConns.lookup key = some info → info.conn = true → send ≠ .noError → I (m.erasePending key)
  dropped : ∀ {key todo new m info event env}, C (.running (.conns (key :: todo) new) m) (.conn event env) → I m →
    m.pendingConns.lookup key = some info → info.conn = true → (∀ t ∈ ofGroups info, m.IsParent t) →
      I { m with pendingTags := m.pendingTags ++ carried info, pendingConns := m.pendingConns.erase key }
  greeted : ∀ {key todo new m m₁ info sender neighbors port ip env},
    C (.running (.conns (key :: todo) new) m) (.conn (.message (.greeting sender neighbors port) ip) env) → I m →
      m.pendingConns.lookup key = some info → info.conn = true →
        Completes info (m.greet env sender neighbors port ip).1.ptr (m.greet env sender neighbors port ip).2 m₁ →
          I { m₁ with pendingConns := m₁.pendingConns.erase key }
  noGroup : ∀ {key m info a}, I m → m.pendingConns.lookup key = some info → info.conn = true →
    m.NoGroup (ofGroups info) a → E a
  init : ∀ {pc m env}, C (.running pc m) (.init env) → I m → (m.initConnections env).Ends I E
  remove : ∀ {m id e}, I m → m.neighbors.lookup id = some e → ∀ env removed,
    I { m with
      addrToMachine := m.addrToMachine.eraseVal (· = e.ptr)
      tagToMachine := m.tagToMachine.eraseVal (· = e.ptr)
      jobs := m.jobs.mapVal fun _ job => (m.tagsOf env e.ptr).foldl Job.markTagAsDead job
      pendingTags := m.pendingTags ++ m.tagsOf env e.ptr
      neighbors := m.neighbors.erase id
      removed := removed }

omit [Typed V] in
/-- A greeting is about the neighbours. -/
theorem greet_eq (env : Env) (sender : MachineID) (neighbors : List MachineID) (port : UInt16) (ip : Str)
    (m : Manager V) : ∃ records addresses next, (m.greet env sender neighbors port ip).2 =
      { m with neighbors := records, addrToMachine := addresses, nextPtr := next } := by
  unfold Manager.greet
  split
  · exact ⟨_, _, _, rfl⟩
  · exact ⟨_, _, _, rfl⟩

namespace TagRule

variable {C : Sys V → Label V → Prop} {I : Manager V → Prop} {E : Abort → Prop}

omit [Typed V] in
theorem processConn (h : TagRule C I E) {key : AddrPort} {todo : List AddrPort} {new : Bool} {info : PendingInfo}
    {event : ConnEvent V} {env : Env} (hC : C (.running (.conns (key :: todo) new) m) (.conn event env)) (hm : I m)
    (hl : m.pendingConns.lookup key = some info) (hp : event.possible info = true) :
    (m.processConn env key info event).Ends (fun r => I r.1) E := by
  have hdrop (hconn : info.conn = true) : (m.dropConnection env key info).Ends (fun r => I r.1) E := by
    refine (Manager.dropConnection_cases key info m).mono ?_ fun a ha => h.noGroup hm hl hconn ha
    intro r hex
    obtain ⟨hgroups, hs⟩ := hex
    exact h.still hs (h.dropped hC hm hl hconn hgroups)
  unfold Manager.processConn
  cases event with
  | quiet => exact hm
  | connected send =>
    have hconn := ((Bool.and_eq_true _ _).mp hp).1
    dsimp only
    split
    · rename_i hsend
      exact h.handshakeFailed hC hm hl hconn hsend
    · exact h.handshakeSent hm hl
  | failed => exact hdrop ((Bool.and_eq_true _ _).mp hp).1
  | readError => exact hdrop ((Bool.and_eq_true _ _).mp hp).1
  | badMessage => exact hdrop ((Bool.and_eq_true _ _).mp hp).1
  | message msg ip =>
    have hconn := ((Bool.and_eq_true _ _).mp hp).1
    cases msg with
    | greeting sender neighbors port =>
      refine .bind (P := I) ?_ fun m' h' => h'
      refine (Manager.handleGreeting_cases key info sender neighbors port ip m).mono ?_ fun a ha => ?_
      · intro m' hex
        obtain ⟨m₁, hc, hs⟩ := hex
        exact h.still hs (h.greeted hC hm hl hconn hc)
      · refine h.noGroup hm hl hconn fun tag hat => ?_
        obtain ⟨records, addresses, next, hg⟩ := greet_eq env sender neighbors port ip m
        rw [hg] at ha
        exact ha tag hat
    | _ => exact hdrop hconn

theorem act (h : TagRule C I E) {l : Label V} {pc : Pc} (he : l.enabled pc m = true) (hC : C (.running pc m) l)
    (hm : I m) : (act l pc m).Ends (fun r => I r.2) E := by
  by_cases hl : l.movesTags = false
  · exact (act_still hl).mono (fun _ hs => h.still hs hm) h.other
  cases l with
  | subscribe tagIds env =>
    obtain ⟨fresh, hnd, hmem, hs⟩ := Manager.subscribe_still env tagIds m
    exact h.still hs (h.subscribe hC hm hnd hmem)
  | ipSubscribe addr tagIds env =>
    refine .bind (P := I) ((Manager.ipSubscribe_cases addr tagIds m).mono ?_ h.other) fun m' h' => h'
    intro m' hor
    rcases hor with hs | ⟨key, hkey, hfree, rfl⟩
    · exact h.still hs hm
    · exact h.ipSubscribe hC hm hkey hfree
  | connectToServer addr env =>
    refine .bind (P := I) ((Manager.connectToServer_cases addr m).mono ?_ h.other) fun m' h' => h'
    intro m' hor
    rcases hor with rfl | ⟨key, hfree, rfl⟩
    · exact hm
    · exact h.connects hm hfree
  | createReduceGroup group env =>
    refine .bind (P := I) ((Manager.createReduceGroup_still group).mono ?_ h.other) fun m' h' => h'
    intro m' hex
    obtain ⟨data, hdata, hs⟩ := hex
    exact h.still hs (h.createReduceGroup hC hm hdata)
  | rebuildReduceGroup groupId env =>
    unfold L4.act
    dsimp only
    split
    · exact h.other _ fun _ => nofun
    · rename_i data hdata
      have hs : Manager.SameTags m (m.setGroupData groupId { data with group := data.group.rebuild }) :=
        Manager.setGroupData_sameTags hdata rfl
      refine .bind (P := I) ((Manager.rebuildReduceGroup_still groupId).mono ?_ h.other) fun m' h' => h'
      intro m' hex
      obtain ⟨tags, queued, hg, hq, hm'⟩ := hex
      have hs' : Still { m with pendingTags := m.pendingTags ++ queued } m' :=
        ((Still.of_sameTags hs).addPendingTags queued).trans hm'
      rcases hq with rfl | rfl
      · rw [List.append_nil] at hs'
        exact h.still hs' hm
      · exact h.still hs' (h.rebuildReduceGroup hC hm ((hs.groupTags groupId).symm.trans hg))
  | conn event env =>
    match pc, he with
    | .conns (key :: todo) new, he =>
      obtain ⟨info, hi, hp⟩ := (Option.any_eq_true _ _).mp he
      unfold L4.act
      dsimp only
      rw [hi]
      exact .bind (h.processConn hC hm hi hp) fun r hr => hr
  | init env =>
    match pc, he with
    | .connsInit, _ => exact .bind (h.init hC hm) fun m' h' => h'
    | .reportInit id todo, _ =>
      refine .bind (h.init hC hm) fun m' h' => ?_
      exact h.still (.atNeighbor (f := fun e => e.requestAnswered env) (fun _ => ⟨rfl, rfl⟩) id) h'
  | accept addr =>
    refine .bind (P := I) ((Manager.acceptConnection_cases m _ addr).mono ?_ h.other) fun m' h' => h'
    intro m' hex
    obtain ⟨key, hfree, rfl⟩ := hex
    exact h.connects hm hfree
  | remove env =>
    match pc, he with
    | .removing (id :: todo) new, _ =>
      refine .bind (P := fun r => I r.1) ((Manager.removeNeighbor_still id m).mono ?_ h.other) fun r hr => by exact hr
      rintro ⟨m', new⟩ (rfl | ⟨e, m₁, he, hs, rfl⟩)
      · exact hm
      · rcases hs.neighbors.lookup id with ⟨hnone, -⟩ | ⟨e₀, e₁, h₀, h₁, hid⟩
        · rw [he] at hnone
          cases hnone
        · rw [he] at h₀
          cases h₀
          have hr {removed : List (ExternalManager V)} := h.remove (h.still hs hm) h₁ env removed
          rw [hid.1] at hr
          exact hr
  | _ => exact absurd rfl hl

theorem holds (h : TagRule C I E) : ((lts V).restrict C).Inductive (Holds (fun _ => I) E) :=
  holds_inductive h.initial fun _ _ _ he hC hm => h.act he hC hm

end TagRule

end Skywing.L4
