import Skywing.L3Protocol.SearchReplies
import Skywing.L4App.MainLoop

/-!
# Steps of the search for publishers

The steps of the main loop by what they do to the search for publishers
(`skywing_core/manager.cpp`): a message is handled, a greeting brings a
record, a dead neighbour is removed, a report has been dealt with; every
other step is calm (`act_calm`). `Heard` is what a message can do
(`handleNext_cases`).
-/
namespace Skywing.L4

open L3
open L3.Manager (Calm Via ConnEvent Handled Replies Answered AnsweredEarly Deferred Missing Mismatched)
open L3.ExternalManager (markAsDead)

variable {V : Type}

/-- The steps that may move the search. -/
def Label.calm : Label V → Pc → Bool
  | .message _ _, _ | .remove _, _ | .init _, .reportInit _ _ => false
  | .conn (.message (.greeting _ _ _) _) _, _ => false
  | _, _ => true

variable {m : Manager V}

/-- The steps that are not calm, where they are enabled. -/
theorem Label.special_cases {l : Label V} {pc : Pc} (he : l.enabled pc m = true) (hl : l.calm pc = false) :
    (∃ msg env id todo, l = .message msg env ∧ pc = .messages (some id) todo) ∨
    (∃ env id todo new, l = .remove env ∧ pc = .removing (id :: todo) new) ∨
    (∃ env id todo, l = .init env ∧ pc = .reportInit id todo) ∨
    ∃ env key todo new sender neighbors port ip info,
      l = .conn (.message (.greeting sender neighbors port) ip) env ∧ pc = .conns (key :: todo) new ∧
        m.pendingConns.lookup key = some info := by
  unfold Label.calm at hl
  split at hl
  · rename_i msg env
    match pc, he with
    | .messages (some id) todo, _ => exact .inl ⟨msg, env, id, todo, rfl, rfl⟩
  · rename_i env
    match pc, he with
    | .removing (id :: todo) new, _ => exact .inr (.inl ⟨env, id, todo, new, rfl, rfl⟩)
  · exact .inr (.inr (.inl ⟨_, _, _, rfl, rfl⟩))
  · rename_i sender neighbors port ip env
    match pc, he with
    | .conns (key :: todo) new, he =>
      obtain ⟨info, hi, -⟩ := (Option.any_eq_true _ _).mp he
      exact .inr (.inr (.inr ⟨env, key, todo, new, sender, neighbors, port, ip, info, rfl, rfl, hi⟩))
  · cases hl

theorem act_calm [Typed V] {l : Label V} {pc : Pc} (hl : l.calm pc = true) :
    (act l pc m).Ends (fun r => Calm m r.2) fun _ => True := by
  unfold act
  split
  · exact Manager.subscribe_calm m _
  · exact .bind (Manager.ipSubscribe_calm m _ _) fun m' h' => h'
  · exact .bind (Manager.connectToServer_calm m _) fun m' h' => h'
  · exact .bind (Manager.reportNewPublishTags_calm m _) fun m' h' => h'
  · exact .bind (Manager.createReduceGroup_calm m _) fun m' h' => h'
  · split
    · trivial
    · exact .bind (Manager.rebuildReduceGroup_calm _ _) fun m' h' =>
        (Manager.setGroupData_calm _ _ m).trans h'
  · split
    · trivial
    · rename_i groupId isAllReduce op value env _ data hd
      split
      · trivial
      · rename_i _ w group sends hr
        have hp := Manager.updateGroup_plain env hd (ReduceGroup.reduceImpl_tagNeighbors hr) sends
        exact .bind (hp.mono (fun _ h => Calm.of_plain h) fun _ _ => trivial) fun m' h' => h'
  · exact .bind ((Manager.publish_plain _ _ _ _).mono (fun _ h => Calm.of_plain h) fun _ _ => trivial)
      fun m' h' => h'
  · exact Calm.refl m
  · split
    · exact Calm.refl m
    · rename_i event env key todo newTags _ info hi
      refine .bind (Manager.processConn_calm key info (fun sender neighbors port ip he => ?_) m) fun r hr => hr
      subst he
      cases hl
  · show Calm m _
    split
    · exact Manager.findPublishers_calm false
    · exact .refl m
  · exact .bind (Manager.initConnections_calm m) fun m' h' => h'
  · cases hl
  · exact .bind (Manager.acceptConnection_calm _ _ m) fun m' h' => h'
  · exact Calm.refl m
  · exact Calm.refl m
  · cases hl
  · exact Calm.of_plain (Manager.atNeighbor_plain ExternalManager.markAsDead_plainSends _)
  · exact Calm.refl m
  · cases hl
  · rename_i env todo newTags
    have h₁ : Calm m (if newTags = true then m.findPublishersForPendingTags env true else m) := by
      split
      · exact Manager.findPublishers_calm true
      · exact .refl m
    exact (h₁.trans (Manager.findPublishers_calm false)).trans
      (.of_plain (Manager.mapNeighbors_plain (ExternalManager.sendHeartbeat_plainSends env _)))
  · exact Calm.refl m

/-! ## Messages -/

/-- What is left of the message that `sender` sent: where the loop goes on,
and the manager. -/
inductive Heard (env : Env) (sender : ExternalManager V) (todo : List MachineID) (m : Manager V) :
    Message V → Pc × Manager V → Prop
  | other {msg : Message V} {m' : Manager V} (hq : msg.isRequest = false) (h : Calm m m')
      -- a message of the search that is rejected leaves its sender dead
      (hdead : (msg.isReport || msg.isGetPublishers) = true →
        ∀ e, m'.neighbors.lookup sender.id = some e → e.dead = true) :
      Heard env sender todo m msg (.messages (some sender.id) todo, m')
  | ignored {tags : List TagID} {addresses : List (List Str)} {machines : List (List MachineID)}
      {locallyProducedTags : List TagID} (h : Mismatched tags addresses machines = true) :
      Heard env sender todo m (.reportPublishers tags addresses machines locallyProducedTags)
        (.messages (some sender.id) todo, m.atNeighbor sender.id (·.requestAnswered env))
  | reported {tags : List TagID} {addresses : List (List Str)} {machines : List (List MachineID)}
      {locallyProducedTags : List TagID} {m' : Manager V} (h : Replies m.recorded m m')
      (hw : ∀ tag, m'.sendPublisherInformationTo.lookup tag = none) :
      Heard env sender todo m (.reportPublishers tags addresses machines locallyProducedTags)
        (.reportInit sender.id todo, m')
  | answered {tags : List TagID} {publishersNeeded : List UInt8} {ignoreCache : Bool} {m' : Manager V}
      (hok : tags.all tagNameOkay = true) (h : Answered sender m m') :
      Heard env sender todo m (.getPublishers tags publishersNeeded ignoreCache)
        (.messages (some sender.id) todo, m')
  | early {tags : List TagID} {publishersNeeded : List UInt8} {ignoreCache : Bool} {m' : Manager V}
      {missing : List TagID} (hok : tags.all tagNameOkay = true)
      (hmissing : Missing sender tags publishersNeeded m missing) (h : AnsweredEarly sender missing m m') :
      Heard env sender todo m (.getPublishers tags publishersNeeded ignoreCache)
        (.messages (some sender.id) todo, m')
  | deferred {tags : List TagID} {publishersNeeded : List UInt8} {ignoreCache : Bool} {m' : Manager V}
      {missing : List TagID} (hok : tags.all tagNameOkay = true)
      (hmissing : Missing sender tags publishersNeeded m missing) (h : Deferred sender missing m m') :
      Heard env sender todo m (.getPublishers tags publishersNeeded ignoreCache)
        (.messages (some sender.id) todo, m')

/-- Only a report is followed by a new attempt to connect. -/
theorem handleMessage_not_reported [Typed V] {env : Env} (sender : ExternalManager V) {msg : Message V}
    (hr : msg.isReport = false) : (m.handleMessage env sender msg).Ends (fun r => r.1 ≠ .reported) fun _ => True := by
  have hbool (b : Bool) : Handled.ofBool b ≠ .reported := by cases b <;> nofun
  unfold Manager.handleMessage
  cases msg with
  | reportPublishers _ _ _ _ => cases hr
  | getPublishers tags publishersNeeded ignoreCache =>
    dsimp only
    split
    · exact nofun
    · exact .bind (.any _) fun _ _ => nofun
  | joinReduceGroup reduceTag tagProduced =>
    dsimp only
    split
    · exact nofun
    · exact hbool _
  | submitReduceValue reduceTag tag value version =>
    dsimp only
    split
    · exact nofun
    · exact .bind (.any _) fun r _ => hbool r.1
  | reportReduceDisconnection reduceTag initiatingMachine id =>
    dsimp only
    split
    · exact nofun
    · exact .bind (.any _) fun r _ => hbool r.1
  | publishData tag value version =>
    dsimp only
    split
    · exact nofun
    · exact .bind (.any _) fun r _ => hbool r.1
  | subscriptionNotice tags isUnsubscribe => exact hbool _
  | _ => exact nofun

/-- Every message but the two of the search. -/
theorem handleMessage_other [Typed V] {env : Env} (hm : m.Known) (sender : ExternalManager V)
    (todo : List MachineID) {msg : Message V} (hr : msg.isReport = false)
    (hg : ∀ tags needed ignore, msg ≠ .getPublishers tags needed ignore) (hq : msg.isRequest = false) :
    (m.handleMessage env sender msg).Ends
      (fun r => r.2.Known ∧ Heard env sender todo m msg (match r.1 with
        | .accepted => (.messages (some sender.id) todo, r.2)
        | .rejected => (.messages (some sender.id) todo, r.2.atNeighbor sender.id markAsDead)
        | .reported => (.reportInit sender.id todo, r.2))) fun _ => True := by
  refine ((Manager.handleMessage_calm env sender hr hg m).and
    (handleMessage_not_reported sender hr)).mono (fun r h => ?_) fun _ h => h
  obtain ⟨hcalm, hne⟩ := h
  obtain ⟨handled, m'⟩ := r
  have hno : ¬ (msg.isReport || msg.isGetPublishers) = true := by
    cases msg with
    | getPublishers _ _ _ => exact absurd rfl (hg _ _ _)
    | reportPublishers _ _ _ _ => cases hr
    | _ => exact Bool.false_ne_true
  cases handled with
  | accepted => exact ⟨hm.of_calm hcalm, .other hq hcalm fun h => absurd h hno⟩
  | rejected =>
    have hdead : Calm m' (m'.atNeighbor sender.id markAsDead) :=
      .of_plain (Manager.atNeighbor_plain ExternalManager.markAsDead_plainSends _)
    exact ⟨hm.of_calm hcalm, .other hq (hcalm.trans hdead) fun h => absurd h hno⟩
  | reported => exact absurd rfl hne

theorem handleMessage_heard [Typed V] {env : Env} (hm : m.Known) (sender : ExternalManager V)
    (todo : List MachineID) (msg : Message V) :
    (m.handleMessage env sender msg).Ends
      (fun r => r.2.Known ∧ Heard env sender todo m msg (match r.1 with
        | .accepted => (.messages (some sender.id) todo, r.2)
        | .rejected => (.messages (some sender.id) todo, r.2.atNeighbor sender.id markAsDead)
        | .reported => (.reportInit sender.id todo, r.2))) fun _ => True := by
  have hdead (m' : Manager V) : Calm m' (m'.atNeighbor sender.id markAsDead) :=
    .of_plain (Manager.atNeighbor_plain ExternalManager.markAsDead_plainSends _)
  have hgone (e : ExternalManager V) (he : (m.atNeighbor sender.id markAsDead).neighbors.lookup sender.id = some e) :
      e.dead = true := by
    obtain ⟨e₀, -, rfl⟩ := Manager.of_lookup_atNeighbor he
    rw [if_pos rfl]
    rfl
  cases msg with
  | reportPublishers tags addresses machines locallyProducedTags =>
    unfold Manager.handleMessage
    dsimp only
    split
    · exact ⟨hm, .other rfl (hdead m) fun _ => hgone⟩
    · refine .bind (Manager.addPublishersAndPropagate_cases hm sender tags addresses machines locallyProducedTags)
        fun r hr => ?_
      rcases hr with ⟨hmis, rfl⟩ | ⟨htrue, hrep, hnone⟩
      · exact ⟨hm, .ignored hmis⟩
      · obtain ⟨m', b⟩ := r
        obtain rfl : b = true := htrue
        exact ⟨.of_none hnone, .reported hrep hnone⟩
  | getPublishers tags publishersNeeded ignoreCache =>
    unfold Manager.handleMessage
    dsimp only
    split
    · rename_i hbad
      exact ⟨hm, .other (by simpa [Message.isRequest] using hbad) (hdead m) fun _ => hgone⟩
    · rename_i hok
      have hok' : tags.all tagNameOkay = true := by simpa using hok
      refine .bind (Manager.handleGetPublishers_cases hm sender tags publishersNeeded ignoreCache) fun m' h => ?_
      obtain ⟨hknown, ha | ⟨missing, hmissing, he | hd⟩⟩ := h
      · exact ⟨hknown, .answered hok' ha⟩
      · exact ⟨hknown, .early hok' hmissing he⟩
      · exact ⟨hknown, .deferred hok' hmissing hd⟩
  | _ => exact handleMessage_other hm sender todo rfl (by intro _ _ _ h; cases h) rfl

/-- The current neighbour's next message, once it is heard. -/
theorem handleNext_heard [Typed V] {env : Env} (hkeyed : m.Keyed) (hm : m.Known) (id : MachineID)
    (todo : List MachineID) (msg : Message V) :
    (handleNext env id todo msg m).Ends (fun r => r.2.Known ∧ ∃ sender,
      (m.atNeighbor id (·.hear env msg)).neighbors.lookup id = some sender ∧ sender.id = id ∧
        Heard env sender todo (m.atNeighbor id (·.hear env msg)) msg r) fun _ => True := by
  unfold handleNext
  dsimp only
  split
  · trivial
  · rename_i sender hsender
    have hid : sender.id = id := by
      obtain ⟨e, he, rfl⟩ := Manager.of_lookup_atNeighbor hsender
      rw [if_pos rfl]
      exact hkeyed id e he
    refine .bind (handleMessage_heard (m := m.atNeighbor id (·.hear env msg)) hm sender todo msg) fun r hr => ?_
    obtain ⟨hknown, hheard⟩ := hr
    obtain ⟨handled, m'⟩ := r
    cases handled with
    | accepted => exact ⟨hknown, sender, hsender, hid, hid ▸ hheard⟩
    | rejected => exact ⟨hknown, sender, hsender, hid, hid ▸ hheard⟩
    | reported => exact ⟨hknown, sender, hsender, hid, hid ▸ hheard⟩

end Skywing.L4
