import Skywing.L4App.Orphans

/-!
# One step of a manager that keeps its neighbours

What a step of the main loop (`skywing_core/manager.cpp`) adds to the messages
sent to each neighbour and handled from it, and what it does to the
outstanding requests, where no neighbour comes, goes or dies. `recv` is what
is handled in the step, one message or nothing.

Results:
* `act_turn`, `handleNext_turn`: a step that handles nothing and one that
  handles a message.
* `Turn.fresh`: a neighbour starts to wait only when it was not asked itself,
  and then all others are.
-/
namespace Skywing.L4

open L3 L1.Text
open L3.Manager (Calm Replies Answered AnsweredEarly Deferred Missing)

variable {V : Type}

/-! ## Turns -/

/-- The manager has an outstanding request at the neighbour. -/
def asks (m : Manager V) (k : MachineID) : Bool := (m.neighbors.lookup k).any (·.pendingTagRequest)

/-- What a step sends to a neighbour. -/
def sentTo (m m' : Manager V) (k : MachineID) : List (Message V) :=
  match m.neighbors.lookup k, m'.neighbors.lookup k with
  | some e, some e' => e'.sent.drop e.sent.length
  | _, _ => []

/-- Messages were added to a record, and a request where one became
outstanding. -/
structure Grows (recv : List (Message V)) (e e' : ExternalManager V) : Prop where
  sent : ∃ msgs, e'.sent = e.sent ++ msgs ∧ (∀ msg ∈ msgs, msg.balanced = true) ∧
    (e'.pendingTagRequest = true → e.pendingTagRequest = true ∨ msgs.any Message.isGetPublishers = true)
  handled : e'.handled = e.handled ++ recv

structure Turn (pc pc' : Pc) (m m' : Manager V) (recv : MachineID → List (Message V)) : Prop where
  records : ∀ k e', m'.neighbors.lookup k = some e' → ∃ e, m.neighbors.lookup k = some e ∧ Grows (recv k) e e'
  persists : ∀ k, k ∈ m.neighbors → k ∈ m'.neighbors
  kept : ∀ k, asks m k = true → asks m' k = true ∨ ∃ todo, pc = .reportInit k todo
  done : ∀ k todo, pc = .reportInit k todo → asks m' k = false
  request : ∀ k, (recv k).any Message.isGetPublishers = true → (sentTo m m' k).any Message.isReport = true ∨
    (recv k).any Message.isRequest = true ∧ asks m k = false ∧ asks m' k = false ∧
      (∀ u, u ≠ k → u ∈ m'.neighbors → asks m' u = true) ∧ ∃ u, u ≠ k ∧ u ∈ m'.neighbors
  report : ∀ k, (recv k).any Message.isReport = true → ∃ todo, pc' = .reportInit k todo

variable {pc pc' : Pc} {m m₁ m₂ : Manager V} {env : Env} {w : MachineID → Bool} {recv : MachineID → List (Message V)}

theorem asks_eq {k : MachineID} {e : ExternalManager V} (he : m.neighbors.lookup k = some e) :
    asks m k = e.pendingTagRequest := by
  rw [asks, he]
  rfl

theorem sentTo_eq {k : MachineID} {e e' : ExternalManager V} {msgs : List (Message V)}
    (he : m.neighbors.lookup k = some e) (he' : m₁.neighbors.lookup k = some e') (hs : e'.sent = e.sent ++ msgs) :
    sentTo m m₁ k = msgs := by
  unfold sentTo
  rw [he, he']
  simp only [hs, List.drop_left]

theorem mem_of_lookup {k : MachineID} {e : ExternalManager V} (he : m.neighbors.lookup k = some e) : k ∈ m.neighbors :=
  AList.lookup_isSome.mp (by rw [he]; rfl)

theorem lookup_of_mem {k : MachineID} (h : k ∈ m.neighbors) : ∃ e, m.neighbors.lookup k = some e :=
  Option.isSome_iff_exists.mp (AList.lookup_isSome.mpr h)

theorem countP_pos_iff_any {msgs : List (Message V)} {p : Message V → Bool} :
    0 < msgs.countP p ↔ msgs.any p = true := by
  rw [List.countP_pos_iff, List.any_eq_true]

namespace Turn

theorem sent (h : Turn pc pc' m m₁ recv) {k : MachineID} {e e' : ExternalManager V}
    (he : m.neighbors.lookup k = some e) (he' : m₁.neighbors.lookup k = some e') :
    e'.sent = e.sent ++ sentTo m m₁ k := by
  obtain ⟨e₀, he₀, hg⟩ := h.records k e' he'
  rw [he] at he₀
  cases he₀
  obtain ⟨msgs, hs, -⟩ := hg.sent
  rw [sentTo_eq he he' hs, hs]

theorem asked (h : Turn pc pc' m m₁ recv) {k : MachineID} (hk : asks m₁ k = true) :
    asks m k = true ∨ (sentTo m m₁ k).any Message.isGetPublishers = true := by
  cases he' : m₁.neighbors.lookup k with
  | none =>
    rw [asks, he'] at hk
    cases hk
  | some e' =>
    obtain ⟨e, he, hg⟩ := h.records k e' he'
    obtain ⟨msgs, hs, -, ha⟩ := hg.sent
    rw [asks_eq he'] at hk
    rw [asks_eq he, sentTo_eq he he' hs]
    exact ha hk

/-- Who waits, by what was sent and handled. -/
theorem waits_iff (h : Turn pc pc' m m₁ recv) {k : MachineID} (hk : k ∈ m.neighbors) :
    waits m m₁ w k = true ↔ (sentTo m m₁ k).any Message.isReport = false ∧
      (w k = true ∨ (recv k).any Message.isRequest = true) := by
  obtain ⟨e, he⟩ := lookup_of_mem hk
  obtain ⟨e', he'⟩ := lookup_of_mem (h.persists k hk)
  obtain ⟨e₀, he₀, hg⟩ := h.records k e' he'
  rw [he] at he₀
  cases he₀
  have hr : e'.reportsSent = e.reportsSent + (sentTo m m₁ k).countP Message.isReport := by
    rw [ExternalManager.reportsSent, h.sent he he', List.countP_append]
    rfl
  have hq : e'.requestsHandled = e.requestsHandled + (recv k).countP Message.isRequest := by
    rw [ExternalManager.requestsHandled, hg.handled, List.countP_append]
    rfl
  rw [waits_eq he he', hr, hq, ← countP_pos_iff_any, Bool.eq_false_iff, Ne, ← countP_pos_iff_any]
  simp

/-- A neighbour starts to wait when its request is deferred. -/
theorem fresh (h : Turn pc pc' m m₁ recv) {k : MachineID} (hk : k ∈ m.neighbors) (hw : waits m m₁ w k = true) :
    w k = true ∨ asks m k = false ∧ asks m₁ k = false ∧ (∀ u, u ≠ k → u ∈ m₁.neighbors → asks m₁ u = true) ∧
      ∃ u, u ≠ k ∧ u ∈ m₁.neighbors := by
  obtain ⟨hno, hw₀ | hreq⟩ := (h.waits_iff hk).mp hw
  · exact .inl hw₀
  · have hget : (recv k).any Message.isGetPublishers = true := by
      obtain ⟨msg, hm, hq⟩ := List.any_eq_true.mp hreq
      refine List.any_eq_true.mpr ⟨msg, hm, ?_⟩
      cases msg <;> first | rfl | cases hq
    rcases h.request k hget with hr | ⟨-, hd⟩
    · rw [hno] at hr
      cases hr
    · exact .inr hd

/-- A request that is handled is answered or makes its sender wait. -/
theorem request_waits (h : Turn pc pc' m m₁ recv) {k : MachineID} (hk : k ∈ m.neighbors)
    (hget : (recv k).any Message.isGetPublishers = true) :
    waits m m₁ w k = true ∧ asks m₁ k = false ∨ (sentTo m m₁ k).any Message.isReport = true := by
  cases hr : (sentTo m m₁ k).any Message.isReport with
  | true => exact .inr rfl
  | false =>
    rcases h.request k hget with hr' | ⟨hreq, -, ha, -⟩
    · rw [hr] at hr'
      cases hr'
    · exact .inl ⟨(h.waits_iff hk).mpr ⟨hr, .inr hreq⟩, ha⟩

/-- Who waited waits on unless a report is sent. -/
theorem waited (h : Turn pc pc' m m₁ recv) {k : MachineID} (hk : k ∈ m.neighbors) (hw : w k = true) :
    waits m m₁ w k = true ∨ (sentTo m m₁ k).any Message.isReport = true := by
  cases hr : (sentTo m m₁ k).any Message.isReport with
  | true => exact .inr rfl
  | false => exact .inl ((h.waits_iff hk).mpr ⟨hr, .inl hw⟩)

end Turn

/-! ## Steps that handle no message -/

theorem Grows.of_unreported {e e' : ExternalManager V} (h : ExternalManager.Unreported e e') (hlive : e'.dead = false) :
    Grows [] e e' := by
  obtain ⟨msgs, hn, hs, ha⟩ := h.sent
  refine ⟨⟨msgs, hs, fun msg hm => Message.balanced_of_not_report (hn msg hm), fun hp => ?_⟩, by
    rw [h.handled, List.append_nil]⟩
  rcases ha hp with h₁ | h₁ | h₁
  · exact .inl h₁
  · rw [hlive] at h₁
    cases h₁
  · exact .inr h₁

theorem Turn.of_calm (h : Calm m m₁) (hlive : ∀ k e, m₁.neighbors.lookup k = some e → e.dead = false)
    (hpc : ∀ i todo, pc ≠ .reportInit i todo) : Turn pc pc' m m₁ fun _ => [] where
  records k e' he' := by
    obtain ⟨e, he, hR⟩ := h.neighbors.of_lookup he'
    exact ⟨e, he, .of_unreported hR (hlive k e' he')⟩
  persists k hk := (h.neighbors.mem k).mpr hk
  kept k hk := by
    rcases h.neighbors.lookup k with ⟨hn, -⟩ | ⟨e, e', he, he', hR⟩
    · rw [asks, hn] at hk
      cases hk
    · rw [asks_eq he] at hk
      rw [asks_eq he']
      exact .inl (hR.pendingTagRequest hk)
  done k todo hi := absurd hi (hpc k todo)
  request _ h := nomatch h
  report _ h := nomatch h

/-- The request that a report answered is outstanding no more. -/
theorem reportInit_turn [Typed V] {id : MachineID} {todo : List MachineID} :
    (act (.init env) (.reportInit id todo) m).Ends
      (fun r => (∀ k e, r.2.neighbors.lookup k = some e → e.dead = false) →
        Turn (.reportInit id todo) r.1 m r.2 fun _ => []) fun _ => True := by
  refine .bind (Manager.initConnections_calm m) fun m₁ hc => ?_
  have hback (k : MachineID) (e' : ExternalManager V)
      (he' : (m₁.atNeighbor id (·.requestAnswered env)).neighbors.lookup k = some e') :
      ∃ e₁ e, m₁.neighbors.lookup k = some e₁ ∧ m.neighbors.lookup k = some e ∧ ExternalManager.Unreported e e₁ ∧
        e' = if k = id then e₁.requestAnswered env else e₁ := by
    obtain ⟨e₁, he₁, heq⟩ := Manager.of_lookup_atNeighbor he'
    obtain ⟨e, he, hR⟩ := hc.neighbors.of_lookup he₁
    exact ⟨e₁, e, he₁, he, hR, heq⟩
  intro hlive
  refine ⟨fun k e' he' => ?_, fun k hk => ?_, fun k hk => ?_, fun k todo' hi => ?_,
    fun _ h => (nomatch h), fun _ h => (nomatch h)⟩
  · obtain ⟨e₁, e, -, he, hR, heq⟩ := hback k e' he'
    have hd : e₁.dead = false := by
      have hd := hlive k e' he'
      rw [heq] at hd
      split at hd <;> exact hd
    obtain ⟨⟨msgs, hs, hb, ha⟩, hh⟩ := Grows.of_unreported hR hd
    refine ⟨e, he, ?_⟩
    rw [heq]
    split
    · exact ⟨⟨msgs, hs, hb, nofun⟩, hh⟩
    · exact ⟨⟨msgs, hs, hb, ha⟩, hh⟩
  · obtain ⟨e₁, he₁⟩ := lookup_of_mem ((hc.neighbors.mem k).mpr hk)
    exact mem_of_lookup ((Manager.lookup_atNeighbor _ _ _ _).trans (congrArg _ he₁))
  · by_cases hkid : k = id
    · exact .inr ⟨todo, by rw [hkid]⟩
    · rcases hc.neighbors.lookup k with ⟨hn, -⟩ | ⟨e, e', he, he', hR⟩
      · rw [asks, hn] at hk
        cases hk
      · rw [asks_eq he] at hk
        refine .inl ?_
        rw [asks_eq ((Manager.lookup_atNeighbor_ne hkid m₁).trans he')]
        exact hR.pendingTagRequest hk
  · cases hi
    cases he' : (m₁.atNeighbor id (·.requestAnswered env)).neighbors.lookup id with
    | none =>
      show asks (m₁.atNeighbor id (·.requestAnswered env)) id = false
      rw [asks, he']
      rfl
    | some e' =>
      obtain ⟨e₁, e, -, -, -, heq⟩ := hback id e' he'
      show asks (m₁.atNeighbor id (·.requestAnswered env)) id = false
      rw [asks_eq he', heq, if_pos rfl]
      rfl

/-- No connection is completed and no message handled. -/
def Label.internal : Label V → Bool
  | .message _ _ => false
  | .conn (.message (.greeting _ _ _) _) _ => false
  | _ => true

theorem act_turn [Typed V] {l : Label V} (he : l.enabled pc m = true) (hl : l.internal = true)
    (hlive₀ : ∀ k e, m.neighbors.lookup k = some e → e.dead = false) :
    (act l pc m).Ends (fun r => (∀ k e, r.2.neighbors.lookup k = some e → e.dead = false) →
      Turn pc r.1 m r.2 fun _ => []) fun _ => True := by
  by_cases hrep : ∃ id todo, pc = .reportInit id todo
  · obtain ⟨id, todo, rfl⟩ := hrep
    obtain ⟨env, rfl⟩ := Orphans.enabled_reportInit he
    exact reportInit_turn
  push Not at hrep
  cases hcalm : l.calm pc with
  | true => exact (act_calm hcalm).mono (fun _ hc hlive => .of_calm hc hlive hrep) fun _ he => he
  | false =>
    rcases Label.special_cases he hcalm with ⟨msg, env, id, todo, rfl, rfl⟩ | ⟨env, id, todo, new, rfl, rfl⟩ |
      ⟨env, id, todo, rfl, rfl⟩ | ⟨env, key, todo, new, sender, neighbors, port, ip, info, rfl, rfl, hi⟩
    · cases hl
    · refine .bind (Manager.removeNeighbor_cases id m) fun r hr => ?_
      rcases hr with hc | ⟨e, m₁, he, hdead, -⟩
      · exact fun hlive => .of_calm hc hlive hrep
      · rw [hlive₀ id e he] at hdead
        cases hdead
    · exact absurd rfl (hrep id todo)
    · cases hl

/-! ## Messages -/

/-- What is handled of a message from `id`. -/
def received (id : MachineID) (msg : Message V) (k : MachineID) : List (Message V) := if k = id then [msg] else []

theorem any_received {id k : MachineID} {msg : Message V} {p : Message V → Bool}
    (h : (received id msg k).any p = true) : k = id ∧ p msg = true := by
  unfold received at h
  split at h
  · rename_i hk
    exact ⟨hk, by simpa using h⟩
  · cases h

section Heard

variable {id : MachineID} {msg : Message V} {who : MachineID → Bool}

theorem heard_grows (h : Replies who (m.atNeighbor id (·.hear env msg)) m₁) {k : MachineID} {e' : ExternalManager V}
    (he' : m₁.neighbors.lookup k = some e') (hlive : e'.dead = false) :
    ∃ e, m.neighbors.lookup k = some e ∧ Grows (received id msg k) e e' := by
  obtain ⟨e₁, he₁, hR⟩ := h.of_lookup he'
  obtain ⟨e, he, heq⟩ := Manager.of_lookup_atNeighbor he₁
  obtain ⟨msgs, hs, -, -, hb, ha⟩ := hR.sent
  have hfacts : e₁.sent = e.sent ∧ e₁.handled = e.handled ++ received id msg k ∧
      e₁.pendingTagRequest = e.pendingTagRequest := by
    rw [heq, received]
    split
    · exact ⟨rfl, rfl, rfl⟩
    · exact ⟨rfl, (List.append_nil _).symm, rfl⟩
  obtain ⟨h₁, h₂, h₃⟩ := hfacts
  refine ⟨e, he, ⟨msgs, by rw [hs, h₁], hb, fun hp => ?_⟩, by rw [hR.handled, h₂]⟩
  rcases ha hp with h' | h' | h'
  · exact .inl (h₃ ▸ h')
  · rw [hlive] at h'
    cases h'
  · exact .inr h'

theorem heard_persists (h : Replies who (m.atNeighbor id (·.hear env msg)) m₁) (k : MachineID) (hk : k ∈ m.neighbors) :
    k ∈ m₁.neighbors := by
  obtain ⟨e, he⟩ := lookup_of_mem hk
  have he₁ := (Manager.lookup_atNeighbor (·.hear env msg) id k m).trans (congrArg _ he)
  rcases h.lookup k with ⟨hn, -⟩ | ⟨_, e', -, he', -⟩
  · rw [hn] at he₁
    cases he₁
  · exact mem_of_lookup he'

theorem heard_kept (h : Replies who (m.atNeighbor id (·.hear env msg)) m₁) (k : MachineID) (hk : asks m k = true) :
    asks m₁ k = true := by
  cases he : m.neighbors.lookup k with
  | none =>
    rw [asks, he] at hk
    cases hk
  | some e =>
    have he₁ := (Manager.lookup_atNeighbor (·.hear env msg) id k m).trans (congrArg _ he)
    rcases h.lookup k with ⟨hn, -⟩ | ⟨e₁, e', h₁, he', hR⟩
    · rw [hn] at he₁
      cases he₁
    · rw [h₁] at he₁
      have heq := Option.some.inj he₁
      rw [asks_eq he] at hk
      rw [asks_eq he']
      refine hR.pendingTagRequest ?_
      rw [heq]
      split <;> exact hk

/-- Whoever is answered and alive was sent a report. -/
theorem heard_answered (h : Replies who (m.atNeighbor id (·.hear env msg)) m₁) {k : MachineID}
    (hk : k ∈ m.neighbors) (hlive : ∀ k e, m₁.neighbors.lookup k = some e → e.dead = false) (hw : who k = true) :
    (sentTo m m₁ k).any Message.isReport = true := by
  obtain ⟨e', he'⟩ := lookup_of_mem (heard_persists h k hk)
  obtain ⟨e₁, he₁, hR⟩ := h.of_lookup he'
  obtain ⟨e, he, heq⟩ := Manager.of_lookup_atNeighbor he₁
  obtain ⟨msgs, hs, -, ha, -⟩ := hR.sent
  have hsent : e₁.sent = e.sent := by
    rw [heq]
    split <;> rfl
  rw [sentTo_eq he he' (by rw [hs, hsent])]
  rcases ha hw with hd | hn
  · rw [hlive k e' he'] at hd
    cases hd
  · exact countP_pos_iff_any.mp hn

end Heard

/-- A message is handled. -/
theorem handleNext_turn [Typed V] (hnumbered : m.Numbered) (hknown : m.Known) {id : MachineID}
    {todo : List MachineID} {msg : Message V} (hb : msg.balanced = true) :
    (handleNext env id todo msg m).Ends (fun r => (∀ k e, r.2.neighbors.lookup k = some e → e.dead = false) →
      Turn (.messages (some id) todo) r.1 m r.2 (received id msg)) fun _ => True := by
  refine (handleNext_heard hnumbered.keyed hknown id todo msg).mono (fun r hr hlive => ?_) fun _ h => h
  obtain ⟨-, sender, hsender, rfl, hheard⟩ := hr
  have hmem : sender.id ∈ m.neighbors := by
    obtain ⟨e, he, -⟩ := Manager.of_lookup_atNeighbor hsender
    exact mem_of_lookup he
  -- all but what becomes of requests and reports
  have hturn {who : MachineID → Bool} {pc' : Pc} {m' : Manager V}
      (hR : Replies who (m.atNeighbor sender.id (·.hear env msg)) m')
      (hlive : ∀ k e, m'.neighbors.lookup k = some e → e.dead = false)
      (hrequest : msg.isGetPublishers = true → (sentTo m m' sender.id).any Message.isReport = true ∨
        msg.isRequest = true ∧ asks m sender.id = false ∧ asks m' sender.id = false ∧
          (∀ u, u ≠ sender.id → u ∈ m'.neighbors → asks m' u = true) ∧ ∃ u, u ≠ sender.id ∧ u ∈ m'.neighbors)
      (hreport : msg.isReport = true → ∃ todo, pc' = .reportInit sender.id todo) :
      Turn (.messages (some sender.id) todo) pc' m m' (received sender.id msg) := by
    refine ⟨fun k e' he' => heard_grows hR he' (hlive k e' he'), heard_persists hR,
      fun k hk => .inl (heard_kept hR k hk), nofun, fun k hk => ?_, fun k hk => ?_⟩
    · obtain ⟨rfl, hget⟩ := any_received hk
      refine (hrequest hget).imp_right fun h => ⟨?_, h.2⟩
      rw [received, if_pos rfl]
      simpa using h.1
    · obtain ⟨rfl, hrep⟩ := any_received hk
      exact hreport hrep
  cases hheard with
  | other hq hc hdead =>
    have hR := Replies.of_calm hc
    have hno : ¬ (msg.isReport || msg.isGetPublishers) = true := by
      intro h
      obtain ⟨e', he'⟩ := lookup_of_mem (heard_persists hR sender.id hmem)
      have hd := hdead h e' he'
      rw [hlive sender.id e' he'] at hd
      cases hd
    refine hturn hR hlive (fun h => absurd ?_ hno) fun h => absurd ?_ hno
    · rw [h, Bool.or_true]
    · rw [h, Bool.true_or]
  | ignored hmis =>
    rw [Message.balanced, hmis] at hb
    cases hb
  | reported hR hw => exact hturn hR hlive (fun h => Bool.noConfusion h) fun _ => ⟨todo, rfl⟩
  | answered hok ha =>
    exact hturn ha.replies hlive (fun _ => .inl (heard_answered ha.replies hmem hlive (by simp)))
      fun h => Bool.noConfusion h
  | early hok hmissing ha =>
    exact hturn ha.replies hlive (fun _ => .inl (heard_answered ha.replies hmem hlive (by simp)))
      fun h => Bool.noConfusion h
  | deferred hok hmissing hd =>
    rename_i tags publishersNeeded ignoreCache m' missing
    refine hturn hd.replies hlive (fun _ => .inr ⟨hok, ?_, ?_, fun u hu hum => ?_, ?_⟩)
      fun h => Bool.noConfusion h
    · obtain ⟨e, he, heq⟩ := Manager.of_lookup_atNeighbor hsender
      have hp := hd.pending
      rw [if_pos rfl] at heq
      rw [asks_eq he]
      rw [heq] at hp
      exact hp
    · obtain ⟨e', he'⟩ := lookup_of_mem (heard_persists hd.replies sender.id hmem)
      rw [asks_eq he', hd.notAsked sender.id sender e' hsender he' rfl]
      exact hd.pending
    · obtain ⟨e', he'⟩ := lookup_of_mem hum
      rw [asks_eq he']
      refine hd.asked u e' he' fun hptr => hu ?_
      obtain ⟨e₁, he₁, hR⟩ := hd.replies.of_lookup he'
      have hn : (m.atNeighbor sender.id (·.hear env (.getPublishers tags publishersNeeded ignoreCache))).Numbered :=
        hnumbered.atNeighbor (f := fun e => e.hear env (.getPublishers tags publishersNeeded ignoreCache))
          (fun _ => ⟨rfl, rfl⟩) sender.id
      exact hn.inj u sender.id e₁ sender he₁ hsender (hR.ptr.symm.trans hptr)
    · obtain ⟨k, ek, hk, hek⟩ := Orphans.exists_other hsender hmissing.several
      obtain ⟨e, he, -⟩ := Manager.of_lookup_atNeighbor hek
      exact ⟨k, hk, heard_persists hd.replies k (mem_of_lookup he)⟩

end Skywing.L4
