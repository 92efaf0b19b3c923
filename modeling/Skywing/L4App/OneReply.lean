import Skywing.L4App.SearchSteps
import Skywing.L4App.GroupMembers

/-!
# One reply for one request

A neighbour that asks for publishers is answered at once or recorded and
answered later, when a report comes in (`skywing_core/manager.cpp`). The
answers to a machine are at most as many as the requests from it as long as
nobody who has been answered at once stays recorded.

Results:
* `replies_le_requests`: in every run in which an early answer leaves its
  receiver unrecorded, unless it was recorded before, a machine has been sent
  at most as many reports as requests from it were handled.
* `two_replies`: `send_publisher_information_to_.erase(from.id())` takes a
  machine for a tag, so one request is answered twice.
-/
namespace Skywing.L4.OneReply

open L3 L1.Text
open L3.Manager (Calm Via SameId ConnEvent Replies Answered AnsweredEarly Deferred Missing recorded_iff
  recorded_congr recorded_of_none recorded_markPropagation lookup_markPropagation)
open L3.ExternalManager (Unreported Replied)
open GroupMembers (quietEnv machine initial_machine)

variable {V : Type}

/-! ## Counting -/

/-- The records of a machine, the current one and those that were removed. -/
def records (m : Manager V) (id : MachineID) : List (ExternalManager V) :=
  (m.neighbors.lookup id).toList ++ m.removed.filter (·.id = id)

/-- How many reports the machine was sent. -/
def reports (m : Manager V) (id : MachineID) : Nat :=
  ((records m id).map (·.sent.countP Message.isReport)).sum

/-- How many requests from the machine were handled. -/
def requests (m : Manager V) (id : MachineID) : Nat :=
  ((records m id).map (·.handled.countP Message.isRequest)).sum

variable {m m₁ : Manager V} {env : Env}

theorem reports_le {who : MachineID → Bool} (h : Replies who m m₁) (id : MachineID) :
    reports m₁ id ≤ reports m id + (who id).toNat := by
  unfold reports records
  rw [h.removed]
  rcases h.lookup id with ⟨hn, hn'⟩ | ⟨e, e', he, he', hR⟩
  · rw [hn, hn']
    exact Nat.le_add_right _ _
  · obtain ⟨msgs, hs, hc, -, -⟩ := hR.sent
    rw [he, he']
    simp only [Option.toList_some, List.singleton_append, List.map_cons, List.sum_cons, hs, List.countP_append]
    omega

theorem requests_eq {who : MachineID → Bool} (h : Replies who m m₁) (id : MachineID) :
    requests m₁ id = requests m id := by
  unfold requests records
  rw [h.removed]
  rcases h.lookup id with ⟨hn, hn'⟩ | ⟨e, e', he, he', hR⟩
  · rw [hn, hn']
  · rw [he, he']
    simp only [Option.toList_some, List.singleton_append, List.map_cons, hR.handled]

structure Inv (m : Manager V) : Prop where
  keyed : m.Keyed
  known : m.Known
  bound : ∀ id, reports m id + (m.recorded id).toNat ≤ requests m id

theorem Inv.calm (hm : Inv m) (h : Calm m m₁) : Inv m₁ where
  keyed := hm.keyed.of_via h.neighbors fun _ _ hR => hR.id
  known := hm.known.of_calm h
  bound id := by
    have h₁ := reports_le (.of_calm h) id
    rw [recorded_congr h.sendPublisherInformationTo, requests_eq (.of_calm h)]
    have h₀ := hm.bound id
    simp only [Bool.toNat_false, Nat.add_zero] at h₁
    omega

/-- An update of one record that leaves its messages as they are. -/
theorem atNeighbor_replies {f : ExternalManager V → ExternalManager V}
    (hf : ∀ e, (f e).id = e.id ∧ (f e).sent = e.sent ∧ (f e).handled = e.handled) (id key : MachineID) :
    reports (m.atNeighbor id f) key = reports m key ∧ requests (m.atNeighbor id f) key = requests m key := by
  have hl := Manager.lookup_atNeighbor f id key m
  have hr : (m.atNeighbor id f).removed = m.removed := rfl
  unfold reports requests records
  rw [hl, hr]
  cases m.neighbors.lookup key with
  | none => exact ⟨rfl, rfl⟩
  | some e =>
    obtain ⟨-, hs, hh⟩ := hf e
    by_cases hk : key = id
    · simp [hk, hs, hh]
    · simp [hk]

theorem Inv.atNeighbor (hm : Inv m) {f : ExternalManager V → ExternalManager V}
    (hf : ∀ e, (f e).id = e.id ∧ (f e).sent = e.sent ∧ (f e).handled = e.handled) (id : MachineID) :
    Inv (m.atNeighbor id f) where
  keyed := by
    intro key e' he'
    obtain ⟨e, he, rfl⟩ := Manager.of_lookup_atNeighbor he'
    have hid := hm.keyed key e he
    split
    · exact (hf e).1.trans hid
    · exact hid
  known := hm.known
  bound key := by
    obtain ⟨h₁, h₂⟩ := atNeighbor_replies (m := m) hf id key
    rw [h₁, h₂]
    exact hm.bound key

/-- A message that is heard counts where it is a request. -/
theorem hear_counts {id : MachineID} {msg : Message V} {sender : ExternalManager V}
    (h : (m.atNeighbor id (·.hear env msg)).neighbors.lookup id = some sender) (key : MachineID) :
    reports (m.atNeighbor id (·.hear env msg)) key = reports m key ∧
      requests (m.atNeighbor id (·.hear env msg)) key =
        requests m key + if key = id then (Message.isRequest msg).toNat else 0 := by
  have hl (key : MachineID) := Manager.lookup_atNeighbor (·.hear env msg) id key m
  have hr : (m.atNeighbor id (·.hear env msg)).removed = m.removed := rfl
  unfold reports requests records
  rw [hl key, hr]
  by_cases hk : key = id
  · subst hk
    rw [hl key] at h
    obtain ⟨e, he, -⟩ := Option.map_eq_some_iff.mp h
    have hone : [msg].countP Message.isRequest = (Message.isRequest msg).toNat := by
      cases hq : Message.isRequest msg <;> simp [hq]
    rw [he]
    simp only [Option.map_some, if_true, Option.toList_some, List.singleton_append, List.map_cons, List.sum_cons,
      ExternalManager.hear, List.countP_append, hone]
    exact ⟨trivial, by omega⟩
  · simp [hk]

/-! ## Neighbours that come and go -/

theorem greet_inv (hm : Inv m) (sender : MachineID) (neighbors : List MachineID) (port : UInt16) (ip : Str) :
    Inv (m.greet env sender neighbors port ip).2 := by
  unfold Manager.greet
  cases he : m.neighbors.lookup sender with
  | some e₀ =>
    exact hm.atNeighbor (f := ExternalManager.addCommunicator ip) (fun e => ⟨rfl, rfl, rfl⟩) sender
  | none =>
    have hid : (ExternalManager.create (V := V) env m.nextPtr ip sender neighbors port).id = sender := rfl
    refine ⟨fun key e' h => hm.keyed.insert hid h, hm.known, fun key => ?_⟩
    refine le_trans (le_of_eq ?_) (le_trans (hm.bound key) (le_of_eq ?_))
    · congr 1
      unfold reports records
      by_cases hk : key = sender
      · subst hk
        simp [he, AList.lookup_insert, ExternalManager.create]
      · simp [AList.lookup_insert_ne hk]
    · unfold requests records
      by_cases hk : key = sender
      · subst hk
        simp [he, AList.lookup_insert, ExternalManager.create]
      · simp [AList.lookup_insert_ne hk]

theorem removeNeighbor_inv (hm : Inv m) (id : MachineID) :
    (m.removeNeighbor env id).Ends (fun r => Inv r.1) fun _ => True := by
  refine (Manager.removeNeighbor_cases id m).mono (fun r h => ?_) fun _ he => he
  rcases h with h | ⟨e, m₁, he, -, h₁, h₂⟩
  · exact hm.calm h
  have hm₁ := hm.calm h₁
  have hid : e.id = id := hm.keyed id e he
  suffices hgone : Inv { m₁ with neighbors := m₁.neighbors.erase id, removed := m₁.removed ++ [e] } from hgone.calm h₂
  refine ⟨fun key e' h => hm₁.keyed.erase id h, hm₁.known, fun key => ?_⟩
  -- the record that leaves has the messages it had when the removal began
  have hb := hm.bound key
  have hrec : m₁.recorded key = m.recorded key := recorded_congr h₁.sendPublisherInformationTo key
  have hq₁ : requests m₁ key = requests m key := requests_eq (.of_calm h₁) key
  have hr₁ : reports m₁ key ≤ reports m key := reports_le (.of_calm h₁) key
  simp only [reports, requests, records] at hb hq₁ hr₁ ⊢
  change _ + (m₁.recorded key).toNat ≤ _
  rw [hrec]
  by_cases hk : key = id
  · subst hk
    rw [he] at hb
    rw [h₁.removed]
    simp only [AList.lookup_erase, Option.toList_none, Option.toList_some, List.nil_append, List.singleton_append,
      List.filter_append, List.map_append, List.sum_append, List.map_cons, List.sum_cons] at hb ⊢
    simp only [hid, decide_true, List.filter_cons_of_pos, List.filter_nil, List.map_cons, List.map_nil, List.sum_cons,
      List.sum_nil]
    omega
  · have hne : ¬ e.id = key := fun h => hk (h.symm.trans hid)
    simp only [AList.lookup_erase_ne hk, List.filter_append, List.filter_cons, hne, decide_false,
      List.filter_nil] at hb hq₁ hr₁ ⊢
    simp only [Bool.false_eq_true, if_false, List.append_nil]
    omega

/-! ## Messages -/

/-- Answered at once though it was asked itself, and left in
`send_publisher_information_to_`, where it was not before. -/
def staysRecorded (m : Manager V) (id : MachineID) (tags : List TagID) (publishersNeeded : List UInt8) : Bool :=
  tags.all tagNameOkay && !m.recorded id && (m.neighbors.lookup id).any (·.pendingTagRequest) &&
    m.neighbors.entries.length ≠ 1 &&
    match m.removeTagsWithEnoughPublishers tags publishersNeeded with
    | .ok remaining => remaining.any fun t => t.1 ≠ id
    | .error _ => false

/-- The request that is handled does not leave its sender recorded and
answered. -/
def answersOnce : Sys V → Label V → Bool
  | .running (.messages (some id) _) m, .message (.getPublishers tags publishersNeeded _) _ =>
    !staysRecorded m id tags publishersNeeded
  | _, _ => true

/-- It does not matter whether the request has been heard. -/
theorem staysRecorded_hear (msg : Message V) (id : MachineID) (tags : List TagID) (publishersNeeded : List UInt8) :
    staysRecorded (m.atNeighbor id (·.hear env msg)) id tags publishersNeeded =
      staysRecorded m id tags publishersNeeded := by
  have hl : (m.atNeighbor id (·.hear env msg)).neighbors.lookup id = (m.neighbors.lookup id).map (·.hear env msg) := by
    rw [Manager.lookup_atNeighbor]
    simp only [if_true]
  have hn : (m.atNeighbor id (·.hear env msg)).neighbors.entries.length = m.neighbors.entries.length :=
    List.length_map _
  have hr : (m.atNeighbor id (·.hear env msg)).recorded id = m.recorded id := rfl
  have ht : (m.atNeighbor id (·.hear env msg)).removeTagsWithEnoughPublishers tags publishersNeeded =
      m.removeTagsWithEnoughPublishers tags publishersNeeded := rfl
  unfold staysRecorded
  rw [hl, hn, hr, ht, Option.any_map]
  rfl

/-- An early answer keeps recorded whom the condition lets it. -/
theorem early_recorded {sender : ExternalManager V} {tags missing : List TagID} {publishersNeeded : List UInt8}
    (hok : tags.all tagNameOkay = true) (hmissing : Missing sender tags publishersNeeded m missing)
    (hsender : (m.neighbors.lookup sender.id).any (·.pendingTagRequest) = true)
    (h : AnsweredEarly sender missing m m₁) (hstays : staysRecorded m sender.id tags publishersNeeded = false)
    (key : MachineID) (hrec : m₁.recorded key = true) : m.recorded key = true := by
  obtain ⟨tag, ids, hl, hk⟩ := recorded_iff.mp hrec
  rw [h.waiting] at hl
  have htag : tag ≠ sender.id := by
    rintro rfl
    rw [AList.lookup_erase] at hl
    cases hl
  rw [AList.lookup_erase_ne htag, lookup_markPropagation] at hl
  by_cases hrec₀ : m.recorded key = true
  · exact hrec₀
  exfalso
  have hmem : tag ∈ missing := by
    by_contra hmem
    rw [if_neg hmem] at hl
    exact hrec₀ (recorded_iff.mpr ⟨tag, ids, hl, hk⟩)
  rw [if_pos hmem] at hl
  obtain rfl := Option.some.inj hl
  rcases List.mem_insert_iff.mp hk with rfl | hk
  · obtain ⟨remaining, hr, rfl⟩ := hmissing.remaining
    obtain ⟨t, ht, rfl⟩ := List.mem_map.mp hmem
    have hsev := hmissing.several
    simp [staysRecorded, hok, hrec₀, hsender, hr, hsev] at hstays
    exact htag (hstays t.1 t.2 ht)
  · cases hw : m.sendPublisherInformationTo.lookup tag with
    | none =>
      rw [hw] at hk
      cases hk
    | some ids =>
      rw [hw] at hk
      exact hrec₀ (recorded_iff.mpr ⟨tag, ids, hw, hk⟩)

theorem handleNext_inv [Typed V] (hm : Inv m) {id : MachineID} {todo : List MachineID} {msg : Message V}
    (hcond : answersOnce (.running (.messages (some id) todo) m) (.message msg env) = true) :
    (handleNext env id todo msg m).Ends (fun r => Inv r.2) fun _ => True := by
  refine (handleNext_heard hm.keyed hm.known id todo msg).mono (fun r hr => ?_) fun _ h => h
  obtain ⟨hknown, sender, hsender, hid, hheard⟩ := hr
  subst hid
  have hcounts := hear_counts hsender
  -- what was heard is counted and not yet answered
  have hheard₀ : ∀ key, reports (m.atNeighbor sender.id (·.hear env msg)) key + (m.recorded key).toNat +
      (if key = sender.id then (Message.isRequest msg).toNat else 0) ≤
        requests (m.atNeighbor sender.id (·.hear env msg)) key := by
    intro key
    obtain ⟨h₁, h₂⟩ := hcounts key
    have hb := hm.bound key
    rw [h₁, h₂]
    omega
  have hkeyed : (m.atNeighbor sender.id (·.hear env msg)).Keyed := by
    intro key e' he'
    obtain ⟨e, he, rfl⟩ := Manager.of_lookup_atNeighbor he'
    have hid := hm.keyed key e he
    split <;> exact hid
  have hsame (key : MachineID) : (m.atNeighbor sender.id (·.hear env msg)).recorded key = m.recorded key := rfl
  generalize hm₁ : m.atNeighbor sender.id (·.hear env msg) = m₁ at *
  have hpre : Inv m₁ := by
    refine ⟨hkeyed, hm₁ ▸ hm.known, fun key => ?_⟩
    have h := hheard₀ key
    rw [hsame]
    omega
  cases hheard with
  | other hq h _ => exact hpre.calm h
  | ignored h =>
    exact hpre.atNeighbor (f := fun e => e.requestAnswered env) (fun e => ⟨rfl, rfl, rfl⟩) sender.id
  | reported h hw =>
    refine ⟨h.keyed hkeyed, hknown, fun key => ?_⟩
    have h₁ := reports_le h key
    have h₀ := hpre.bound key
    rw [recorded_of_none hw, requests_eq h]
    simp only [Bool.toNat_false]
    omega
  | answered hok h =>
    refine ⟨h.replies.keyed hkeyed, hknown, fun key => ?_⟩
    have h₁ := reports_le h.replies key
    have h₀ := hheard₀ key
    rw [recorded_congr h.waiting, hsame, requests_eq h.replies]
    by_cases hk : key = sender.id
    · simp only [hk, decide_true, Bool.toNat_true, if_true, Message.isRequest, hok] at h₀ h₁ ⊢
      omega
    · simp only [hk, decide_false, Bool.toNat_false, if_false] at h₀ h₁ ⊢
      omega
  | early hok hmissing h =>
    rename_i tags publishersNeeded ignoreCache m' missing
    refine ⟨h.replies.keyed hkeyed, hknown, fun key => ?_⟩
    have h₁ := reports_le h.replies key
    have h₀ := hheard₀ key
    have hrec : (m'.recorded key).toNat ≤ (m.recorded key).toNat := by
      have hpend : (m₁.neighbors.lookup sender.id).any (·.pendingTagRequest) = true := by
        rw [hsender]
        exact h.pending
      have hstays : staysRecorded m₁ sender.id tags publishersNeeded = false := by
        have hc : staysRecorded m sender.id tags publishersNeeded = false := by
          simpa [answersOnce] using hcond
        rw [← hc, ← hm₁, staysRecorded_hear]
      cases hr : m'.recorded key with
      | false => exact Nat.zero_le _
      | true => rw [← hsame, early_recorded hok hmissing hpend h hstays key hr]
    rw [requests_eq h.replies]
    by_cases hk : key = sender.id
    · simp only [hk, decide_true, Bool.toNat_true, if_true, Message.isRequest, hok] at h₀ h₁ hrec ⊢
      omega
    · simp only [hk, decide_false, Bool.toNat_false, if_false] at h₀ h₁ ⊢
      omega
  | deferred hok hmissing h =>
    rename_i tags publishersNeeded ignoreCache m' missing
    refine ⟨h.replies.keyed hkeyed, hknown, fun key => ?_⟩
    have h₁ := reports_le h.replies key
    have h₀ := hheard₀ key
    have hrec : m'.recorded key = true → m.recorded key = true ∨ key = sender.id := by
      rw [recorded_congr h.waiting, recorded_markPropagation, hsame]
      exact fun h => h.imp_right And.left
    have hone := Bool.toNat_le (m'.recorded key)
    show reports m' key + (m'.recorded key).toNat ≤ requests m' key
    rw [requests_eq h.replies]
    by_cases hk : key = sender.id
    · simp only [hk, if_true, Message.isRequest, hok, Bool.toNat_true, Bool.toNat_false] at h₀ h₁ hone ⊢
      omega
    · have hle : (m'.recorded key).toNat ≤ (m.recorded key).toNat := by
        cases hr : m'.recorded key with
        | false => exact Nat.zero_le _
        | true => rw [(hrec hr).resolve_right hk]
      simp only [hk, if_false, Bool.toNat_false] at h₀ h₁
      omega

/-! ## Runs -/

theorem act_inv [Typed V] {l : Label V} {pc : Pc} (hm : Inv m) (he : l.enabled pc m = true)
    (hcond : answersOnce (.running pc m) l = true) : (act l pc m).Ends (fun r => Inv r.2) fun _ => True := by
  cases hcalm : l.calm pc with
  | true => exact (act_calm hcalm).mono (fun _ h => hm.calm h) fun _ he => he
  | false =>
    rcases Label.special_cases he hcalm with ⟨msg, env, id, todo, rfl, rfl⟩ | ⟨env, id, todo, new, rfl, rfl⟩ |
      ⟨env, id, todo, rfl, rfl⟩ | ⟨env, key, todo, new, sender, neighbors, port, ip, info, rfl, rfl, hi⟩
    · exact handleNext_inv hm hcond
    · refine .bind (removeNeighbor_inv hm id) fun r hr => ?_
      exact hr
    · refine .bind (Manager.initConnections_calm m) fun m₁ h₁ => ?_
      exact (hm.calm h₁).atNeighbor (f := fun e => e.requestAnswered env) (fun e => ⟨rfl, rfl, rfl⟩) id
    · unfold act
      dsimp only
      rw [hi]
      have hg : (m.handleGreeting env key info sender neighbors port ip).Ends Inv fun _ => True :=
        (Manager.handleGreeting_calm key info sender neighbors port ip m).mono
          (fun m' h => (greet_inv hm sender neighbors port ip).calm h) fun _ he => he
      have hp : (m.processConn env key info (.message (.greeting sender neighbors port) ip)).Ends
          (fun r => Inv r.1) fun _ => True := .bind hg fun m' h' => h'
      refine .bind hp fun r hr => ?_
      exact hr

theorem inv_inductive [Typed V] :
    ((lts V).restrict fun s l => answersOnce s l = true).Inductive (Holds (fun _ m => Inv m) fun _ => True) := by
  apply holds_inductive
  · intro port id interval jobs
    exact ⟨fun key e h => (nomatch h), fun tag h => (nomatch h), fun id => Nat.zero_le _⟩
  · exact fun pc m l he hcond hm => act_inv hm he hcond

/-- **One request, at most one reply.** While no early answer leaves its
receiver newly recorded, no machine is sent more reports than requests from it
were handled. -/
theorem replies_le_requests [Typed V] {pc : Pc} {m : Manager V}
    (h : ((lts V).restrict fun s l => answersOnce s l = true).Reachable (.running pc m)) (id : MachineID) :
    reports m id ≤ requests m id := by
  have hm : Inv m := inv_inductive.reachable _ h
  exact le_trans (Nat.le_add_right _ _) (hm.bound id)

/-- `c` and `d` connect. -/
def connected : List (Label Nat) :=
  [.connectToServer (['c'], 1) quietEnv, .connectToServer (['d'], 1) quietEnv,
    .beginPass quietEnv, .conn (.connected .noError) quietEnv, .conn (.connected .noError) quietEnv,
    .endConns quietEnv, .endAccept quietEnv, .endMessages quietEnv, .endPass quietEnv,
    .beginPass quietEnv, .conn (.message (.greeting ['c'] [] 1) ['c']) quietEnv,
    .conn (.message (.greeting ['d'] [] 1) ['d']) quietEnv, .endConns quietEnv, .endAccept quietEnv]

/-- `d` asks for a tag and `c` reports. -/
def asksAndReports : List (Label Nat) :=
  [.nextNeighbor, .message (.getPublishers [['p', '2']] [1] false) quietEnv,
    .nextNeighbor, .message (.reportPublishers [] [] [] []) quietEnv]

theorem replies_le_requests_once : ∃ m : Manager Nat, requests m ['d'] = 1 ∧ reports m ['d'] = 1 ∧
    ∀ id, reports m id ≤ requests m id := by
  obtain ⟨pc, m, hx, hq, hr⟩ : ∃ pc m, LTS.exec (LTS.guarded step fun s l => answersOnce s l = true) machine
      (connected ++ asksAndReports) = some (.running pc m) ∧ requests m ['d'] = 1 ∧ reports m ['d'] = 1 :=
    ⟨_, _, rfl, rfl, rfl⟩
  exact ⟨m, hq, hr, replies_le_requests (LTS.restrict_reachable_of_exec initial_machine hx)⟩

/-- `d` was asked for another tag before. -/
theorem two_replies : ∃ pc, ∃ m : Manager Nat, (lts Nat).Reachable (.running pc m) ∧
    ¬ reports m ['d'] ≤ requests m ['d'] := by
  obtain ⟨pc, m, hx, hq, hr⟩ : ∃ pc m, LTS.exec step machine
      ([.subscribe [['p', '1']] quietEnv] ++ connected ++ asksAndReports) = some (.running pc m) ∧
        requests m ['d'] = 1 ∧ reports m ['d'] = 2 := ⟨_, _, rfl, rfl, rfl⟩
  exact ⟨pc, m, LTS.reachable_of_exec initial_machine hx, by omega⟩

end Skywing.L4.OneReply
