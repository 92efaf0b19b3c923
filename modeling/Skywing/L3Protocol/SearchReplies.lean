import Mathlib.Data.List.Dedup
import Skywing.L3Protocol.SearchFrame

/-!
# Who is sent a report, and when

A request for publishers is answered at once, or its sender is recorded under
each tag that is missing and the other neighbours are asked; a report from any
of them answers everyone who is recorded (`skywing_core/manager.cpp`).
`Replies who m m'` says whom a report was sent on the way from `m` to `m'`:
exactly the neighbours in `who` that did not die of it.

Results:
* `handleGetPublishers_cases`: a request is `Answered`, `AnsweredEarly` or
  `Deferred`. The second leaves the sender recorded: what is erased is the
  entry of the tag that is called like it.
* `propagate_replies`: a report answers all who are recorded and forgets them.
-/
namespace Skywing.L3

open L1.Text

/-- A request that gets to its handler. -/
def Message.isRequest {V : Type} : Message V → Bool
  | .getPublishers tags _ _ => tags.all tagNameOkay
  | _ => false

/-- A report whose lists do not go together. -/
def Manager.Mismatched (tags : List TagID) (addresses : List (List Str)) (machines : List (List MachineID)) : Bool :=
  tags.length ≠ addresses.length || tags.length ≠ machines.length

def Message.balanced {V : Type} : Message V → Bool
  | .reportPublishers tags addresses machines _ => !Manager.Mismatched tags addresses machines
  | _ => true

theorem Message.balanced_of_not_report {V : Type} {msg : Message V} (h : msg.isReport = false) :
    msg.balanced = true := by
  cases msg <;> first | rfl | cases h

namespace ExternalManager

variable {V : Type} {e e' e'' : ExternalManager V} {a b : Bool}

/-- A report was sent or the neighbour died of it if `who`, and no report was
sent otherwise. -/
structure Replied (who : Bool) (e e' : ExternalManager V) : Prop where
  ptr : e'.ptr = e.ptr
  id : e'.id = e.id
  handled : e'.handled = e.handled
  pendingTagRequest : e.pendingTagRequest = true → e'.pendingTagRequest = true
  dead : e.dead = true → e'.dead = true
  sent : ∃ msgs : List (Message V), e'.sent = e.sent ++ msgs ∧ msgs.countP Message.isReport ≤ who.toNat ∧
    (who = true → e'.dead = true ∨ 0 < msgs.countP Message.isReport) ∧ (∀ msg ∈ msgs, msg.balanced = true) ∧
    (e'.pendingTagRequest = true → e.pendingTagRequest = true ∨ e'.dead = true ∨
      msgs.any Message.isGetPublishers = true)

namespace Replied

theorem of_unreported (h : Unreported e e') : Replied false e e' where
  ptr := h.ptr
  id := h.id
  handled := h.handled
  pendingTagRequest := h.pendingTagRequest
  dead := h.dead
  sent := by
    obtain ⟨msgs, hn, hs, ha⟩ := h.sent
    refine ⟨msgs, hs, ?_, nofun, fun msg hm => Message.balanced_of_not_report (hn msg hm), ha⟩
    have hzero : msgs.countP Message.isReport = 0 := by
      rw [List.countP_eq_zero]
      intro msg hm
      simp [hn msg hm]
    exact hzero.le

theorem refl (e : ExternalManager V) : Replied false e e := of_unreported (.refl e)

theorem trans (h : Replied a e e') (h' : Replied b e' e'') (hab : (a && b) = false) : Replied (a || b) e e'' where
  ptr := h'.ptr.trans h.ptr
  id := h'.id.trans h.id
  handled := h'.handled.trans h.handled
  pendingTagRequest hp := h'.pendingTagRequest (h.pendingTagRequest hp)
  dead hd := h'.dead (h.dead hd)
  sent := by
    obtain ⟨msgs, hs, hc, ha, hb, hp⟩ := h.sent
    obtain ⟨msgs', hs', hc', ha', hb', hp'⟩ := h'.sent
    refine ⟨msgs ++ msgs', by rw [hs', hs, List.append_assoc], ?_, fun hor => ?_,
      fun msg hm => (List.mem_append.mp hm).elim (hb msg) (hb' msg), fun hpend => ?_⟩
    · have hsum : a.toNat + b.toNat = (a || b).toNat := by
        cases a <;> cases b <;> first | rfl | cases hab
      rw [List.countP_append, ← hsum]
      exact Nat.add_le_add hc hc'
    · rw [List.countP_append]
      rcases (Bool.or_eq_true_iff.mp hor) with h₁ | h₁
      · rcases ha h₁ with hd | hn
        · exact .inl (h'.dead hd)
        · exact .inr (by omega)
      · rcases ha' h₁ with hd | hn
        · exact .inl hd
        · exact .inr (by omega)
    · rw [List.any_append, Bool.or_eq_true]
      rcases hp' hpend with h₁ | h₁ | h₁
      · rcases hp h₁ with h₂ | h₂ | h₂
        · exact .inl h₂
        · exact .inr (.inl (h'.dead h₂))
        · exact .inr (.inr (.inl h₂))
      · exact .inr (.inl h₁)
      · exact .inr (.inr (.inr h₁))

end Replied

theorem sendReport_replied (env : Env) (e : ExternalManager V) {msg : Message V} (h : msg.isReport = true)
    (hb : msg.balanced = true) : Replied true e (e.sendMessage env msg) := by
  unfold sendMessage
  split
  · rename_i hd
    exact ⟨rfl, rfl, rfl, fun h => h, fun h => h, [], (List.append_nil _).symm, Nat.zero_le _, fun _ => .inl hd,
      nofun, .inl⟩
  · split
    · exact ⟨rfl, rfl, rfl, fun h => h, fun _ => rfl, [], (List.append_nil _).symm, Nat.zero_le _,
        fun _ => .inl rfl, nofun, .inl⟩
    · have hone : [msg].countP Message.isReport = 1 := by simp [h]
      exact ⟨rfl, rfl, rfl, fun h => h, fun h => h, [msg], rfl, hone.le, fun _ => .inr (hone ▸ Nat.one_pos),
        List.forall_mem_singleton.mpr hb, .inl⟩

end ExternalManager

namespace Manager

open ExternalManager

variable {V : Type} {m m₁ m₂ : Manager V} {env : Env} {who who' : MachineID → Bool}

structure Replies (who : MachineID → Bool) (m m' : Manager V) : Prop where
  removed : m'.removed = m.removed
  nextPtr : m'.nextPtr = m.nextPtr
  neighbors : ∃ f : MachineID → ExternalManager V → ExternalManager V,
    (∀ id e, Replied (who id) e (f id e)) ∧ m'.neighbors = m.neighbors.mapVal f

namespace Replies

theorem of_calm (h : Calm m m₁) : Replies (fun _ => false) m m₁ where
  removed := h.removed
  nextPtr := h.nextPtr
  neighbors := by
    obtain ⟨f, hf, hn⟩ := h.neighbors
    exact ⟨f, fun id e => .of_unreported (hf id e), hn⟩

theorem of_eq (hr : m₁.removed = m.removed) (hx : m₁.nextPtr = m.nextPtr) (hn : m₁.neighbors = m.neighbors) :
    Replies (fun _ => false) m m₁ :=
  ⟨hr, hx, fun _ e => e, fun _ => .refl, by rw [hn, AList.mapVal_id]⟩

theorem trans (h : Replies who m m₁) (h' : Replies who' m₁ m₂) (hd : ∀ id, (who id && who' id) = false) :
    Replies (fun id => who id || who' id) m m₂ where
  removed := h'.removed.trans h.removed
  nextPtr := h'.nextPtr.trans h.nextPtr
  neighbors := by
    obtain ⟨f, hf, hn⟩ := h.neighbors
    obtain ⟨g, hg, hn'⟩ := h'.neighbors
    exact ⟨fun id e => g id (f id e), fun id e => (hf id e).trans (hg id _) (hd id),
      by rw [hn', hn, AList.mapVal_mapVal]⟩

theorem congr (h : Replies who m m₁) (hw : ∀ id, who id = who' id) : Replies who' m m₁ :=
  funext hw ▸ h

theorem silent_trans (h : Replies (fun _ => false) m m₁) (h' : Replies who m₁ m₂) : Replies who m m₂ :=
  (h.trans h' fun _ => Bool.false_and _).congr fun _ => Bool.false_or _

theorem trans_silent (h : Replies who m m₁) (h' : Replies (fun _ => false) m₁ m₂) : Replies who m m₂ :=
  (h.trans h' fun _ => Bool.and_false _).congr fun _ => Bool.or_false _

theorem lookup (h : Replies who m m₁) (id : MachineID) :
    (m.neighbors.lookup id = none ∧ m₁.neighbors.lookup id = none) ∨
    ∃ e e', m.neighbors.lookup id = some e ∧ m₁.neighbors.lookup id = some e' ∧ Replied (who id) e e' := by
  obtain ⟨f, hf, hn⟩ := h.neighbors
  rw [hn, AList.lookup_mapVal]
  cases m.neighbors.lookup id with
  | none => exact .inl ⟨rfl, rfl⟩
  | some e => exact .inr ⟨e, f id e, rfl, rfl, hf id e⟩

theorem of_lookup (h : Replies who m m₁) {id : MachineID} {e' : ExternalManager V}
    (he : m₁.neighbors.lookup id = some e') : ∃ e, m.neighbors.lookup id = some e ∧ Replied (who id) e e' := by
  rcases h.lookup id with ⟨-, h'⟩ | ⟨e, e'', h₁, h₂, hR⟩
  · rw [h'] at he
    cases he
  · rw [h₂] at he
    cases he
    exact ⟨e, h₁, hR⟩

theorem keyed (h : Replies who m m₁) (hm : m.Keyed) : m₁.Keyed := by
  intro id e' he'
  obtain ⟨e, he, hR⟩ := h.of_lookup he'
  exact hR.id.trans (hm id e he)

end Replies

/-! ## Who waits -/

/-- The machine is in `send_publisher_information_to_`, under some tag. -/
def recorded (m : Manager V) (id : MachineID) : Bool :=
  m.sendPublisherInformationTo.entries.any fun e => id ∈ e.2

theorem recorded_iff {id : MachineID} :
    m.recorded id = true ↔ ∃ tag ids, m.sendPublisherInformationTo.lookup tag = some ids ∧ id ∈ ids := by
  simp only [recorded, List.any_eq_true, Sigma.exists, AList.mem_entries_iff, decide_eq_true_eq]

theorem recorded_congr (h : m₁.sendPublisherInformationTo = m.sendPublisherInformationTo) (id : MachineID) :
    m₁.recorded id = m.recorded id := by
  rw [recorded, recorded, h]

/-- Someone may wait only for a tag there is an entry for. -/
def Known (m : Manager V) : Prop := ∀ tag, tag ∈ m.sendPublisherInformationTo → tag ∈ m.publishersForTag

theorem Known.of_calm (hm : m.Known) (h : Calm m m₁) : m₁.Known := by
  intro tag ht
  rw [h.publishersForTag]
  exact hm tag (h.sendPublisherInformationTo ▸ ht)

theorem Known.of_none (h : ∀ tag, m.sendPublisherInformationTo.lookup tag = none) : m.Known := by
  intro tag ht
  have hs := AList.lookup_isSome.mpr ht
  rw [h tag] at hs
  cases hs

theorem recorded_of_none (h : ∀ tag, m.sendPublisherInformationTo.lookup tag = none) (id : MachineID) :
    m.recorded id = false := by
  rw [Bool.eq_false_iff, Ne, recorded_iff]
  intro hex
  obtain ⟨tag, ids, hl, -⟩ := hex
  rw [h tag] at hl
  cases hl

/-! ## Reports -/

theorem balanced_makeKnown (env : Env) (m : Manager V) : (m.makeKnownTagPublisherMessage env).balanced = true := by
  simp [makeKnownTagPublisherMessage, Message.balanced, Mismatched]

theorem sendKnownPublishers_replies (m : Manager V) (id : MachineID) :
    Replies (fun key => decide (key = id)) m (m.sendKnownPublishers env id) := by
  refine ⟨rfl, rfl, _, fun key e => ?_, rfl⟩
  split
  · rename_i hk
    rw [decide_eq_true hk]
    exact sendReport_replied env e rfl (balanced_makeKnown env m)
  · rename_i hk
    rw [decide_eq_false hk]
    exact .refl e

theorem sendAll_eq (l : List MachineID) (m : Manager V) :
    (l.foldl (fun m id => m.sendKnownPublishers env id) m).publishersForTag = m.publishersForTag ∧
      (l.foldl (fun m id => m.sendKnownPublishers env id) m).sendPublisherInformationTo =
        m.sendPublisherInformationTo := by
  induction l generalizing m with
  | nil => exact ⟨rfl, rfl⟩
  | cons id l ih => exact ih _

theorem sendAll_replies {l : List MachineID} (hl : l.Nodup) (m : Manager V) :
    Replies (fun key => decide (key ∈ l)) m (l.foldl (fun m id => m.sendKnownPublishers env id) m) := by
  induction l generalizing m with
  | nil => exact (Replies.of_eq rfl rfl rfl).congr fun _ => by simp
  | cons id l ih =>
    obtain ⟨hid, hl⟩ := List.nodup_cons.mp hl
    rw [List.foldl_cons]
    refine ((sendKnownPublishers_replies m id).trans (ih hl _) fun key => ?_).congr fun key => ?_
    · by_cases hk : key = id
      · subst hk
        simp [hid]
      · simp [hk]
    · simp [List.mem_cons, Bool.decide_or]

/-- The entries that `propagate` erases. -/
def forgetWaiting (m : Manager V) : Manager V :=
  { m with sendPublisherInformationTo :=
      m.publishersForTag.keys.foldl (fun w tag => w.erase tag) m.sendPublisherInformationTo }

theorem propagate_eq (m : Manager V) :
    m.propagate env = (env.order (m.machinesToSendTo env)).foldl (fun m id => m.sendKnownPublishers env id)
      m.forgetWaiting := rfl

theorem lookup_eraseAll (tags : List TagID) (w : AList fun _ : TagID => List MachineID) (tag : TagID) :
    (tags.foldl (fun w tag => w.erase tag) w).lookup tag = if tag ∈ tags then none else w.lookup tag := by
  induction tags generalizing w with
  | nil => simp
  | cons t tags ih =>
    rw [List.foldl_cons, ih]
    by_cases ht : tag = t
    · subst ht
      simp
    · simp [ht, AList.lookup_erase_ne ht]

theorem mem_machinesToSendTo (hm : m.Known) {id : MachineID} :
    id ∈ m.machinesToSendTo env ↔ m.recorded id = true := by
  rw [recorded_iff, machinesToSendTo, List.mem_dedup, List.mem_flatMap]
  constructor
  · intro hex
    obtain ⟨e, -, he⟩ := hex
    cases hl : m.sendPublisherInformationTo.lookup e.1 with
    | none =>
      rw [hl] at he
      cases he
    | some ids =>
      rw [hl] at he
      exact ⟨e.1, ids, hl, he⟩
  · intro hex
    obtain ⟨tag, ids, hl, hid⟩ := hex
    have htag : tag ∈ m.publishersForTag := hm tag (AList.lookup_isSome.mp (by rw [hl]; rfl))
    obtain ⟨infos, hi⟩ := Option.isSome_iff_exists.mp (AList.lookup_isSome.mpr htag)
    refine ⟨⟨tag, infos⟩, env.mem_order.mpr (AList.mem_entries_iff.mpr hi), ?_⟩
    rw [hl]
    exact hid

/-- Everyone recorded is sent a report and is recorded no more. -/
theorem propagate_replies (hm : m.Known) :
    Replies m.recorded m (m.propagate env) ∧ ∀ tag, (m.propagate env).sendPublisherInformationTo.lookup tag = none := by
  rw [propagate_eq]
  constructor
  · have hnd : (env.order (m.machinesToSendTo env)).Nodup :=
      (env.order_perm _).nodup_iff.mpr (List.nodup_dedup _)
    have hs : Replies (fun _ => false) m m.forgetWaiting := .of_eq rfl rfl rfl
    refine (hs.silent_trans (sendAll_replies hnd _)).congr fun id => ?_
    rw [Bool.eq_iff_iff, decide_eq_true_iff, env.mem_order, mem_machinesToSendTo hm]
  · intro tag
    rw [(sendAll_eq _ _).2]
    refine (lookup_eraseAll _ _ tag).trans ?_
    split
    · rfl
    · rename_i hk
      rw [AList.lookup_eq_none]
      exact fun ht => hk (AList.mem_keys.mpr (hm tag ht))

theorem addPublishers_mem (infos : List PublisherInfo) (tag t : TagID) (h : t ∈ m.publishersForTag) :
    t ∈ (m.addPublishers infos tag).publishersForTag :=
  (AList.mem_insert _).mpr (.inr h)

/-- A report is ignored, or answers everyone who is recorded. -/
theorem addPublishersAndPropagate_cases (hm : m.Known) (sender : ExternalManager V) (tags : List TagID)
    (addresses : List (List Str)) (machines : List (List MachineID)) (locallyProducedTags : List TagID) :
    (m.addPublishersAndPropagate env sender tags addresses machines locallyProducedTags).Ends
      (fun r => Mismatched tags addresses machines = true ∧ r = (m, false) ∨
        r.2 = true ∧ Replies m.recorded m r.1 ∧ ∀ tag, r.1.sendPublisherInformationTo.lookup tag = none)
      fun _ => True := by
  unfold addPublishersAndPropagate
  split
  · rename_i hl
    refine Except.Ends.pure (.inl ⟨?_, rfl⟩)
    rw [Mismatched, Bool.or_eq_true, decide_eq_true_iff, decide_eq_true_iff]
    exact hl
  -- what is added to the cache changes no record and no one's waiting
  have hadd (m' : Manager V) (infos : List PublisherInfo) (tag : TagID)
      (h : m'.Known ∧ m'.sendPublisherInformationTo = m.sendPublisherInformationTo ∧ Replies (fun _ => false) m m') :
      (m'.addPublishers infos tag).Known ∧
        (m'.addPublishers infos tag).sendPublisherInformationTo = m.sendPublisherInformationTo ∧
        Replies (fun _ => false) m (m'.addPublishers infos tag) :=
    ⟨fun t ht => addPublishers_mem infos tag t (h.1 t ht), h.2.1, h.2.2.trans_silent (.of_eq rfl rfl rfl)⟩
  refine .bind (P := fun m' => m'.Known ∧ m'.sendPublisherInformationTo = m.sendPublisherInformationTo ∧
    Replies (fun _ => false) m m') ?_ fun m₁ h₁ => Except.Ends.pure (.inr ⟨rfl, ?_⟩)
  · refine .foldlM (I := fun _ m' => m'.Known ∧ m'.sendPublisherInformationTo = m.sendPublisherInformationTo ∧
      Replies (fun _ => false) m m') ⟨hm, rfl, .of_eq rfl rfl rfl⟩ fun entry rest m' _ h => ?_
    unfold addReported
    split
    · trivial
    · exact hadd m' _ entry.1 h
  · have h₂ : ∀ (l : List TagID) (m' : Manager V),
        (m'.Known ∧ m'.sendPublisherInformationTo = m.sendPublisherInformationTo ∧ Replies (fun _ => false) m m') →
        let m'' := l.foldl (fun m tag => m.addPublishers [⟨sender.address env (.publisher tag), sender.id⟩] tag) m'
        m''.Known ∧ m''.sendPublisherInformationTo = m.sendPublisherInformationTo ∧ Replies (fun _ => false) m m'' := by
      intro l
      induction l with
      | nil => exact fun m' h => h
      | cons tag l ih => exact fun m' h => ih _ (hadd m' _ tag h)
    obtain ⟨hk, hw, hr⟩ := h₂ locallyProducedTags m₁ h₁
    obtain ⟨hp, hnone⟩ := @propagate_replies _ _ env hk
    exact ⟨(hr.silent_trans hp).congr fun id => recorded_congr hw id, hnone⟩

/-! ## Requests -/

/-- A tag that is missing: the waiting are as they were. -/
structure Answered (sender : ExternalManager V) (m m' : Manager V) : Prop where
  replies : Replies (fun key => decide (key = sender.id)) m m'
  waiting : m'.sendPublisherInformationTo = m.sendPublisherInformationTo

/-- The tags of a request that are missing and have to be looked for. -/
structure Missing (sender : ExternalManager V) (tags : List TagID) (publishersNeeded : List UInt8) (m : Manager V)
    (missing : List TagID) : Prop where
  remaining : ∃ remaining, m.removeTagsWithEnoughPublishers tags publishersNeeded = .ok remaining ∧
    missing = remaining.map (·.1)
  nonempty : missing ≠ []
  several : m.neighbors.entries.length ≠ 1

/-- The sender was asked itself and is answered. -/
structure AnsweredEarly (sender : ExternalManager V) (missing : List TagID) (m m' : Manager V) : Prop where
  pending : sender.pendingTagRequest = true
  replies : Replies (fun key => decide (key = sender.id)) m m'
  waiting : m'.sendPublisherInformationTo =
    (m.markPropagation sender.id missing).sendPublisherInformationTo.erase sender.id

/-- The sender waits and all others are asked. -/
structure Deferred (sender : ExternalManager V) (missing : List TagID) (m m' : Manager V) : Prop where
  pending : sender.pendingTagRequest = false
  replies : Replies (fun _ => false) m m'
  waiting : m'.sendPublisherInformationTo = (m.markPropagation sender.id missing).sendPublisherInformationTo
  asked : ∀ key e, m'.neighbors.lookup key = some e → e.ptr ≠ sender.ptr → e.pendingTagRequest = true
  notAsked : ∀ key e e', m.neighbors.lookup key = some e → m'.neighbors.lookup key = some e' →
    e.ptr = sender.ptr → e' = e

theorem lookup_markPropagation (id : MachineID) (missing : List TagID) (m : Manager V) (tag : TagID) :
    (m.markPropagation id missing).sendPublisherInformationTo.lookup tag =
      if tag ∈ missing then some (((m.sendPublisherInformationTo.lookup tag).getD []).insert id)
      else m.sendPublisherInformationTo.lookup tag := by
  unfold markPropagation
  dsimp only
  generalize m.sendPublisherInformationTo = w
  induction missing generalizing w with
  | nil => simp
  | cons t missing ih =>
    rw [List.foldl_cons, ih]
    by_cases ht : tag = t
    · subst ht
      simp
    · simp [ht, AList.lookup_insert_ne ht]

theorem recorded_markPropagation {id key : MachineID} {missing : List TagID} :
    (m.markPropagation id missing).recorded key = true ↔ m.recorded key = true ∨ key = id ∧ missing ≠ [] := by
  rw [recorded_iff, recorded_iff]
  constructor
  · intro hex
    obtain ⟨tag, ids, hl, hk⟩ := hex
    rw [lookup_markPropagation] at hl
    split at hl
    · rename_i ht
      obtain rfl := Option.some.inj hl
      rcases List.mem_insert_iff.mp hk with rfl | hk
      · exact .inr ⟨rfl, List.ne_nil_of_mem ht⟩
      · cases hw : m.sendPublisherInformationTo.lookup tag with
        | none =>
          rw [hw] at hk
          cases hk
        | some ids =>
          rw [hw] at hk
          exact .inl ⟨tag, ids, hw, hk⟩
    · exact .inl ⟨tag, ids, hl, hk⟩
  · intro hor
    rcases hor with ⟨tag, ids, hl, hk⟩ | ⟨rfl, hne⟩
    · by_cases ht : tag ∈ missing
      · refine ⟨tag, ids.insert id, ?_, List.mem_insert_of_mem hk⟩
        rw [lookup_markPropagation, if_pos ht, hl]
        rfl
      · exact ⟨tag, ids, by rw [lookup_markPropagation, if_neg ht, hl], hk⟩
    · obtain ⟨tag, ht⟩ := List.exists_mem_of_ne_nil _ hne
      exact ⟨tag, _, by rw [lookup_markPropagation, if_pos ht], List.mem_insert_self⟩

theorem mem_markInCache (ignoreCache : Bool) (missing : List TagID) (m : Manager V) (tag : TagID) :
    tag ∈ (m.markInCache ignoreCache missing).publishersForTag ↔ tag ∈ m.publishersForTag ∨ tag ∈ missing := by
  unfold markInCache
  dsimp only
  generalize m.publishersForTag = known
  induction missing generalizing known with
  | nil => simp
  | cons t missing ih =>
    rw [List.foldl_cons, ih, AList.mem_insert, List.mem_cons]
    tauto

theorem known_markPropagation (hm : m.Known) (id : MachineID) (ignoreCache : Bool) (missing : List TagID) :
    ((m.markInCache ignoreCache missing).markPropagation id missing).Known := by
  intro tag ht
  refine (mem_markInCache ignoreCache missing m tag).mpr ?_
  by_cases hmem : tag ∈ missing
  · exact .inr hmem
  · refine .inl (hm tag ?_)
    rw [← AList.lookup_isSome, lookup_markPropagation, if_neg hmem] at ht
    exact AList.lookup_isSome.mp ht

/-- What becomes of a request. -/
theorem handleGetPublishers_cases (hm : m.Known) (sender : ExternalManager V) (tags : List TagID)
    (publishersNeeded : List UInt8) (ignoreCache : Bool) :
    (m.handleGetPublishers env sender tags publishersNeeded ignoreCache).Ends
      (fun m' => m'.Known ∧ (Answered sender m m' ∨ ∃ missing, Missing sender tags publishersNeeded m missing ∧
        (AnsweredEarly sender missing m m' ∨ Deferred sender missing m m'))) fun _ => True := by
  unfold handleGetPublishers
  cases hr : m.removeTagsWithEnoughPublishers tags publishersNeeded with
  | error a => trivial
  | ok remaining =>
    have hcache : Replies (fun _ => false) m (m.markInCache ignoreCache (remaining.map (·.1))) := .of_eq rfl rfl rfl
    have hmark : Replies (fun _ => false) m ((m.markInCache ignoreCache (remaining.map (·.1))).markPropagation
      sender.id (remaining.map (·.1))) := .of_eq rfl rfl rfl
    have hknown := known_markPropagation hm sender.id ignoreCache (remaining.map (·.1))
    dsimp only [Except.ok_bind]
    split
    · exact ⟨hm, .inl ⟨sendKnownPublishers_replies m sender.id, rfl⟩⟩
    rename_i hne
    split
    · refine ⟨fun tag ht => ?_, .inl ⟨hcache.silent_trans (sendKnownPublishers_replies _ sender.id), rfl⟩⟩
      exact (mem_markInCache ignoreCache _ m tag).mpr (.inl (hm tag ht))
    rename_i hone
    have hmissing : Missing sender tags publishersNeeded m (remaining.map (·.1)) :=
      ⟨⟨remaining, hr, rfl⟩, fun h => hne (by simpa using h), hone⟩
    split
    · rename_i hp
      refine ⟨fun tag ht => hknown tag (AList.mem_erase.mp ht).2, .inr ⟨_, hmissing, .inl ⟨hp, ?_, rfl⟩⟩⟩
      exact (hmark.silent_trans (sendKnownPublishers_replies _ sender.id)).trans_silent
        (.of_eq rfl rfl rfl)
    · rename_i hp
      refine ⟨hknown, .inr ⟨_, hmissing, .inr ⟨by simpa using hp, ?_, rfl, fun key e he hptr => ?_, ?_⟩⟩⟩
      · refine hmark.trans_silent (.of_calm (mapNeighbors_calm fun e => ?_))
        split
        · exact (resetBackoffCounter_unreported env e).trans (findPublishersForTags_unreported env _ _ _)
        · exact .refl e
      · have he' := (AList.lookup_mapVal _ _ _).symm.trans he
        obtain ⟨e₀, -, rfl⟩ := Option.map_eq_some_iff.mp he'
        split at hptr
        · rename_i hp₀
          rw [if_pos hp₀]
          unfold findPublishersForTags
          split
          · assumption
          · rfl
        · rename_i hp₀
          exact absurd hptr hp₀
      · intro key e e' he he' hptr
        have h' := (AList.lookup_mapVal _ _ _).symm.trans he'
        obtain ⟨e₀, he₀, rfl⟩ := Option.map_eq_some_iff.mp h'
        have heq : e₀ = e := Option.some.inj (he₀.symm.trans he)
        subst heq
        rw [if_neg (not_not.mpr hptr)]

end Manager

end Skywing.L3
