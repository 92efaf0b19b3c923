import Skywing.L4App.Waiting
import Skywing.L4App.OneReply

/-!
# Requests that nobody will answer

A request that cannot be answered at once is answered when one of the other
neighbours, which have all been asked, sends a report
(`skywing_core/manager.cpp`). So whoever waits needs another neighbour with an
outstanding request. Neighbours that come later are not asked for it, so those
that were there when it was made must not all be lost.

`since` is who was a neighbour when a request was deferred and has been ever
since, without a report that was ignored; it is history.

Results:
* `reply_expected`: in every run that meets `cond` a live neighbour that waits
  has such a neighbour, in every state.
* `orphan`: the neighbour that was asked dies, and `remove_dead_neighbors`
  leaves the one that waits with nobody to wait for.
-/
namespace Skywing.L4.Orphans

open L3 L1.Text
open L3.Manager (Calm Replies Answered AnsweredEarly Deferred Missing Mismatched recorded_iff recorded_congr
  recorded_of_none recorded_markPropagation)
open GroupMembers (quietEnv machine initial_machine)
open OneReply (connected)

variable {V : Type}

/-! ## The property -/

/-- A neighbour other than `id` has an outstanding request. -/
def Expected (m : Manager V) (id : MachineID) : Prop :=
  ∃ id' e', id' ≠ id ∧ m.neighbors.lookup id' = some e' ∧ e'.pendingTagRequest = true

/-- Every live neighbour that waits has another one whose report would answer
it. -/
def NoOrphan (m : Manager V) (w : MachineID → Bool) : Prop :=
  ∀ id e, m.neighbors.lookup id = some e → e.dead = false → w id = true → Expected m id

/-- Who waits, and who has been a neighbour since each request. -/
structure History where
  waiting : MachineID → Bool
  since : MachineID → List MachineID

/-- The main loop, and its history. -/
abbrev Watched (V : Type) := Sys V × History

/-- A neighbour that a step removes, or whose report it ignores. -/
def lost (m : Manager V) : Pc → Label V → MachineID → Bool
  | .removing (gone :: _) _, .remove _, id => decide (id = gone) && (m.neighbors.lookup gone).any (·.dead)
  | .messages (some sender) _, .message (.reportPublishers tags addresses machines _) _, id =>
    decide (id = sender) && Mismatched tags addresses machines
  | _, _, _ => false

def History.next (h : History) (pc : Pc) (l : Label V) (m m' : Manager V) : History where
  waiting := waits m m' h.waiting
  since id := (if h.waiting id then h.since id else m'.neighbors.keys.filter (· ≠ id)).filter (!lost m pc l ·)

def watch (h : History) (l : Label V) : Sys V → Sys V → History
  | .running pc m, .running _ m' => h.next pc l m m'
  | _, _ => h

def step [Typed V] (s : Watched V) (l : Label V) : Option (Watched V) :=
  (L4.step s.1 l).map fun s' => (s', watch s.2 l s.1 s')

def Initial (s : Watched V) : Prop := L4.Initial s.1 ∧ s.2.waiting = fun _ => false

def lts (V : Type) [Typed V] : LTS (Watched V) (Label V) := LTS.ofFn Initial step

/-! ## The condition -/

/-- A step leaves everyone who waits, and is not lost itself, one that has been
a neighbour since it asked. -/
def leavesOne (m : Manager V) (pc : Pc) (l : Label V) (h : History) : Bool :=
  m.neighbors.entries.all fun e => lost m pc l e.1 || e.2.dead || !h.waiting e.1 || (h.since e.1).any (!lost m pc l ·)

/-- Whoever waits, apart from `id`, is recorded under a tag that is not called
`id`. -/
def keepsRecorded (m : Manager V) (w : MachineID → Bool) (id : MachineID) : Bool :=
  m.neighbors.entries.all fun e => e.1 = id || e.2.dead || !w e.1 ||
    { m with sendPublisherInformationTo := m.sendPublisherInformationTo.erase id }.recorded e.1

/-- A request that is answered because its sender has been asked itself. -/
def answersEarly (m : Manager V) (id : MachineID) (tags : List TagID) (publishersNeeded : List UInt8) : Bool :=
  tags.all tagNameOkay && (m.neighbors.lookup id).any (·.pendingTagRequest) &&
    m.neighbors.entries.length ≠ 1 &&
    match m.removeTagsWithEnoughPublishers tags publishersNeeded with
    | .ok remaining => !remaining.isEmpty
    | .error _ => false

/-- An early answer forgets nobody but its receiver. -/
def forgetsNobody (m : Manager V) (w : MachineID → Bool) : Pc → Label V → Bool
  | .messages (some id) _, .message (.getPublishers tags publishersNeeded _) _ =>
    !answersEarly m id tags publishersNeeded || keepsRecorded m w id
  | _, _ => true

def cond : Watched V → Label V → Bool
  | (.running pc m, h), l => leavesOne m pc l h && forgetsNobody m h.waiting pc l
  | _, _ => true

/-! ## The invariant -/

structure Inv (pc : Pc) (m : Manager V) (w : MachineID → Bool) : Prop where
  numbered : m.Numbered
  known : m.Known
  expected : ∀ id e, m.neighbors.lookup id = some e → e.dead = false → w id = true →
    m.recorded id = true ∧ Expected m id
  answered : ∀ i todo, pc = .reportInit i todo → ∀ id e, m.neighbors.lookup id = some e → e.dead = false → w id = false

variable {m m₁ m₂ : Manager V} {env : Env} {w : MachineID → Bool} {pc pc' : Pc}

/-- Requests that were outstanding still are, those of `gone` apart. -/
def Asks (gone : MachineID → Bool) (m m' : Manager V) : Prop :=
  ∀ k e, m.neighbors.lookup k = some e → gone k = false →
    ∃ e', m'.neighbors.lookup k = some e' ∧ (e.pendingTagRequest = true → e'.pendingTagRequest = true)

section Asks

variable {gone : MachineID → Bool}

theorem Asks.trans (h : Asks gone m m₁) (h' : Asks gone m₁ m₂) : Asks gone m m₂ := by
  intro k e he hg
  obtain ⟨e₁, he₁, hp₁⟩ := h k e he hg
  obtain ⟨e₂, he₂, hp₂⟩ := h' k e₁ he₁ hg
  exact ⟨e₂, he₂, fun hp => hp₂ (hp₁ hp)⟩

theorem Asks.of_calm (h : Calm m m₁) : Asks gone m m₁ := by
  intro k e he _
  rcases h.neighbors.lookup k with ⟨hn, -⟩ | ⟨e₀, e', h₀, h', hR⟩
  · rw [hn] at he
    cases he
  · rw [he] at h₀
    cases h₀
    exact ⟨e', h', hR.pendingTagRequest⟩

theorem Asks.of_replies {who : MachineID → Bool} (h : Replies who m m₁) : Asks gone m m₁ := by
  intro k e he _
  rcases h.lookup k with ⟨hn, -⟩ | ⟨e₀, e', h₀, h', hR⟩
  · rw [hn] at he
    cases he
  · rw [he] at h₀
    cases h₀
    exact ⟨e', h', hR.pendingTagRequest⟩

theorem Asks.atNeighbor {f : ExternalManager V → ExternalManager V}
    (hf : ∀ e, (f e).pendingTagRequest = e.pendingTagRequest) (id : MachineID) :
    Asks gone m (m.atNeighbor id f) := by
  intro k e he _
  refine ⟨_, (Manager.lookup_atNeighbor _ _ _ _).trans (congrArg _ he), fun hp => ?_⟩
  split
  · rw [hf]
    exact hp
  · exact hp

end Asks

/-- Requests of others than `gone` are expected to be answered. -/
def ExpectedBut (gone : MachineID → Bool) (m : Manager V) (id : MachineID) : Prop :=
  ∃ id' e', id' ≠ id ∧ gone id' = false ∧ m.neighbors.lookup id' = some e' ∧ e'.pendingTagRequest = true

theorem ExpectedBut.expected {gone : MachineID → Bool} {id : MachineID} (h : ExpectedBut gone m id)
    (ha : Asks gone m m₁) : Expected m₁ id := by
  obtain ⟨k, e, hk, hg, he, hp⟩ := h
  obtain ⟨e', he', hp'⟩ := ha k e he hg
  exact ⟨k, e', hk, he', hp' hp⟩

/-- It waited before, and what was outstanding still is. -/
structure StillWaits (gone : MachineID → Bool) (m m' : Manager V) (w : MachineID → Bool) (id : MachineID) : Prop where
  waited : w id = true
  recorded : m.recorded id = true → m'.recorded id = true
  asks : Asks gone m m'

/-- It has asked just now, and so have all others been. -/
structure HasAsked (m' : Manager V) (w : MachineID → Bool) (id : MachineID) : Prop where
  first : w id = false
  recorded : m'.recorded id = true
  several : ∃ k e, k ≠ id ∧ m'.neighbors.lookup k = some e
  asked : ∀ k e, k ≠ id → m'.neighbors.lookup k = some e → e.pendingTagRequest = true

/-- What a step from `m` to `m'` does to those who wait in the end; `gone` is
lost on the way. -/
structure Passes (gone : MachineID → Bool) (m : Manager V) (w : MachineID → Bool) (pc' : Pc)
    (m' : Manager V) : Prop where
  numbered : m'.Numbered
  known : m'.Known
  waiting : ∀ id e', m'.neighbors.lookup id = some e' → e'.dead = false → waits m m' w id = true →
    (∃ e, m.neighbors.lookup id = some e ∧ e.dead = false) ∧ (StillWaits gone m m' w id ∨ HasAsked m' w id)
  answered : ∀ i todo, pc' = .reportInit i todo → ∀ id e, m'.neighbors.lookup id = some e → e.dead = false →
    waits m m' w id = false

namespace Passes

variable {gone : MachineID → Bool}

/-- Nobody who waits is left with requests that are lost. -/
theorem inv (hp : Passes gone m w pc' m₁) (h : Inv pc m w)
    (hleft : ∀ id e, m.neighbors.lookup id = some e → e.dead = false → w id = true → ExpectedBut gone m id) :
    Inv pc' m₁ (waits m m₁ w) := by
  refine ⟨hp.numbered, hp.known, fun id e' he' hlive hw => ?_, hp.answered⟩
  obtain ⟨⟨e, he, hl⟩, hstill | hasked⟩ := hp.waiting id e' he' hlive hw
  · exact ⟨hstill.recorded (h.expected id e he hl hstill.waited).1,
      (hleft id e he hl hstill.waited).expected hstill.asks⟩
  · obtain ⟨k, ek, hk, hek⟩ := hasked.several
    exact ⟨hasked.recorded, k, ek, hk, hek, hasked.asked k ek hk hek⟩

/-- Nothing of the search changes. -/
theorem of_calm (h : Inv pc m w) (hc : Calm m m₁) (hpc : ∀ i todo, pc' ≠ .reportInit i todo) :
    Passes gone m w pc' m₁ where
  numbered := h.numbered.calm hc
  known := h.known.of_calm hc
  waiting id e' he' hlive hw := by
    obtain ⟨e, he, hR⟩ := hc.neighbors.of_lookup he'
    rw [waits_calm hc he'] at hw
    exact ⟨⟨e, he, hR.live hlive⟩, .inl ⟨hw, (recorded_congr hc.sendPublisherInformationTo id).trans, .of_calm hc⟩⟩
  answered i todo hi := absurd hi (hpc i todo)

/-- Nobody waits in the end. -/
theorem of_answered (hn : m₁.Numbered) (hk : m₁.Known)
    (hno : ∀ id e, m₁.neighbors.lookup id = some e → e.dead = false → waits m m₁ w id = false) :
    Passes gone m w pc' m₁ where
  numbered := hn
  known := hk
  waiting id e' he' hlive hw := by
    rw [hno id e' he' hlive] at hw
    cases hw
  answered _ _ _ := hno

end Passes

/-! ## Neighbours that come and go -/

theorem greet_passes {gone : MachineID → Bool} (h : Inv pc m w) (sender : MachineID) (neighbors : List MachineID)
    (port : UInt16) (ip : Str) (hc : Calm (m.greet env sender neighbors port ip).2 m₁)
    (hpc : ∀ i todo, pc' ≠ .reportInit i todo) : Passes gone m w pc' m₁ := by
  have hgreet : Asks gone m (m.greet env sender neighbors port ip).2 ∧
      (m.greet env sender neighbors port ip).2.sendPublisherInformationTo = m.sendPublisherInformationTo ∧
      (m.greet env sender neighbors port ip).2.publishersForTag = m.publishersForTag ∧
      ∀ id e', (m.greet env sender neighbors port ip).2.neighbors.lookup id = some e' →
        m.neighbors.lookup id = none ∨ ∃ e, m.neighbors.lookup id = some e ∧ e'.reportsSent = e.reportsSent ∧
          e'.requestsHandled = e.requestsHandled ∧ e'.dead = e.dead := by
    unfold Manager.greet
    cases he : m.neighbors.lookup sender with
    | some e₀ =>
      refine ⟨Asks.atNeighbor (f := ExternalManager.addCommunicator ip) (fun _ => rfl) sender, rfl, rfl,
        fun id e' h => .inr ?_⟩
      obtain ⟨e, he, rfl⟩ := Manager.of_lookup_atNeighbor h
      refine ⟨e, he, ?_⟩
      split <;> exact ⟨rfl, rfl, rfl⟩
    | none =>
      refine ⟨fun k e hk _ => ⟨e, ?_, fun hp => hp⟩, rfl, rfl, fun id e' h => ?_⟩
      · have hne : k ≠ sender := fun h => by
          rw [h, he] at hk
          cases hk
        exact (AList.lookup_insert_ne hne).trans hk
      · by_cases hid : id = sender
        · exact .inl (hid ▸ he)
        · have h' : m.neighbors.lookup id = some e' := (AList.lookup_insert_ne hid).symm.trans h
          exact .inr ⟨e', h', rfl, rfl, rfl⟩
  obtain ⟨hasks, hwait, hpub, hlook⟩ := hgreet
  refine ⟨(h.numbered.greet sender neighbors port ip).calm hc, ?_, fun id e' he' hlive hw => ?_,
    fun i todo hi => absurd hi (hpc i todo)⟩
  · have hk : (m.greet env sender neighbors port ip).2.Known := fun tag ht => hpub ▸ h.known tag (hwait ▸ ht)
    exact hk.of_calm hc
  · obtain ⟨e₁, he₁, hR⟩ := hc.neighbors.of_lookup he'
    rcases hlook id e₁ he₁ with hn | ⟨e, he, hr, hq, hd⟩
    · rw [waits_of_new hn] at hw
      cases hw
    · rw [waits_same he he' (hR.reportsSent.trans hr) (hR.requestsHandled.trans hq)] at hw
      exact ⟨⟨e, he, hd ▸ hR.live hlive⟩, .inl ⟨hw,
        (recorded_congr (hc.sendPublisherInformationTo.trans hwait) id).trans, hasks.trans (.of_calm hc)⟩⟩

theorem removeNeighbor_passes (h : Inv pc m w) {id : MachineID} (hpc : ∀ i todo, pc' ≠ .reportInit i todo) :
    (m.removeNeighbor env id).Ends
      (fun r => Passes (fun k => decide (k = id) && (m.neighbors.lookup id).any (·.dead)) m w pc' r.1)
        fun _ => True := by
  refine (Manager.removeNeighbor_cases id m).mono (fun r hr => ?_) fun _ he => he
  rcases hr with hc | ⟨e, m₁, he, hdead, h₁, h₂⟩
  · exact .of_calm h hc hpc
  have hgone (k : MachineID) : (decide (k = id) && (m.neighbors.lookup id).any (·.dead)) = decide (k = id) := by
    simp [he, hdead]
  simp only [hgone]
  refine ⟨((h.numbered.calm h₁).erase id _).calm h₂, Manager.Known.of_calm (m := { m₁ with
    neighbors := m₁.neighbors.erase id, removed := m₁.removed ++ [e] }) (h.known.of_calm h₁ : m₁.Known) h₂,
    fun key e' he' hlive hw => ?_, fun i todo hi => absurd hi (hpc i todo)⟩
  obtain ⟨e₂, he₂, hR₂⟩ := h₂.neighbors.of_lookup he'
  change (m₁.neighbors.erase id).lookup key = some e₂ at he₂
  have hne : key ≠ id := by
    rintro rfl
    rw [AList.lookup_erase] at he₂
    cases he₂
  rw [AList.lookup_erase_ne hne] at he₂
  obtain ⟨e₀, he₀, hR₁⟩ := h₁.neighbors.of_lookup he₂
  have hR := hR₁.trans hR₂
  rw [waits_same he₀ he' hR.reportsSent hR.requestsHandled] at hw
  refine ⟨⟨e₀, he₀, hR.live hlive⟩, .inl ⟨hw, ?_, fun k ek hek hk => ?_⟩⟩
  · exact (recorded_congr (h₂.sendPublisherInformationTo.trans h₁.sendPublisherInformationTo) key).trans
  · -- the one that goes is the only one whose request is lost
    have hkid : k ≠ id := by simpa using hk
    have hasks (m m' : Manager V) (h : Calm m m') : Asks (fun _ => false) m m' := .of_calm h
    obtain ⟨e₁', h₁', hp₁⟩ := hasks m m₁ h₁ k ek hek rfl
    have hl :
        { m₁ with neighbors := m₁.neighbors.erase id, removed := m₁.removed ++ [e] }.neighbors.lookup k =
          some e₁' := (AList.lookup_erase_ne hkid).trans h₁'
    obtain ⟨e₂', h₂', hp₂⟩ := hasks _ _ h₂ k e₁' hl rfl
    exact ⟨e₂', h₂', fun hp => hp₂ (hp₁ hp)⟩

/-! ## Messages -/

theorem exists_other {id : MachineID} {e : ExternalManager V} (he : m.neighbors.lookup id = some e)
    (hlen : m.neighbors.entries.length ≠ 1) : ∃ k e', k ≠ id ∧ m.neighbors.lookup k = some e' := by
  by_contra hno
  push Not at hno
  have hall : ∀ k ∈ m.neighbors.keys, k = id := by
    intro k hk
    obtain ⟨e', he'⟩ := Option.isSome_iff_exists.mp (AList.lookup_isSome.mpr (AList.mem_keys.mpr hk))
    by_contra hne
    exact hno k e' hne he'
  have hrep : m.neighbors.keys = List.replicate m.neighbors.keys.length id := List.eq_replicate_iff.mpr ⟨rfl, hall⟩
  have hle : m.neighbors.keys.length ≤ 1 := by
    have hnd := m.neighbors.keys_nodup
    rw [hrep] at hnd
    simpa using List.nodup_replicate.mp hnd
  have hpos : 0 < m.neighbors.keys.length :=
    List.length_pos_of_mem (AList.mem_keys.mp (AList.lookup_isSome.mp (by rw [he]; rfl)))
  have hkeys : m.neighbors.keys.length = m.neighbors.entries.length := List.length_map _
  omega

/-- The condition of an early answer does not depend on whether the request
has been heard. -/
theorem answersEarly_of_missing {sender : ExternalManager V} {id : MachineID} {msg : Message V}
    {tags missing : List TagID} {publishersNeeded : List UInt8} (hok : tags.all tagNameOkay = true)
    (hsender : (m.atNeighbor id (·.hear env msg)).neighbors.lookup id = some sender)
    (hpend : sender.pendingTagRequest = true)
    (h : Missing sender tags publishersNeeded (m.atNeighbor id (·.hear env msg)) missing) :
    answersEarly m id tags publishersNeeded = true := by
  obtain ⟨e, he, heq⟩ := Manager.of_lookup_atNeighbor hsender
  rw [if_pos rfl] at heq
  have hp : e.pendingTagRequest = true := by
    rw [heq] at hpend
    exact hpend
  obtain ⟨remaining, hr, rfl⟩ := h.remaining
  have hr' : m.removeTagsWithEnoughPublishers tags publishersNeeded = .ok remaining := hr
  have hlen : m.neighbors.entries.length ≠ 1 := fun h' => h.several ((List.length_map _).trans h')
  have hne : remaining ≠ [] := fun h' => h.nonempty (by rw [h']; rfl)
  simp [answersEarly, hok, he, hp, hlen, hr', hne]

theorem keepsRecorded_spec {id : MachineID} (h : keepsRecorded m w id = true) {key : MachineID}
    {e : ExternalManager V} (he : m.neighbors.lookup key = some e) (hlive : e.dead = false) (hw : w key = true)
    (hne : key ≠ id) :
    ∃ tag ids, tag ≠ id ∧ m.sendPublisherInformationTo.lookup tag = some ids ∧ key ∈ ids := by
  have hall := List.all_eq_true.mp h ⟨key, e⟩ (AList.mem_entries_iff.mpr he)
  simp only [hne, decide_false, hlive, hw, Bool.not_true, Bool.false_or] at hall
  obtain ⟨tag, ids, hl, hk⟩ := recorded_iff.mp hall
  change (m.sendPublisherInformationTo.erase id).lookup tag = some ids at hl
  have htag : tag ≠ id := by
    rintro rfl
    rw [AList.lookup_erase] at hl
    cases hl
  exact ⟨tag, ids, htag, (AList.lookup_erase_ne htag).symm.trans hl, hk⟩

/-- Who waits after a message that answers `who` is not answered by it, and
either waited before or has just asked. -/
theorem waited_of_waits {sender : MachineID} {msg : Message V} {who : MachineID → Bool} {m' : Manager V}
    (hR : Replies who (m.atNeighbor sender (·.hear env msg)) m') {key : MachineID} {e' : ExternalManager V}
    (he' : m'.neighbors.lookup key = some e') (hlive : e'.dead = false) (hw : waits m m' w key = true) :
    who key = false ∧ (∃ e, m.neighbors.lookup key = some e ∧ e.dead = false) ∧
      (w key = true ∨ w key = false ∧ key = sender ∧ Message.isRequest msg = true) := by
  obtain ⟨h₁, h₂⟩ := waits_heard (w := w) hR he' hlive
  cases hwho : who key with
  | true =>
    rw [h₁ hwho] at hw
    cases hw
  | false =>
    obtain ⟨e₁, he₁, hR₁⟩ := hR.of_lookup he'
    obtain ⟨e, he, heq⟩ := Manager.of_lookup_atNeighbor he₁
    refine ⟨rfl, ⟨e, he, ?_⟩, ?_⟩
    · have hd := hR₁.live hlive
      rw [heq] at hd
      split at hd <;> exact hd
    · rw [h₂ hwho, Bool.or_eq_true, Bool.and_eq_true, decide_eq_true_iff] at hw
      cases hold : w key with
      | true => exact .inl rfl
      | false => exact .inr ⟨rfl, hw.resolve_left (by rw [hold]; exact nofun)⟩

/-- An early answer erases an entry of its receiver's name only. -/
theorem recorded_erase_markPropagation {id key : MachineID} {missing : List TagID} {m' : Manager V}
    (hwaiting : m'.sendPublisherInformationTo = (m.markPropagation id missing).sendPublisherInformationTo.erase id)
    {tag : TagID} {ids : List MachineID} (htag : tag ≠ id)
    (hl : m.sendPublisherInformationTo.lookup tag = some ids) (hk : key ∈ ids) : m'.recorded key = true := by
  refine recorded_iff.mpr ?_
  rw [hwaiting]
  by_cases hmem : tag ∈ missing
  · refine ⟨tag, ids.insert id, ?_, List.mem_insert_of_mem hk⟩
    rw [AList.lookup_erase_ne htag, Manager.lookup_markPropagation, if_pos hmem, hl]
    rfl
  · refine ⟨tag, ids, ?_, hk⟩
    rw [AList.lookup_erase_ne htag, Manager.lookup_markPropagation, if_neg hmem, hl]

/-- A report is no request, and to ignore it sends nothing. -/
theorem lookup_ignored {id key : MachineID} {msg : Message V} {e' : ExternalManager V}
    (hmsg : Message.isRequest msg = false)
    (he' : ((m.atNeighbor id (·.hear env msg)).atNeighbor id (·.requestAnswered env)).neighbors.lookup key = some e') :
    ∃ e, m.neighbors.lookup key = some e ∧ e'.reportsSent = e.reportsSent ∧
      e'.requestsHandled = e.requestsHandled ∧ e'.dead = e.dead := by
  obtain ⟨e₁, he₁, heq₁⟩ := Manager.of_lookup_atNeighbor he'
  obtain ⟨e, he, heq⟩ := Manager.of_lookup_atNeighbor he₁
  refine ⟨e, he, ?_⟩
  rw [heq₁, heq]
  by_cases hk : key = id
  · rw [if_pos hk, if_pos hk]
    refine ⟨rfl, (ExternalManager.requestsHandled_hear env msg e).trans ?_, rfl⟩
    rw [hmsg]
    rfl
  · rw [if_neg hk, if_neg hk]
    exact ⟨rfl, rfl, rfl⟩

theorem handleNext_passes [Typed V] {id : MachineID} {todo : List MachineID} {msg : Message V}
    (h : Inv (.messages (some id) todo) m w)
    (hforgets : forgetsNobody m w (.messages (some id) todo) (.message msg env) = true) :
    (handleNext env id todo msg m).Ends
      (fun r => Passes (lost m (.messages (some id) todo) (.message msg env)) m w r.1 r.2) fun _ => True := by
  refine (handleNext_heard h.numbered.keyed h.known id todo msg).mono (fun r hr => ?_) fun _ h => h
  obtain ⟨hknown, sender, hsender, rfl, hheard⟩ := hr
  have hnumbered : (m.atNeighbor sender.id (·.hear env msg)).Numbered :=
    h.numbered.atNeighbor (f := fun e => e.hear env msg) (fun _ => ⟨rfl, rfl⟩) sender.id
  have hasks (gone : MachineID → Bool) : Asks gone m (m.atNeighbor sender.id (·.hear env msg)) :=
    .atNeighbor (f := fun e => e.hear env msg) (fun _ => rfl) sender.id
  cases hheard with
  | other hq hc _ =>
    refine ⟨hnumbered.calm hc, hknown, fun key e' he' hlive hw => ?_, nofun⟩
    obtain ⟨-, hold, hw₀ | ⟨-, -, hreq⟩⟩ := waited_of_waits (.of_calm hc) he' hlive hw
    · exact ⟨hold, .inl ⟨hw₀, (recorded_congr hc.sendPublisherInformationTo key).trans,
        (hasks _).trans (.of_calm hc)⟩⟩
    · rw [hq] at hreq
      cases hreq
  | ignored hmis =>
    rename_i tags addresses machines locallyProducedTags
    refine ⟨hnumbered.atNeighbor (f := fun e => e.requestAnswered env) (fun _ => ⟨rfl, rfl⟩) sender.id, hknown,
      fun key e' he' hlive hw => ?_, nofun⟩
    obtain ⟨e, he, hsent, hhandled, hdead⟩ := lookup_ignored rfl he'
    rw [waits_same he he' hsent hhandled] at hw
    refine ⟨⟨e, he, hdead ▸ hlive⟩, .inl ⟨hw, fun hrec => hrec, fun k ek hek hk => ⟨ek, ?_, fun hp => hp⟩⟩⟩
    have hks : k ≠ sender.id := by simpa [lost, hmis] using hk
    exact (Manager.lookup_atNeighbor_ne hks _).trans ((Manager.lookup_atNeighbor_ne hks m).trans hek)
  | reported hR hnone =>
    rename_i tags addresses machines locallyProducedTags m'
    -- everyone who waited was recorded and is answered
    refine .of_answered (hnumbered.replies hR) hknown fun key e' he' hlive => ?_
    rw [Bool.eq_false_iff]
    intro hw
    obtain ⟨hwho, ⟨e, he, hl⟩, hw₀ | ⟨-, -, hreq⟩⟩ := waited_of_waits hR he' hlive hw
    · have hrec : m.recorded key = true := (h.expected key e he hl hw₀).1
      have hnot : m.recorded key = false := hwho
      rw [hnot] at hrec
      cases hrec
    · cases hreq
  | answered hok ha =>
    refine ⟨hnumbered.replies ha.replies, hknown, fun key e' he' hlive hw => ?_, nofun⟩
    obtain ⟨hwho, hold, hor⟩ := waited_of_waits ha.replies he' hlive hw
    have hne : key ≠ sender.id := by simpa using hwho
    exact ⟨hold, .inl ⟨hor.resolve_right fun h => hne h.2.1, (recorded_congr ha.waiting key).trans,
      (hasks _).trans (.of_replies ha.replies)⟩⟩
  | early hok hmissing ha =>
    rename_i tags publishersNeeded ignoreCache m' missing
    refine ⟨hnumbered.replies ha.replies, hknown, fun key e' he' hlive hw => ?_, nofun⟩
    obtain ⟨hwho, ⟨e, he, hl⟩, hor⟩ := waited_of_waits ha.replies he' hlive hw
    have hne : key ≠ sender.id := by simpa using hwho
    have hw₀ := hor.resolve_right fun h => hne h.2.1
    refine ⟨⟨e, he, hl⟩, .inl ⟨hw₀, fun _ => ?_, (hasks _).trans (.of_replies ha.replies)⟩⟩
    have hearly := answersEarly_of_missing hok hsender ha.pending hmissing
    have hkeeps : keepsRecorded m w sender.id = true := by
      simpa [forgetsNobody, hearly] using hforgets
    obtain ⟨tag, ids, htag, htl, hk⟩ := keepsRecorded_spec hkeeps he hl hw₀ hne
    exact recorded_erase_markPropagation ha.waiting htag htl hk
  | deferred hok hmissing hd =>
    rename_i tags publishersNeeded ignoreCache m' missing
    refine ⟨hnumbered.replies hd.replies, hknown, fun key e' he' hlive hw => ?_, nofun⟩
    have hrec' : m'.recorded key = true ↔ m.recorded key = true ∨ key = sender.id ∧ missing ≠ [] := by
      rw [recorded_congr hd.waiting]
      exact recorded_markPropagation
    obtain ⟨-, hold, hw₀ | ⟨hfirst, rfl, -⟩⟩ := waited_of_waits hd.replies he' hlive hw
    · exact ⟨hold, .inl ⟨hw₀, fun h => hrec'.mpr (.inl h), (hasks _).trans (.of_replies hd.replies)⟩⟩
    · -- everyone else was there before and is asked now
      have hall (k : MachineID) (ek : ExternalManager V) (hk : k ≠ sender.id) (hek : m'.neighbors.lookup k = some ek) :
          ek.pendingTagRequest = true := by
        obtain ⟨e₀, he₀, hR⟩ := hd.replies.of_lookup hek
        refine hd.asked k ek hek fun hptr => hk ?_
        exact hnumbered.inj k sender.id e₀ sender he₀ hsender (hR.ptr.symm.trans hptr)
      obtain ⟨k, ek, hk, hek⟩ := exists_other hsender hmissing.several
      have hkept : Asks (fun _ => false) _ m' := .of_replies hd.replies
      obtain ⟨e₁, he₁, -⟩ := hkept k ek hek rfl
      exact ⟨hold, .inr ⟨hfirst, hrec'.mpr (.inr ⟨rfl, hmissing.nonempty⟩), ⟨k, e₁, hk, he₁⟩, hall⟩⟩

/-! ## Runs -/

/-- Only a message leads to the attempt to connect after a report. -/
theorem act_pc [Typed V] {l : Label V} (hl : ∀ msg env, l ≠ .message msg env)
    (hpc : ∀ i todo, pc ≠ .reportInit i todo) :
    (act l pc m).Ends (fun r => ∀ i todo, r.1 ≠ .reportInit i todo) fun _ => True := by
  unfold act
  split
  · exact hpc
  · exact .bind (.any _) fun _ _ => hpc
  · exact .bind (.any _) fun _ _ => hpc
  · exact .bind (.any _) fun _ _ => hpc
  · exact .bind (.any _) fun _ _ => hpc
  · split
    · trivial
    · exact .bind (.any _) fun _ _ => hpc
  · split
    · trivial
    · split
      · trivial
      · exact .bind (.any _) fun _ _ => hpc
  · exact .bind (.any _) fun _ _ => hpc
  · exact nofun
  · split
    · exact nofun
    · exact .bind (.any _) fun _ _ => nofun
  · show ∀ i todo, _ ≠ Pc.reportInit i todo
    split <;> exact nofun
  · exact .bind (.any _) fun _ _ => nofun
  · exact .bind (.any _) fun _ _ => nofun
  · exact .bind (.any _) fun _ _ => hpc
  · exact nofun
  · exact nofun
  · exact absurd rfl (hl _ _)
  · exact nofun
  · exact nofun
  · exact .bind (.any _) fun _ _ => nofun
  · exact nofun
  · exact hpc

/-- After a report nothing but the attempt to connect comes next. -/
theorem enabled_reportInit {l : Label V} {id : MachineID} {todo : List MachineID}
    (he : l.enabled (.reportInit id todo) m = true) : ∃ env, l = .init env := by
  cases l with
  | init env => exact ⟨env, rfl⟩
  | _ => cases he

/-- The answered request of the report is outstanding no more. -/
theorem reportInit_passes [Typed V] {gone : MachineID → Bool} {id : MachineID} {todo : List MachineID}
    (h : Inv (.reportInit id todo) m w) :
    (act (.init env) (.reportInit id todo) m).Ends (fun r => Passes gone m w r.1 r.2) fun _ => True := by
  refine .bind (Manager.initConnections_calm m) fun m₁ hc => ?_
  refine .of_answered ((h.numbered.calm hc).atNeighbor (f := fun e => e.requestAnswered env) (fun _ => ⟨rfl, rfl⟩) id)
    (h.known.of_calm hc : m₁.Known) fun key e' he' hlive => ?_
  -- nobody waits once a report has been dealt with
  obtain ⟨e₁, he₁, heq⟩ := Manager.of_lookup_atNeighbor he'
  obtain ⟨e, he, hR⟩ := hc.neighbors.of_lookup he₁
  have hfacts : e'.reportsSent = e₁.reportsSent ∧ e'.requestsHandled = e₁.requestsHandled ∧ e'.dead = e₁.dead := by
    rw [heq]
    split <;> exact ⟨rfl, rfl, rfl⟩
  obtain ⟨hr, hq, hd⟩ := hfacts
  rw [waits_same he he' (hr.trans hR.reportsSent) (hq.trans hR.requestsHandled)]
  exact h.answered id todo rfl key e he (hR.live (hd ▸ hlive))

theorem act_passes [Typed V] {l : Label V} (h : Inv pc m w) (he : l.enabled pc m = true)
    (hforgets : forgetsNobody m w pc l = true) :
    (act l pc m).Ends (fun r => Passes (lost m pc l) m w r.1 r.2) fun _ => True := by
  by_cases hrep : ∃ id todo, pc = .reportInit id todo
  · obtain ⟨id, todo, rfl⟩ := hrep
    obtain ⟨env, rfl⟩ := enabled_reportInit he
    exact reportInit_passes h
  push Not at hrep
  cases hcalm : l.calm pc with
  | true =>
    have hl : ∀ msg env, l ≠ .message msg env := by
      rintro msg env rfl
      cases hcalm
    exact ((act_calm hcalm).and (act_pc hl hrep)).mono (fun _ ⟨hc, hpc⟩ => .of_calm h hc hpc) fun _ he => he
  | false =>
    rcases Label.special_cases he hcalm with ⟨msg, env, id, todo, rfl, rfl⟩ | ⟨env, id, todo, new, rfl, rfl⟩ |
      ⟨env, id, todo, rfl, rfl⟩ | ⟨env, key, todo, new, sender, neighbors, port, ip, info, rfl, rfl, hi⟩
    · exact handleNext_passes h hforgets
    · have hpc : ∀ i rest, Pc.removing todo false ≠ .reportInit i rest := nofun
      refine .bind (removeNeighbor_passes h hpc) fun r hr => ?_
      exact ⟨hr.numbered, hr.known, hr.waiting, nofun⟩
    · exact absurd rfl (hrep id todo)
    · unfold act
      dsimp only
      rw [hi]
      have hg : (m.handleGreeting env key info sender neighbors port ip).Ends
          (fun m' => Passes (fun _ => false) m w (.conns todo false) m') fun _ => True :=
        (Manager.handleGreeting_calm key info sender neighbors port ip m).mono
          (fun m' hc => greet_passes h sender neighbors port ip hc nofun) fun _ he => he
      have hp : (m.processConn env key info (.message (.greeting sender neighbors port) ip)).Ends
          (fun r => Passes (fun _ => false) m w (.conns todo false) r.1) fun _ => True := .bind hg fun m' h' => h'
      refine .bind hp fun r hr => ?_
      exact ⟨hr.numbered, hr.known, hr.waiting, nofun⟩

theorem act_inv [Typed V] {l : Label V} (h : Inv pc m w) (he : l.enabled pc m = true)
    (hforgets : forgetsNobody m w pc l = true) (hleft : ∀ id e, m.neighbors.lookup id = some e → e.dead = false →
      w id = true → ExpectedBut (lost m pc l) m id) :
    (act l pc m).Ends (fun r => Inv r.1 r.2 (waits m r.2 w)) fun _ => True :=
  (act_passes h he hforgets).mono (fun _ hp => hp.inv h hleft) fun _ he => he

/-! ## Who was there when it was made -/

/-- One neighbour at most is lost in a step. -/
theorem lost_unique {l : Label V} {k k' : MachineID} (h : lost m pc l k = true)
    (h' : lost m pc l k' = true) : k = k' := by
  unfold lost at h h'
  split at h
  · simp only [Bool.and_eq_true, decide_eq_true_eq] at h h'
    rw [h.1, h'.1]
  · simp only [Bool.and_eq_true, decide_eq_true_eq] at h h'
    rw [h.1, h'.1]
  · cases h

/-- Who has been a neighbour since a request has been asked and not answered. -/
structure Watch (pc : Pc) (m : Manager V) (h : History) : Prop where
  inv : Inv pc m h.waiting
  since : ∀ id e, m.neighbors.lookup id = some e → e.dead = false → h.waiting id = true → ∀ k ∈ h.since id,
    k ≠ id ∧ ∃ e', m.neighbors.lookup k = some e' ∧ e'.pendingTagRequest = true

variable {h : History} {l : Label V}

theorem Watch.left (hs : Watch pc m h) (hleaves : leavesOne m pc l h = true) {id : MachineID} {e : ExternalManager V}
    (he : m.neighbors.lookup id = some e) (hlive : e.dead = false) (hw : h.waiting id = true) :
    ExpectedBut (lost m pc l) m id := by
  cases hid : lost m pc l id with
  | true =>
    obtain ⟨k, ek, hk, hek, hp⟩ := (hs.inv.expected id e he hlive hw).2
    refine ⟨k, ek, hk, Bool.eq_false_iff.mpr fun hlost => hk (lost_unique hlost hid), hek, hp⟩
  | false =>
    have hall := List.all_eq_true.mp hleaves ⟨id, e⟩ (AList.mem_entries_iff.mpr he)
    simp only [hid, hlive, hw, Bool.not_true, Bool.false_or, List.any_eq_true, Bool.not_eq_true'] at hall
    obtain ⟨k, hk, hlost⟩ := hall
    obtain ⟨hne, ek, hek, hp⟩ := hs.since id e he hlive hw k hk
    exact ⟨k, ek, hne, hlost, hek, hp⟩

theorem Watch.next {m' : Manager V} (hs : Watch pc m h) (hp : Passes (lost m pc l) m h.waiting pc' m')
    (hleaves : leavesOne m pc l h = true) : Watch pc' m' (h.next pc l m m') where
  inv := hp.inv hs.inv fun _ _ => hs.left hleaves
  since id e' he' hlive hw k hk := by
    obtain ⟨⟨e, he, hl⟩, hstill | hasked⟩ := hp.waiting id e' he' hlive hw
    · simp only [History.next, hstill.waited, if_true, List.mem_filter, Bool.not_eq_true'] at hk
      obtain ⟨hne, ek, hek, hpend⟩ := hs.since id e he hl hstill.waited k hk.1
      obtain ⟨ek', hek', hpend'⟩ := hstill.asks k ek hek hk.2
      exact ⟨hne, ek', hek', hpend' hpend⟩
    · simp only [History.next, hasked.first, Bool.false_eq_true, if_false, List.mem_filter, decide_eq_true_eq] at hk
      obtain ⟨⟨hkeys, hne⟩, -⟩ := hk
      obtain ⟨ek, hek⟩ := Option.isSome_iff_exists.mp (AList.lookup_isSome.mpr (AList.mem_keys.mpr hkeys))
      exact ⟨hne, ek, hek, hasked.asked k ek hne hek⟩

/-- What holds of a main loop that is watched. -/
def Good : Watched V → Prop
  | (.running pc m, h) => Watch pc m h
  | (.aborted _, _) => True

theorem good_inductive [Typed V] : ((lts V).restrict fun s l => cond s l = true).Inductive Good where
  init := by
    rintro ⟨s, h⟩ ⟨⟨port, id, interval, jobs, rfl⟩, hw⟩
    have hw : h.waiting = fun _ => false := hw
    refine ⟨⟨⟨fun key e h => (nomatch h), fun key e h => (nomatch h), fun key key' e e' h => (nomatch h)⟩,
      fun tag h => (nomatch h), fun key e h => (nomatch h), nofun⟩, fun key e h => (nomatch h)⟩
  step := by
    rintro ⟨s, h⟩ l t hs ⟨hst, hcond⟩
    obtain ⟨s', hs', rfl⟩ := Option.map_eq_some_iff.mp hst
    cases s with
    | aborted a => cases hs'
    | running pc m =>
      cases s' with
      | aborted a => trivial
      | running pc' m' =>
        obtain ⟨he, hact⟩ := step_running hs'
        obtain ⟨hleaves, hforgets⟩ := Bool.and_eq_true_iff.mp hcond
        have hs : Watch pc m h := hs
        exact hs.next ((act_passes hs.inv he hforgets).of_ok hact) hleaves

/-- **No request is orphaned.** In every run that leaves everyone who waits one
of the neighbours there were when it asked, every live neighbour that waits for
a reply has another neighbour with an outstanding request. -/
theorem reply_expected [Typed V] {pc : Pc} {m : Manager V} {h : History}
    (hr : ((lts V).restrict fun s l => cond s l = true).Reachable (.running pc m, h)) : NoOrphan m h.waiting := by
  have hwatch : Watch pc m h := good_inductive.reachable _ hr
  exact fun id e he hlive hw => (hwatch.inv.expected id e he hlive hw).2

/-- `d` asks for a tag that is missing, and is read from before `c`. -/
def asks : List (Label Nat) :=
  connected ++ [.nextNeighbor, .message (.getPublishers [['p', '2']] [1] false) quietEnv, .nextNeighbor]

/-- Nobody has asked. -/
def unasked : History := ⟨fun _ => false, fun _ => []⟩

theorem reply_expected_asked : ∃ m : Manager Nat, ∃ h : History, h.waiting ['d'] = true ∧ h.since ['d'] = [['c']] ∧
    (m.neighbors.lookup ['d']).map (·.dead) = some false ∧ NoOrphan m h.waiting := by
  obtain ⟨pc, m, h, hx, hw, hs, hd⟩ : ∃ pc m h, LTS.exec (LTS.guarded step fun s l => cond s l = true)
      (machine, unasked) asks = some (.running pc m, h) ∧ h.waiting ['d'] = true ∧ h.since ['d'] = [['c']] ∧
        (m.neighbors.lookup ['d']).map (·.dead) = some false := ⟨_, _, _, rfl, rfl, rfl, rfl⟩
  exact ⟨m, h, hw, hs, hd, reply_expected (LTS.restrict_reachable_of_exec ⟨initial_machine, rfl⟩ hx)⟩

/-- `c` dies before it answers, and is removed. -/
theorem orphan : ∃ m : Manager Nat, ∃ h, (lts Nat).Reachable (.running .idle m, h) ∧ ¬ NoOrphan m h.waiting := by
  obtain ⟨m, h, hx, hw, hk, e, he, hd⟩ : ∃ m h, LTS.exec step (machine, unasked)
      (asks ++ [.readError, .endMessages quietEnv, .remove quietEnv, .remove quietEnv, .endPass quietEnv]) =
        some (.running .idle m, h) ∧ h.waiting ['d'] = true ∧ m.neighbors.keys = [['d']] ∧
      ∃ e, m.neighbors.lookup ['d'] = some e ∧ e.dead = false := ⟨_, _, rfl, rfl, rfl, _, rfl, rfl⟩
  refine ⟨m, h, LTS.reachable_of_exec ⟨initial_machine, rfl⟩ hx, fun hno => ?_⟩
  obtain ⟨k, e', hne, hk', -⟩ := hno ['d'] e he hd hw
  have hmem : k ∈ m.neighbors.keys := AList.mem_keys.mp (AList.lookup_isSome.mp (by rw [hk']; rfl))
  rw [hk] at hmem
  exact hne (List.mem_singleton.mp hmem)

end Skywing.L4.Orphans
