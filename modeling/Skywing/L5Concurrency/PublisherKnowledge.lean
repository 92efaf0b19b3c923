import Skywing.L4App.SearchSteps
import Skywing.L4App.GroupMembers

/-!
# What is known of publishers (`skywing_core/manager.cpp`)

A network of managers with distinct ids, each in its main loop. What a
manager knows of publishers comes from reports; a report lists what its
sender knows and the tags it produces itself, which the receiver records
under the sender's id and what `address()` says. That asks the kernel for the
peer of the connection, and once the peer has reset it goes on with whatever
was on the stack. Reports are merged and sent on over any number of hops.

The network may lose, delay, reorder and repeat messages: a message handled
from a neighbour is one that neighbour has sent at some time. `recorder` is
who first had a publisher in its cache; it is history and nothing reads it.

Results:
* `listed_makeKnown`, `propagate_told`, `act_told`: a manager reports what is
  in its cache and what it produces, and its cache grows by what is reported
  to it and by the senders of reports.
* `publishers_not_invented`: a publisher in any cache, and in any report ever
  sent, produces the tag, and where the kernel names the peer whenever its
  address is recorded, the address is one at which the manager that first
  recorded it reached it.
* `address_invented`: a publisher resets the connection after its report.
-/
namespace Skywing.L5.Publishers

open L3 L4 L1.Text
open L3.Manager (Calm Via SameId ConnEvent)
open L3.ExternalManager (Unreported)
open L4.GroupMembers (quietEnv)

variable {V : Type}

/-! ## Caches and reports -/

/-- `(address, machine)` is in `publishers_for_tag_[tag]`. -/
def InCache (m : Manager V) (tag : TagID) (info : PublisherInfo) : Prop :=
  ∃ infos, m.publishersForTag.lookup tag = some infos ∧ info ∈ infos

/-- A neighbour, or one that was removed. -/
def Record (m : Manager V) (e : ExternalManager V) : Prop :=
  (∃ id, m.neighbors.lookup id = some e) ∨ e ∈ m.removed

/-- Neighbours are found under their ids and have connections. -/
structure Proper (m : Manager V) : Prop where
  keyed : m.Keyed
  conns : ∀ id e, m.neighbors.lookup id = some e → e.conns ≠ []

/-- The manager is or was connected with the machine at this address. -/
def Reached (m : Manager V) (id : MachineID) (address : Str) : Prop :=
  ∃ e, Record m e ∧ e.id = id ∧ addressString e.peer = address

/-- A report lists the publisher for the tag. -/
def Listed (msg : Message V) (tag : TagID) (info : PublisherInfo) : Prop :=
  match msg with
  | .reportPublishers tags addresses machines _ =>
    ∃ as ms, (tag, as, ms) ∈ tags.zip (addresses.zip machines) ∧ (info.address, info.machineId) ∈ as.zip ms
  | _ => False

/-- The tags that the sender of a report says it produces. -/
def producedTags : Message V → List TagID
  | .reportPublishers _ _ _ locallyProducedTags => locallyProducedTags
  | _ => []

/-- What a report of `m` may say. -/
structure ReportOf (m : Manager V) (msg : Message V) : Prop where
  listed : ∀ tag info, Listed msg tag info → InCache m tag info
  produced : ∀ tag ∈ producedTags msg, tag ∈ m.selfSubCount

theorem ReportOf.of_not_report {m : Manager V} {msg : Message V} (h : msg.isReport = false) : ReportOf m msg := by
  cases msg with
  | reportPublishers _ _ _ _ => cases h
  | _ => exact ⟨fun _ _ h => h.elim, nofun⟩

theorem ReportOf.mono {m m' : Manager V} {msg : Message V} (h : ReportOf m msg)
    (hc : ∀ tag info, InCache m tag info → InCache m' tag info)
    (hs : ∀ tag, tag ∈ m.selfSubCount → tag ∈ m'.selfSubCount) : ReportOf m' msg :=
  ⟨fun tag info hl => hc tag info (h.listed tag info hl), fun tag ht => hs tag (h.produced tag ht)⟩

/-- Every publisher goes into the three lists at one place. -/
theorem listed_makeKnown (env : Env) (m : Manager V) : ReportOf m (m.makeKnownTagPublisherMessage env) where
  listed tag info h := by
    obtain ⟨as, ms, hz, hi⟩ := h
    rw [List.zip_map', List.zip_map', List.mem_map] at hz
    obtain ⟨e, he, heq⟩ := hz
    cases heq
    rw [List.zip_map', List.mem_map] at hi
    obtain ⟨info', hi', heq⟩ := hi
    have hinfo : info' = info := by
      cases info
      cases info'
      cases heq
      rfl
    have he' : e ∈ m.publishersForTag.entries := env.mem_order.mp (List.mem_filter.mp he).1
    exact ⟨e.2, AList.mem_entries_iff.mp he', hinfo ▸ env.mem_order.mp hi'⟩
  produced tag h := by
    obtain ⟨e, he, rfl⟩ := List.mem_map.mp h
    exact AList.mem_keys.mpr (List.mem_map_of_mem (env.mem_order.mp he))

/-! ## One manager -/

/-- On the way from `m` to `m'` the cache grew by publishers of `src` at most,
and only reports of `m'` were sent. -/
structure Told (src : TagID → PublisherInfo → Prop) (m m' : Manager V) : Prop where
  proper : Proper m → Proper m'
  selfSubCount : ∀ tag, tag ∈ m.selfSubCount → tag ∈ m'.selfSubCount
  reached : ∀ id address, Reached m id address → Reached m' id address
  cache : ∀ tag info, InCache m' tag info → InCache m tag info ∨ src tag info
  sent : ∀ e', Record m' e' → ∀ msg ∈ e'.sent, (∃ e, Record m e ∧ msg ∈ e.sent) ∨ ReportOf m' msg

namespace Told

variable {src : TagID → PublisherInfo → Prop} {m m₁ m₂ : Manager V}

theorem trans (h : Told src m m₁) (h' : Told src m₁ m₂)
    (hc : ∀ tag info, InCache m₁ tag info → InCache m₂ tag info) : Told src m m₂ where
  proper hm := h'.proper (h.proper hm)
  selfSubCount t ht := h'.selfSubCount t (h.selfSubCount t ht)
  reached id a hr := h'.reached id a (h.reached id a hr)
  cache t info hi := (h'.cache t info hi).elim (h.cache t info) .inr
  sent e' he' msg hmsg := by
    rcases h'.sent e' he' msg hmsg with ⟨e, he, hm⟩ | hr
    · rcases h.sent e he msg hm with h₀ | hr
      · exact .inl h₀
      · exact .inr (hr.mono hc h'.selfSubCount)
    · exact .inr hr

/-- Nothing is said on the way to `m₁`, where the cache may shrink. -/
theorem trans_of_silent (h : Told src m m₁) (hq : ∀ e', Record m₁ e' → ∃ e, Record m e ∧ e'.sent = e.sent)
    (h' : Told src m₁ m₂) : Told src m m₂ where
  proper hm := h'.proper (h.proper hm)
  selfSubCount t ht := h'.selfSubCount t (h.selfSubCount t ht)
  reached id a hr := h'.reached id a (h.reached id a hr)
  cache t info hi := (h'.cache t info hi).elim (h.cache t info) .inr
  sent e' he' msg hmsg := by
    rcases h'.sent e' he' msg hmsg with ⟨e, he, hm⟩ | hr
    · obtain ⟨e₀, he₀, hs⟩ := hq e he
      exact .inl ⟨e₀, he₀, hs ▸ hm⟩
    · exact .inr hr

theorem mono {src' : TagID → PublisherInfo → Prop} (h : Told src m m₁) (hs : ∀ tag info, src tag info → src' tag info) :
    Told src' m m₁ :=
  ⟨h.proper, h.selfSubCount, h.reached, fun t info hi => (h.cache t info hi).imp_right (hs t info), h.sent⟩

/-- Records after sends that meet the condition. -/
theorem of_via {R : ExternalManager V → ExternalManager V → Prop} (hv : Via R m m₁)
    (hid : ∀ e e', R e e' → e'.id = e.id ∧ e'.conns = e.conns ∧ e'.port = e.port)
    (hsent : ∀ e e', R e e' → ∀ msg ∈ e'.sent, msg ∈ e.sent ∨ ReportOf m₁ msg)
    (hr : m₁.removed = m.removed) (hs : ∀ tag, tag ∈ m.selfSubCount → tag ∈ m₁.selfSubCount)
    (hc : ∀ tag info, InCache m₁ tag info → InCache m tag info ∨ src tag info) : Told src m m₁ where
  proper hm := by
    refine ⟨hm.keyed.of_via hv fun e e' hR => (hid e e' hR).1, fun id e' he' => ?_⟩
    obtain ⟨e, he, hR⟩ := hv.of_lookup he'
    rw [(hid e e' hR).2.1]
    exact hm.conns id e he
  selfSubCount := hs
  reached id a := by
    intro hex
    obtain ⟨e, he, hi, ha⟩ := hex
    rcases he with ⟨key, hk⟩ | hrem
    · rcases hv.lookup key with ⟨hn, -⟩ | ⟨e₀, e', h₀, h', hR⟩
      · rw [hn] at hk
        cases hk
      · rw [h₀] at hk
        cases hk
        obtain ⟨h₁, h₂, h₃⟩ := hid _ _ hR
        refine ⟨e', .inl ⟨key, h'⟩, h₁.trans hi, ?_⟩
        rw [← ha, ExternalManager.peer, ExternalManager.peer, h₂, h₃]
    · exact ⟨e, .inr (hr ▸ hrem), hi, ha⟩
  cache := hc
  sent e' he' msg hmsg := by
    rcases he' with ⟨key, hk⟩ | hrem
    · obtain ⟨e, he, hR⟩ := hv.of_lookup hk
      rcases hsent e e' hR msg hmsg with h | h
      · exact .inl ⟨e, .inl ⟨key, he⟩, h⟩
      · exact .inr h
    · exact .inl ⟨e', .inr (hr ▸ hrem), hmsg⟩

theorem of_calm (h : Calm m m₁) : Told src m m₁ := by
  refine of_via h.neighbors (fun e e' hR => ⟨hR.id, hR.conns, hR.port⟩) (fun e e' hR msg hm => ?_) h.removed
    h.selfSubCount fun tag info hi => .inl ?_
  · obtain ⟨msgs, hn, hs, -⟩ := hR.sent
    rw [hs] at hm
    exact (List.mem_append.mp hm).imp_right fun hm => .of_not_report (hn msg hm)
  · rw [InCache, ← h.publishersForTag]
    exact hi

end Told

section Manager

variable {src : TagID → PublisherInfo → Prop} {m m₁ m₂ : Manager V} {env : Env}

/-- One record after an update that sends nothing. -/
theorem atNeighbor_told {f : ExternalManager V → ExternalManager V}
    (hf : ∀ e, (f e).id = e.id ∧ (f e).conns = e.conns ∧ (f e).port = e.port ∧ (f e).sent = e.sent) (id : MachineID) :
    Told src m (m.atNeighbor id f) := by
  refine .of_via (R := fun e e' => e'.id = e.id ∧ e'.conns = e.conns ∧ e'.port = e.port ∧ e'.sent = e.sent)
    ⟨_, fun key e => ?_, rfl⟩ (fun e e' hR => ⟨hR.1, hR.2.1, hR.2.2.1⟩)
    (fun e e' hR msg hm => .inl (hR.2.2.2 ▸ hm)) rfl (fun _ h => h) fun _ _ h => .inl h
  split
  · exact hf e
  · exact ⟨rfl, rfl, rfl, rfl⟩

theorem sendKnownPublishers_told (m : Manager V) (id : MachineID) : Told src m (m.sendKnownPublishers env id) := by
  refine .of_via (R := fun e e' => (e'.id = e.id ∧ e'.conns = e.conns ∧ e'.port = e.port) ∧
      ∀ msg ∈ e'.sent, msg ∈ e.sent ∨ msg = m.makeKnownTagPublisherMessage env)
    ⟨_, fun key e => ?_, rfl⟩ (fun e e' hR => hR.1) (fun e e' hR msg hm => ?_) rfl (fun _ h => h)
    fun _ _ h => .inl h
  · split
    · dsimp only
      rcases ExternalManager.sendMessage_cases env e (m.makeKnownTagPublisherMessage env) with ⟨d, hd⟩ | hs
      · rw [hd]
        exact ⟨⟨rfl, rfl, rfl⟩, fun msg h => .inl h⟩
      · rw [hs]
        refine ⟨⟨rfl, rfl, rfl⟩, fun msg h => (List.mem_append.mp h).imp_right fun h => ?_⟩
        exact List.mem_singleton.mp h
    · exact ⟨⟨rfl, rfl, rfl⟩, fun msg h => .inl h⟩
  · refine (hR.2 msg hm).imp_right fun h => ?_
    rw [h]
    exact ⟨(listed_makeKnown env m).listed, (listed_makeKnown env m).produced⟩

theorem sendAll_told (l : List MachineID) (m : Manager V) :
    Told src m (l.foldl (fun m id => m.sendKnownPublishers env id) m) := by
  induction l generalizing m with
  | nil => exact .of_calm (.refl m)
  | cons id l ih =>
    rw [List.foldl_cons]
    refine (sendKnownPublishers_told m id).trans (ih _) fun tag info h => ?_
    rw [InCache, (Manager.sendAll_eq _ _).1]
    exact h

/-- The cache and who waits for it may change without a word to anyone. -/
theorem of_search (known : AList fun _ : TagID => List PublisherInfo)
    (waiting : AList fun _ : TagID => List MachineID)
    (hc : ∀ tag info, InCache { m with publishersForTag := known, sendPublisherInformationTo := waiting } tag info →
      InCache m tag info ∨ src tag info) :
    Told src m { m with publishersForTag := known, sendPublisherInformationTo := waiting } :=
  .of_via (R := fun e e' => e' = e) (.of_eq (fun _ => rfl) rfl) (fun e e' hR => by rw [hR]; exact ⟨rfl, rfl, rfl⟩)
    (fun e e' hR msg hm => .inl (hR ▸ hm)) rfl (fun _ h => h) hc

theorem propagate_told (m : Manager V) : Told src m (m.propagate env) := by
  have h₁ : Told src m { m with sendPublisherInformationTo :=
      m.publishersForTag.keys.foldl (fun w tag => w.erase tag) m.sendPublisherInformationTo } :=
    of_search m.publishersForTag _ fun _ _ h => .inl h
  unfold Manager.propagate
  refine h₁.trans (sendAll_told _ _) fun tag info h => ?_
  rw [InCache, (Manager.sendAll_eq _ _).1]
  exact h

/-! ## Requests -/

theorem inCache_markInCache {ignoreCache : Bool} {tags : List TagID} {tag : TagID} {info : PublisherInfo}
    (h : InCache (m.markInCache ignoreCache tags) tag info) : InCache m tag info := by
  unfold Manager.markInCache at h
  obtain ⟨infos, hl, hi⟩ := h
  dsimp only at hl
  suffices hs : ∀ known : AList fun _ : TagID => List PublisherInfo,
      (tags.foldl (fun known tag =>
          known.insert tag (if ignoreCache then [] else (known.lookup tag).getD [])) known).lookup tag =
        some infos → ∃ infos', known.lookup tag = some infos' ∧ info ∈ infos' by
    exact hs _ hl
  clear hl
  intro known hl
  induction tags generalizing known with
  | nil => exact ⟨infos, hl, hi⟩
  | cons t tags ih =>
    obtain ⟨infos', hl', hi'⟩ := ih _ hl
    by_cases ht : tag = t
    · subst ht
      rw [AList.lookup_insert] at hl'
      obtain rfl := Option.some.inj hl'
      split at hi'
      · cases hi'
      · cases hk : known.lookup tag with
        | none =>
          rw [hk] at hi'
          cases hi'
        | some l =>
          rw [hk] at hi'
          exact ⟨l, rfl, hi'⟩
    · rw [AList.lookup_insert_ne ht] at hl'
      exact ⟨infos', hl', hi'⟩

theorem handleGetPublishers_told (sender : ExternalManager V) (tags : List TagID) (publishersNeeded : List UInt8)
    (ignoreCache : Bool) (m : Manager V) :
    (m.handleGetPublishers env sender tags publishersNeeded ignoreCache).Ends (Told src m) fun _ => True := by
  unfold Manager.handleGetPublishers
  refine .bind (.any _) fun remaining _ => ?_
  have hc : Told src m (m.markInCache ignoreCache (remaining.map (·.1))) :=
    of_search _ m.sendPublisherInformationTo fun _ _ h => .inl (inCache_markInCache h)
  have hp : Told src m ((m.markInCache ignoreCache (remaining.map (·.1))).markPropagation sender.id
      (remaining.map (·.1))) := hc.trans (of_search _ _ fun _ _ h => .inl h) fun _ _ h => h
  dsimp only
  split
  · exact sendKnownPublishers_told m _
  split
  · exact hc.trans (sendKnownPublishers_told _ _) fun _ _ h => h
  split
  · refine (hp.trans (sendKnownPublishers_told _ sender.id) fun _ _ h => h).trans
      (of_search _ _ fun _ _ h => .inl h) fun _ _ h => h
  · refine hp.trans (.of_calm (Manager.mapNeighbors_calm fun e => ?_)) fun _ _ h => h
    split
    · exact (ExternalManager.resetBackoffCounter_unreported env e).trans
        (ExternalManager.findPublishersForTags_unreported env _ _ _)
    · exact .refl e

/-! ## Reports -/

/-- `unordered_set::emplace` of every element. -/
theorem mem_emplaceAll {infos known : List PublisherInfo} {info : PublisherInfo} :
    info ∈ infos.foldl (fun known info => if info ∈ known then known else known ++ [info]) known ↔
      info ∈ known ∨ info ∈ infos := by
  induction infos generalizing known with
  | nil => simp
  | cons a infos ih =>
    rw [List.foldl_cons, ih, List.mem_cons, ← or_assoc]
    apply or_congr_left
    split
    · rename_i ha
      exact ⟨.inl, fun h => h.elim (fun h => h) fun h => h ▸ ha⟩
    · rw [List.mem_append, List.mem_singleton]

theorem inCache_addPublishers {infos : List PublisherInfo} {tag tag' : TagID} {info : PublisherInfo} :
    InCache (m.addPublishers infos tag) tag' info ↔ InCache m tag' info ∨ tag' = tag ∧ info ∈ infos := by
  unfold InCache Manager.addPublishers
  by_cases ht : tag' = tag
  · subst ht
    simp only [AList.lookup_insert, Option.some.injEq, exists_eq_left', mem_emplaceAll, true_and]
    apply or_congr_left
    cases m.publishersForTag.lookup tag' <;> simp
  · simp only [AList.lookup_insert_ne ht, ht, false_and, or_false]

theorem addPublishers_told {infos : List PublisherInfo} {tag : TagID} (h : ∀ info ∈ infos, src tag info)
    (m : Manager V) : Told src m (m.addPublishers infos tag) :=
  of_search _ m.sendPublisherInformationTo fun _ info hi =>
    (inCache_addPublishers.mp hi).imp_right fun ⟨ht, hi⟩ => ht ▸ h info hi

theorem addSender_inCache (info : TagID → PublisherInfo) (l : List TagID) {tag : TagID} {info' : PublisherInfo}
    (h : InCache m tag info') : InCache (l.foldl (fun m tag => m.addPublishers [info tag] tag) m) tag info' := by
  induction l generalizing m with
  | nil => exact h
  | cons t l ih => exact ih (inCache_addPublishers.mpr (.inl h))

/-- The sender of a report, under each tag it produces. -/
theorem addSender_told {info : TagID → PublisherInfo} {l : List TagID} (h : ∀ tag ∈ l, src tag (info tag))
    (m : Manager V) : Told src m (l.foldl (fun m tag => m.addPublishers [info tag] tag) m) := by
  induction l generalizing m with
  | nil => exact .of_calm (.refl m)
  | cons tag l ih =>
    obtain ⟨ht, hl⟩ := List.forall_mem_cons.mp h
    have h₁ : Told src m (m.addPublishers [info tag] tag) :=
      addPublishers_told (fun i hi => List.mem_singleton.mp hi ▸ ht) m
    exact h₁.trans (ih hl _) fun _ _ => addSender_inCache info l

/-- Whom a message from `sender` makes known. -/
def Source (env : Env) (sender : ExternalManager V) (msg : Message V) (tag : TagID) (info : PublisherInfo) : Prop :=
  Listed msg tag info ∨ tag ∈ producedTags msg ∧ info = ⟨sender.address env (.publisher tag), sender.id⟩

theorem addPublishersAndPropagate_told (sender : ExternalManager V) (tags : List TagID) (addresses : List (List Str))
    (machines : List (List MachineID)) (locallyProducedTags : List TagID) (m : Manager V) :
    (m.addPublishersAndPropagate env sender tags addresses machines locallyProducedTags).Ends
      (fun r => Told (Source env sender (.reportPublishers tags addresses machines locallyProducedTags)) m r.1)
      fun _ => True := by
  generalize hsrc : Source env sender (.reportPublishers tags addresses machines locallyProducedTags) = src
  unfold Manager.addPublishersAndPropagate
  split
  · exact Told.of_calm (.refl m)
  refine .bind (P := Told src m) ?_ fun m₁ h₁ => ?_
  · refine .foldlM (I := fun _ => Told src m) (.of_calm (.refl m)) fun entry rest m₁ he h₁ => ?_
    unfold Manager.addReported
    split
    · trivial
    · refine h₁.trans (addPublishers_told (fun info hi => ?_) m₁) fun _ _ h => inCache_addPublishers.mpr (.inl h)
      obtain ⟨p, hp, rfl⟩ := List.mem_map.mp hi
      exact hsrc ▸ .inl ⟨entry.2.1, entry.2.2, he, hp⟩
  · have h₂ : Told src m₁ (locallyProducedTags.foldl
        (fun m tag => m.addPublishers [⟨sender.address env (.publisher tag), sender.id⟩] tag) m₁) :=
      addSender_told (fun tag ht => hsrc ▸ .inr ⟨ht, rfl⟩) m₁
    have h₃ := h₁.trans h₂ fun _ _ => addSender_inCache _ _
    refine Except.Ends.pure (h₃.trans (propagate_told _) fun tag info h => ?_)
    unfold Manager.propagate
    rw [InCache, (Manager.sendAll_eq _ _).1]
    exact h

/-! ## Steps -/

/-- A greeting adds a connection to a record, or a record. -/
theorem greet_told (hm : Proper m) (sender : MachineID) (neighbors : List MachineID) (port : UInt16) (ip : Str) :
    Told src m (m.greet env sender neighbors port ip).2 := by
  unfold Manager.greet
  cases he : m.neighbors.lookup sender with
  | some e₀ =>
    have hl (key : MachineID) := Manager.lookup_atNeighbor (ExternalManager.addCommunicator ip) sender key m
    refine ⟨fun _ => ⟨fun key e' h => ?_, fun key e' h => ?_⟩, fun _ h => h, ?_, fun _ _ h => .inl h, ?_⟩
    · rw [hl] at h
      obtain ⟨e, hk, rfl⟩ := Option.map_eq_some_iff.mp h
      have hid := hm.keyed key e hk
      split <;> exact hid
    · rw [hl] at h
      obtain ⟨e, hk, rfl⟩ := Option.map_eq_some_iff.mp h
      have hc := hm.conns key e hk
      split
      · exact List.append_ne_nil_of_left_ne_nil hc _
      · exact hc
    · rintro id a ⟨e, ⟨key, hk⟩ | hrem, hi, ha⟩
      · have hnew := (hl key).trans (congrArg _ hk)
        refine ⟨_, .inl ⟨key, hnew⟩, ?_, ?_⟩
        · split <;> exact hi
        · split
          · have hc := hm.conns key e hk
            rw [← ha]
            obtain ⟨c, cs, hcs⟩ := List.exists_cons_of_ne_nil hc
            simp [ExternalManager.peer, ExternalManager.addCommunicator, hcs]
          · exact ha
      · exact ⟨e, .inr hrem, hi, ha⟩
    · rintro e' (⟨key, hk⟩ | hrem) msg hmsg
      · rw [hl] at hk
        obtain ⟨e, h, rfl⟩ := Option.map_eq_some_iff.mp hk
        refine .inl ⟨e, .inl ⟨key, h⟩, ?_⟩
        split at hmsg <;> exact hmsg
      · exact .inl ⟨e', .inr hrem, hmsg⟩
  | none =>
    have hid : (ExternalManager.create (V := V) env m.nextPtr ip sender neighbors port).id = sender := rfl
    refine ⟨fun _ => ⟨fun key e' h => hm.keyed.insert hid h, fun key e' h => ?_⟩, fun _ h => h, ?_,
      fun _ _ h => .inl h, ?_⟩
    · by_cases hk : key = sender
      · subst hk
        rw [AList.lookup_insert] at h
        obtain rfl := Option.some.inj h
        exact List.cons_ne_nil _ _
      · rw [AList.lookup_insert_ne hk] at h
        exact hm.conns key e' h
    · rintro id a ⟨e, ⟨key, hk⟩ | hrem, hi, ha⟩
      · refine ⟨e, .inl ⟨key, ?_⟩, hi, ha⟩
        have hne : key ≠ sender := fun h => by
          rw [h, he] at hk
          cases hk
        exact (AList.lookup_insert_ne hne).trans hk
      · exact ⟨e, .inr hrem, hi, ha⟩
    · rintro e' (⟨key, hk⟩ | hrem) msg hmsg
      · by_cases hks : key = sender
        · subst hks
          rw [AList.lookup_insert] at hk
          obtain rfl := Option.some.inj hk
          cases hmsg
        · rw [AList.lookup_insert_ne hks] at hk
          exact .inl ⟨e', .inl ⟨key, hk⟩, hmsg⟩
      · exact .inl ⟨e', .inr hrem, hmsg⟩

theorem removeNeighbor_told (hm : Proper m) (id : MachineID) :
    (m.removeNeighbor env id).Ends (fun r => Told src m r.1) fun _ => True := by
  refine (Manager.removeNeighbor_cases id m).mono (fun r h => ?_) fun _ he => he
  rcases h with h | ⟨e, m₁, he, -, h₁, h₂⟩
  · exact .of_calm h
  · have ht₁ : Told src m m₁ := .of_calm h₁
    have hgone : Told src m { m₁ with neighbors := m₁.neighbors.erase id, removed := m₁.removed ++ [e] } := by
      refine ⟨fun _ => ?_, h₁.selfSubCount, ?_, fun tag info hi => .inl ?_, ?_⟩
      · obtain ⟨hkeyed, hconns⟩ := ht₁.proper hm
        refine ⟨fun key e' h => hkeyed.erase id h, fun key e' h => ?_⟩
        by_cases hk : key = id
        · subst hk
          rw [AList.lookup_erase] at h
          cases h
        · rw [AList.lookup_erase_ne hk] at h
          exact hconns key e' h
      · intro key a hr
        obtain ⟨e', ⟨k, hk⟩ | hrem, hi, ha⟩ := ht₁.reached key a hr
        · by_cases hkid : k = id
          · -- the record that leaves is the one that is listed as removed
            subst hkid
            obtain ⟨e₀, he₀, hR⟩ := h₁.neighbors.of_lookup hk
            rw [he] at he₀
            obtain rfl := Option.some.inj he₀
            refine ⟨e, .inr (List.mem_append_right _ (List.mem_singleton_self e)), hR.id.symm.trans hi, ?_⟩
            rw [← ha, hR.peer]
          · exact ⟨e', .inl ⟨k, (AList.lookup_erase_ne hkid).trans hk⟩, hi, ha⟩
        · exact ⟨e', .inr (List.mem_append_left _ hrem), hi, ha⟩
      · rw [InCache, ← h₁.publishersForTag]
        exact hi
      · rintro e' (⟨key, hk⟩ | hrem) msg hmsg
        · by_cases hkid : key = id
          · subst hkid
            rw [AList.lookup_erase] at hk
            cases hk
          · rw [AList.lookup_erase_ne hkid] at hk
            refine (ht₁.sent e' (.inl ⟨key, hk⟩) msg hmsg).imp_right fun h => ?_
            exact ⟨h.listed, h.produced⟩
        · rcases List.mem_append.mp hrem with hrem | hrem
          · exact .inl ⟨e', .inr (h₁.removed ▸ hrem), hmsg⟩
          · obtain rfl := List.mem_singleton.mp hrem
            exact .inl ⟨e', .inl ⟨id, he⟩, hmsg⟩
    refine hgone.trans (.of_calm h₂) fun tag info h => ?_
    rw [InCache, h₂.publishersForTag]
    exact h

theorem handleMessage_told [Typed V] (sender : ExternalManager V) (msg : Message V) (m : Manager V) :
    (m.handleMessage env sender msg).Ends (fun r => Told (Source env sender msg) m r.2) fun _ => True := by
  by_cases hr : msg.isReport = false
  · by_cases hg : ∀ tags needed ignore, msg ≠ .getPublishers tags needed ignore
    · exact (Manager.handleMessage_calm env sender hr hg m).mono (fun _ h => .of_calm h) fun _ he => he
    · push Not at hg
      obtain ⟨tags, needed, ignore, rfl⟩ := hg
      unfold Manager.handleMessage
      dsimp only
      split
      · exact Told.of_calm (.refl m)
      · exact .bind (handleGetPublishers_told sender tags needed ignore m) fun _ h => h
  · cases msg with
    | reportPublishers tags addresses machines locallyProducedTags =>
      unfold Manager.handleMessage
      dsimp only
      split
      · exact Told.of_calm (.refl m)
      · refine .bind (addPublishersAndPropagate_told sender tags addresses machines locallyProducedTags m)
          fun r h => ?_
        split
        · exact h
        · have ha : Told (Source env sender (.reportPublishers tags addresses machines locallyProducedTags)) r.1
              (r.1.atNeighbor sender.id (·.requestAnswered env)) :=
            atNeighbor_told (f := fun e => e.requestAnswered env) (fun e => ⟨rfl, rfl, rfl, rfl⟩) sender.id
          exact h.trans ha fun _ _ h => h
    | _ => exact absurd rfl hr

/-- What a step other than a message makes known: nothing. -/
theorem act_told [Typed V] (hm : Proper m) {l : Label V} {pc : Pc} (he : l.enabled pc m = true)
    (hl : ∀ msg env, l ≠ .message msg env) : (act l pc m).Ends (fun r => Told src m r.2) fun _ => True := by
  cases hcalm : l.calm pc with
  | true => exact (act_calm hcalm).mono (fun _ h => .of_calm h) fun _ he => he
  | false =>
    rcases Label.special_cases he hcalm with ⟨msg, env, -, -, rfl, -⟩ | ⟨env, id, todo, new, rfl, rfl⟩ |
      ⟨env, id, todo, rfl, rfl⟩ | ⟨env, key, todo, new, sender, neighbors, port, ip, info, rfl, rfl, hi⟩
    · exact absurd rfl (hl msg env)
    · have hr : (m.removeNeighbor env id).Ends (fun r => Told src m r.1) fun _ => True := removeNeighbor_told hm id
      exact .bind hr fun r hr => hr
    · refine .bind (Manager.initConnections_calm m) fun m₁ h₁ => ?_
      have ha : Told src m₁ (m₁.atNeighbor id (·.requestAnswered env)) :=
        atNeighbor_told (f := fun e => e.requestAnswered env) (fun e => ⟨rfl, rfl, rfl, rfl⟩) id
      exact (Told.of_calm h₁).trans ha fun _ _ h => h
    · unfold act
      dsimp only
      rw [hi]
      have hg : (m.handleGreeting env key info sender neighbors port ip).Ends (Told src m) fun _ => True := by
        refine (Manager.handleGreeting_calm key info sender neighbors port ip m).mono (fun m' h => ?_) fun _ he => he
        refine (greet_told hm sender neighbors port ip).trans (.of_calm h) fun tag info h' => ?_
        rw [InCache, h.publishersForTag]
        exact h'
      have hp : (m.processConn env key info (.message (.greeting sender neighbors port) ip)).Ends
          (fun r => Told src m r.1) fun _ => True := .bind hg fun m' h' => h'
      refine .bind hp fun r hr => ?_
      exact hr

/-- The kernel names the peer of the neighbour when that is recorded as a
publisher. -/
def Named (env : Env) (m : Manager V) (id : MachineID) (tag : TagID) : Prop :=
  ∀ e, m.neighbors.lookup id = some e → env.unnamedPeer e.ptr (.publisher tag) = none

/-- What a message from a neighbour makes known. -/
theorem handleNext_told [Typed V] (hm : Proper m) {id : MachineID} {todo : List MachineID} {msg : Message V} :
    (handleNext env id todo msg m).Ends
      (fun r => Told (fun tag info => Listed msg tag info ∨
        tag ∈ producedTags msg ∧ info.machineId = id ∧ (Named env m id tag → Reached r.2 id info.address)) m r.2)
      fun _ => True := by
  have hh (src : TagID → PublisherInfo → Prop) : Told src m (m.atNeighbor id (·.hear env msg)) :=
    atNeighbor_told (f := fun e => e.hear env msg) (fun e => ⟨rfl, rfl, rfl, rfl⟩) id
  have hq : ∀ e', Record (m.atNeighbor id (·.hear env msg)) e' → ∃ e, Record m e ∧ e'.sent = e.sent := by
    intro e' hor
    rcases hor with ⟨key, hk⟩ | hrem
    · obtain ⟨e, he, rfl⟩ := Manager.of_lookup_atNeighbor hk
      refine ⟨e, .inl ⟨key, he⟩, ?_⟩
      split <;> rfl
    · exact ⟨e', .inr hrem, rfl⟩
  unfold handleNext
  dsimp only
  split
  · trivial
  · rename_i sender hsender
    have hid : sender.id = id := ((hh (fun _ _ => True)).proper hm).keyed id sender hsender
    refine .bind (handleMessage_told sender msg _) fun r hr => ?_
    have hreached (tag : TagID) (hn : Named env m id tag) :
        Reached r.2 id (sender.address env (.publisher tag)) := by
      refine hr.reached _ _ ⟨sender, .inl ⟨id, hsender⟩, hid, ?_⟩
      obtain ⟨e, he, hs⟩ := Manager.of_lookup_atNeighbor hsender
      have hptr : sender.ptr = e.ptr := by
        rw [hs]
        split <;> rfl
      rw [ExternalManager.address, ExternalManager.ipAddress_of_named (hptr ▸ hn e he)]
      rfl
    have hsrc : Told (fun tag info => Listed msg tag info ∨
        tag ∈ producedTags msg ∧ info.machineId = id ∧ (Named env m id tag → Reached r.2 id info.address)) m r.2 := by
      refine ((hh _).trans_of_silent hq hr).mono fun tag info h => h.imp_right ?_
      intro hex
      obtain ⟨ht, rfl⟩ := hex
      exact ⟨ht, hid, hreached tag⟩
    split
    · exact hsrc
    · have hd (src : TagID → PublisherInfo → Prop) : Told src r.2 (r.2.atNeighbor id ExternalManager.markAsDead) :=
        atNeighbor_told (f := ExternalManager.markAsDead) (fun e => ⟨rfl, rfl, rfl, rfl⟩) id
      refine (hsrc.trans (hd _) fun _ _ h => h).mono fun tag info h => h.imp_right ?_
      exact fun ⟨ht, hi, hr'⟩ => ⟨ht, hi, fun hn => (hd fun _ _ => True).reached _ _ (hr' hn)⟩
    · exact hsrc

end Manager

/-! ## The network -/

/-- A manager, and why its program stopped. -/
structure Node (V : Type) where
  pc : Pc
  manager : Manager V
  stopped : Option Abort

/-- The manager of every machine, and who first recorded a publisher. -/
structure Net (V : Type) where
  nodes : MachineID → Node V
  recorder : TagID → PublisherInfo → Option MachineID

inductive Lbl (V : Type)
  /-- a step of a machine that handles no message -/
  | act (i : MachineID) (l : Label V)
  /-- the machine handles one of the messages it was sent by the neighbour it
  reads from -/
  | deliver (i : MachineID) (k : Nat) (env : Env)

/-- All messages that were ever sent to a machine. -/
def messagesTo (m : Manager V) (id : MachineID) : List (Message V) :=
  ((m.neighbors.entries.map (·.2) ++ m.removed).filter (·.id = id)).flatMap (·.sent)

def Label.isMessage : Label V → Bool
  | .message _ _ => true
  | _ => false

def knows (m : Manager V) (tag : TagID) (info : PublisherInfo) : Bool :=
  (m.publishersForTag.lookup tag).any (info ∈ ·)

variable [Typed V]

def Node.step (n : Node V) (l : Label V) : Option (Node V) :=
  if n.stopped.isNone && l.enabled n.pc n.manager then
    some (match act l n.pc n.manager with
      | .ok (pc, m) => { n with pc := pc, manager := m }
      | .error a => { n with stopped := some a })
  else none

omit [Typed V] in
/-- The machine is `n` now, and has recorded what it is the first to know. -/
def Net.become (s : Net V) (i : MachineID) (n : Node V) : Net V where
  nodes := Function.update s.nodes i n
  recorder tag info := (s.recorder tag info).orElse fun _ => if knows n.manager tag info then some i else none

def step (s : Net V) : Lbl V → Option (Net V)
  | .act i l => if Label.isMessage l then none else ((s.nodes i).step l).map (s.become i)
  | .deliver i k env =>
    match (s.nodes i).pc with
    | .messages (some j) _ => (messagesTo (s.nodes j).manager i)[k]?.bind fun msg =>
        ((s.nodes i).step (.message msg env)).map (s.become i)
    | _ => none

omit [Typed V] in
/-- Every machine has a manager of its own id that was just built. -/
def Initial (s : Net V) : Prop :=
  (∀ i, ∃ port interval jobs, s.nodes i = ⟨.idle, { Manager.create port i interval with jobs := jobs }, none⟩) ∧
    ∀ tag info, s.recorder tag info = none

def lts (V : Type) [Typed V] : LTS (Net V) (Lbl V) := LTS.ofFn Initial step

omit [Typed V] in
/-- The machine produces the tag. -/
def Produced (s : Net V) (tag : TagID) (info : PublisherInfo) : Prop :=
  tag ∈ (s.nodes info.machineId).manager.selfSubCount

omit [Typed V] in
/-- Whoever recorded the machine first reached it there. -/
def FirstReached (s : Net V) (tag : TagID) (info : PublisherInfo) : Prop :=
  ∃ w, s.recorder tag info = some w ∧ Reached (s.nodes w).manager info.machineId info.address

omit [Typed V] in
/-- Of every publisher in a cache, and in a report that was ever sent. -/
structure Everywhere (s : Net V) (P : TagID → PublisherInfo → Prop) : Prop where
  cache : ∀ i tag info, InCache (s.nodes i).manager tag info → P tag info
  listed : ∀ i e, Record (s.nodes i).manager e → ∀ msg ∈ e.sent, ∀ tag info, Listed msg tag info → P tag info

/-- The kernel names the peer whose address is recorded: that of a neighbour
whose report says what it produces. -/
def peerNamed (s : Net V) : Lbl V → Bool
  | .act _ _ => true
  | .deliver i k env =>
    match (s.nodes i).pc with
    | .messages (some j) _ =>
      (messagesTo (s.nodes j).manager i)[k]?.all fun msg => (producedTags msg).all fun tag =>
        ((s.nodes i).manager.neighbors.lookup j).all fun e => (env.unnamedPeer e.ptr (.publisher tag)).isNone
    | _ => true

omit [Typed V] in
/-- `named`: the peer was named whenever an address was recorded. -/
def NotInvented (named : Prop) (s : Net V) (tag : TagID) (info : PublisherInfo) : Prop :=
  Produced s tag info ∧ (named → FirstReached s tag info)

omit [Typed V] in
structure Inv (named : Prop) (s : Net V) : Prop where
  proper : ∀ i, Proper (s.nodes i).manager
  everywhere : Everywhere s (NotInvented named s)
  produced : ∀ i e, Record (s.nodes i).manager e → ∀ msg ∈ e.sent, ∀ tag ∈ producedTags msg,
    tag ∈ (s.nodes i).manager.selfSubCount
  recorder : ∀ tag info w, s.recorder tag info = some w → NotInvented named s tag info

omit [Typed V] in
theorem recorder_become {s : Net V} {i w : MachineID} {n : Node V} {tag : TagID} {info : PublisherInfo} :
    (s.become i n).recorder tag info = some w ↔
      s.recorder tag info = some w ∨ s.recorder tag info = none ∧ InCache n.manager tag info ∧ i = w := by
  have hk : knows n.manager tag info = true ↔ InCache n.manager tag info := by
    simp [knows, InCache, Option.any_eq_true]
  show (s.recorder tag info).orElse _ = some w ↔ _
  cases s.recorder tag info with
  | some v => simp
  | none => simp [← hk]

omit [Typed V] in
theorem mem_messagesTo {m : Manager V} {id : MachineID} {msg : Message V} (h : msg ∈ messagesTo m id) :
    ∃ e, Record m e ∧ msg ∈ e.sent := by
  obtain ⟨e, he, hm⟩ := List.mem_flatMap.mp h
  refine ⟨e, ?_, hm⟩
  rcases List.mem_append.mp (List.mem_filter.mp he).1 with h | h
  · obtain ⟨⟨key, e'⟩, hk, rfl⟩ := List.mem_map.mp h
    exact .inl ⟨key, AList.mem_entries_iff.mp hk⟩
  · exact .inr h

theorem node_step {n n' : Node V} {l : Label V} (h : n.step l = some n') :
    l.enabled n.pc n.manager = true ∧
      (n'.manager = n.manager ∨ act l n.pc n.manager = .ok (n'.pc, n'.manager)) := by
  unfold Node.step at h
  split at h
  · rename_i he
    refine ⟨(Bool.and_eq_true_iff.mp he).2, ?_⟩
    cases ha : act l n.pc n.manager with
    | ok r =>
      rw [ha] at h
      cases h
      exact .inr rfl
    | error a =>
      rw [ha] at h
      cases h
      exact .inl rfl
  · cases h

section Step

variable {s : Net V} {i : MachineID} {n : Node V}

omit [Typed V] in
theorem Produced.become {tag : TagID} {info : PublisherInfo} (h : Produced s tag info)
    {src : TagID → PublisherInfo → Prop} (ht : Told src (s.nodes i).manager n.manager) :
    Produced (s.become i n) tag info := by
  show tag ∈ (Function.update s.nodes i n info.machineId).manager.selfSubCount
  by_cases hi : info.machineId = i
  · rw [Produced, hi] at h
    rw [hi, Function.update_self]
    exact ht.selfSubCount tag h
  · rwa [Function.update_of_ne hi]

omit [Typed V] in
theorem FirstReached.become {tag : TagID} {info : PublisherInfo} (h : FirstReached s tag info)
    {src : TagID → PublisherInfo → Prop} (ht : Told src (s.nodes i).manager n.manager) :
    FirstReached (s.become i n) tag info := by
  obtain ⟨w, hw, hr⟩ := h
  refine ⟨w, recorder_become.mpr (.inl hw), ?_⟩
  show Reached (Function.update s.nodes i n w).manager info.machineId info.address
  by_cases hi : w = i
  · subst hi
    rw [Function.update_self]
    exact ht.reached _ _ hr
  · rwa [Function.update_of_ne hi]

omit [Typed V] in
theorem NotInvented.become {named : Prop} {tag : TagID} {info : PublisherInfo} (h : NotInvented named s tag info)
    {src : TagID → PublisherInfo → Prop} (ht : Told src (s.nodes i).manager n.manager) :
    NotInvented named (s.become i n) tag info :=
  ⟨h.1.become ht, fun hn => (h.2 hn).become ht⟩

omit [Typed V] in
/-- A machine takes a step that makes known what is produced elsewhere and
what it can reach. -/
theorem Inv.become {named : Prop} (h : Inv named s) {src : TagID → PublisherInfo → Prop}
    (ht : Told src (s.nodes i).manager n.manager)
    (hsrc : ∀ tag info, src tag info → NotInvented named s tag info ∨
      Produced s tag info ∧ (named → Reached n.manager info.machineId info.address)) :
    Inv named (s.become i n) := by
  have hcache (tag : TagID) (info : PublisherInfo) (hi : InCache n.manager tag info) :
      NotInvented named (s.become i n) tag info := by
    have hnew : NotInvented named s tag info ∨
        Produced s tag info ∧ (named → Reached n.manager info.machineId info.address) :=
      (ht.cache tag info hi).elim (fun h₀ => .inl (h.everywhere.cache i tag info h₀)) (hsrc tag info)
    rcases hnew with hk | ⟨hs, hr⟩
    · exact hk.become ht
    cases hrec : s.recorder tag info with
    | some w => exact (h.recorder tag info w hrec).become ht
    | none =>
      refine ⟨hs.become ht, fun hn => ⟨i, recorder_become.mpr (.inr ⟨hrec, hi, rfl⟩), ?_⟩⟩
      show Reached (Function.update s.nodes i n i).manager info.machineId info.address
      rw [Function.update_self]
      exact hr hn
  refine ⟨fun k => ?_, ⟨fun k tag info hi => ?_, fun k e he msg hmsg tag info hl => ?_⟩,
    fun k e he msg hmsg tag ht' => ?_, fun tag info w hw => ?_⟩
  · show Proper (Function.update s.nodes i n k).manager
    by_cases hk : k = i
    · subst hk
      rw [Function.update_self]
      exact ht.proper (h.proper k)
    · rw [Function.update_of_ne hk]
      exact h.proper k
  · change InCache (Function.update s.nodes i n k).manager tag info at hi
    by_cases hk : k = i
    · subst hk
      rw [Function.update_self] at hi
      exact hcache tag info hi
    · rw [Function.update_of_ne hk] at hi
      exact (h.everywhere.cache k tag info hi).become ht
  · change Record (Function.update s.nodes i n k).manager e at he
    by_cases hk : k = i
    · subst hk
      rw [Function.update_self] at he
      rcases ht.sent e he msg hmsg with ⟨e₀, he₀, hm⟩ | hr
      · exact (h.everywhere.listed k e₀ he₀ msg hm tag info hl).become ht
      · exact hcache tag info (hr.listed tag info hl)
    · rw [Function.update_of_ne hk] at he
      exact (h.everywhere.listed k e he msg hmsg tag info hl).become ht
  · change Record (Function.update s.nodes i n k).manager e at he
    show tag ∈ (Function.update s.nodes i n k).manager.selfSubCount
    by_cases hk : k = i
    · subst hk
      rw [Function.update_self] at he ⊢
      rcases ht.sent e he msg hmsg with ⟨e₀, he₀, hm⟩ | hr
      · exact ht.selfSubCount tag (h.produced k e₀ he₀ msg hm tag ht')
      · exact hr.produced tag ht'
    · rw [Function.update_of_ne hk] at he ⊢
      exact h.produced k e he msg hmsg tag ht'
  · rcases recorder_become.mp hw with hw | ⟨-, hi, -⟩
    · exact (h.recorder tag info w hw).become ht
    · exact hcache tag info hi

theorem inv_step {named : Prop} {t : Net V} {l : Lbl V} (h : Inv named s) (hpeer : named → peerNamed s l = true)
    (hst : step s l = some t) : Inv named t := by
  cases l with
  | act i l =>
    unfold step at hst
    dsimp only at hst
    split at hst
    · cases hst
    · rename_i hl
      obtain ⟨n, hn, rfl⟩ := Option.map_eq_some_iff.mp hst
      obtain ⟨he, hact⟩ := node_step hn
      have ht : Told (fun _ _ => False) (s.nodes i).manager n.manager := by
        rcases hact with hm | hact
        · rw [hm]
          exact .of_calm (.refl _)
        · refine (act_told (h.proper i) he fun msg env hmsg => ?_).of_ok hact
          rw [hmsg] at hl
          exact hl rfl
      exact h.become ht fun _ _ h => h.elim
  | deliver i k env =>
    unfold step at hst
    dsimp only at hst
    split at hst
    · rename_i j todo hpc
      obtain ⟨msg, hmsg, hst⟩ := Option.bind_eq_some_iff.mp hst
      obtain ⟨n, hn, rfl⟩ := Option.map_eq_some_iff.mp hst
      obtain ⟨e, he, hm⟩ := mem_messagesTo (List.mem_of_getElem? hmsg)
      obtain ⟨-, hact⟩ := node_step hn
      rcases hact with hm' | hact
      · have ht : Told (fun _ _ => False) (s.nodes i).manager n.manager := by
          rw [hm']
          exact .of_calm (.refl _)
        exact h.become ht fun _ _ h => h.elim
      · rw [hpc] at hact
        have ht := (handleNext_told (h.proper i)).of_ok hact
        refine h.become ht fun tag info hsrc => ?_
        rcases hsrc with hl | ⟨hp, hid, hr⟩
        · exact .inl (h.everywhere.listed j e he msg hm tag info hl)
        · refine .inr ⟨?_, fun hn => hid ▸ hr fun e he => ?_⟩
          · rw [Produced, hid]
            exact h.produced j e he msg hm tag hp
          · have hc := hpeer hn
            unfold peerNamed at hc
            simp only [hpc, hmsg, he, Option.all_some, List.all_eq_true, Option.isNone_iff_eq_none] at hc
            exact hc tag hp
    · cases hst

end Step

theorem inv_inductive {named : Prop} {C : Net V → Lbl V → Prop} (hC : ∀ s l, C s l → named → peerNamed s l = true) :
    ((lts V).restrict C).Inductive (Inv named) where
  init := by
    intro s hex
    obtain ⟨hn, hr⟩ := hex
    have hm (i : MachineID) : ∃ port interval jobs,
        (s.nodes i).manager = { Manager.create port i interval with jobs := jobs } := by
      obtain ⟨port, interval, jobs, hi⟩ := hn i
      exact ⟨port, interval, jobs, by rw [hi]⟩
    have hno (i : MachineID) (e : ExternalManager V) : ¬ Record (s.nodes i).manager e := by
      obtain ⟨port, interval, jobs, hi⟩ := hm i
      rw [hi]
      rintro (⟨id, h⟩ | h) <;> cases h
    refine ⟨fun i => ⟨fun key e h => (hno i e (.inl ⟨key, h⟩)).elim, fun key e h => (hno i e (.inl ⟨key, h⟩)).elim⟩,
      ⟨fun i tag info h => ?_, fun i e he => (hno i e he).elim⟩, fun i e he => (hno i e he).elim,
      fun tag info w hw => ?_⟩
    · obtain ⟨port, interval, jobs, hi⟩ := hm i
      rw [hi] at h
      obtain ⟨infos, hl, -⟩ := h
      cases hl
    · rw [hr] at hw
      cases hw
  step s l _ h hst := inv_step h (hC s l hst.2) hst.1

/-- **Publishers are not invented.** In every state of every run of a network,
a publisher in a cache or in a report that was ever sent produces the tag, and
a report says of its own sender only what that produces. Where the kernel names
the peer at each recording, the address of a publisher is one at which the
manager that first recorded it reached it. -/
theorem publishers_not_invented {s : Net V} (h : (lts V).Reachable s) :
    Everywhere s (Produced s) ∧
      (∀ i e, Record (s.nodes i).manager e → ∀ msg ∈ e.sent, ∀ tag ∈ producedTags msg,
        tag ∈ (s.nodes i).manager.selfSubCount) ∧
      (((lts V).restrict fun s l => peerNamed s l = true).Reachable s → Everywhere s (FirstReached s)) := by
  have hs : Inv False s :=
    ((inv_inductive (C := fun _ _ => True) fun _ _ _ h => h.elim).of_restrict fun _ _ => trivial).reachable s h
  refine ⟨⟨fun i tag info hi => (hs.everywhere.cache i tag info hi).1,
    fun i e he msg hm tag info hl => (hs.everywhere.listed i e he msg hm tag info hl).1⟩, hs.produced, fun hnamed => ?_⟩
  have hs : Inv True s := (inv_inductive fun _ _ h _ => h).reachable s hnamed
  exact ⟨fun i tag info hi => (hs.everywhere.cache i tag info hi).2 trivial,
    fun i e he msg hm tag info hl => (hs.everywhere.listed i e he msg hm tag info hl).2 trivial⟩

/-- Machines that have just started. -/
def quietNet : Net Nat where
  nodes i := ⟨.idle, Manager.create 1 i 5000, none⟩
  recorder _ _ := none

/-- `i` connects to `j` and is about to read from it. -/
def connects (i j : MachineID) : List (Lbl Nat) :=
  [.act i (.connectToServer (j, 1) quietEnv),
    .act i (.beginPass quietEnv), .act i (.conn (.connected .noError) quietEnv), .act i (.endConns quietEnv),
    .act i (.endAccept quietEnv), .act i (.endMessages quietEnv), .act i (.endPass quietEnv),
    .act i (.beginPass quietEnv), .act i (.conn (.message (.greeting j [] 1) j) quietEnv),
    .act i (.endConns quietEnv), .act i (.endAccept quietEnv), .act i .nextNeighbor]

/-- A subscriber asks the publisher and is answered; the answer is read in
`env`. -/
def asked (env : Env) : List (Lbl Nat) :=
  [.act ['b'] (.reportNewPublishTags [['p']]), .act ['a'] (.subscribe [['p']] quietEnv)] ++
    connects ['a'] ['b'] ++ connects ['b'] ['a'] ++ [.deliver ['b'] 0 quietEnv, .deliver ['a'] 0 env]

theorem initial_quietNet : Initial quietNet := ⟨fun _ => ⟨1, 5000, ∅, rfl⟩, fun _ _ => rfl⟩

theorem publishers_not_invented_asked : ∃ s : Net Nat,
    InCache (s.nodes ['a']).manager ['p'] ⟨['b', ':', '1'], ['b']⟩ ∧
      Produced s ['p'] ⟨['b', ':', '1'], ['b']⟩ ∧ FirstReached s ['p'] ⟨['b', ':', '1'], ['b']⟩ := by
  obtain ⟨s, hx, hc⟩ : ∃ s, LTS.exec (LTS.guarded step fun s l => peerNamed s l = true) quietNet (asked quietEnv) =
      some s ∧ InCache (s.nodes ['a']).manager ['p'] ⟨['b', ':', '1'], ['b']⟩ :=
    ⟨_, rfl, _, rfl, List.mem_singleton_self _⟩
  have hnamed : ((lts Nat).restrict fun s l => peerNamed s l = true).Reachable s :=
    LTS.restrict_reachable_of_exec initial_quietNet hx
  obtain ⟨hproduced, -, hreached⟩ := publishers_not_invented hnamed.of_restrict
  exact ⟨s, hc, hproduced.cache _ _ _ hc, (hreached hnamed).cache _ _ _ hc⟩

/-- The publisher has reset the connection when its answer is read. -/
def resetEnv : Env := { quietEnv with unnamedPeer := fun _ _ => some ['0'] }

theorem address_invented : ∃ s : Net Nat, (lts Nat).Reachable s ∧
    InCache (s.nodes ['a']).manager ['p'] ⟨['0', ':', '1'], ['b']⟩ ∧
      ¬ FirstReached s ['p'] ⟨['0', ':', '1'], ['b']⟩ := by
  obtain ⟨s, e, hx, hc, hrec, hn, hgone, hpeer⟩ : ∃ (s : Net Nat) (e : ExternalManager Nat),
      LTS.exec step quietNet (asked resetEnv) = some s ∧
      InCache (s.nodes ['a']).manager ['p'] ⟨['0', ':', '1'], ['b']⟩ ∧
      s.recorder ['p'] ⟨['0', ':', '1'], ['b']⟩ = some ['a'] ∧
      (s.nodes ['a']).manager.neighbors.entries = [⟨['b'], e⟩] ∧ (s.nodes ['a']).manager.removed = [] ∧
      e.peer = (['b'], 1) := ⟨_, _, rfl, ⟨_, rfl, List.mem_singleton_self _⟩, rfl, rfl, rfl, rfl⟩
  refine ⟨s, LTS.reachable_of_exec initial_quietNet hx, hc, ?_⟩
  rintro ⟨w, hw, e', he', -, haddr⟩
  cases hrec.symm.trans hw
  rcases he' with ⟨id, he'⟩ | he'
  · have hmem := AList.mem_entries_iff.mpr he'
    rw [hn, List.mem_singleton] at hmem
    cases hmem
    rw [hpeer] at haddr
    exact absurd haddr (by decide)
  · rw [hgone] at he'
    cases he'

end Skywing.L5.Publishers
