import Skywing.Core.Ends
import Skywing.Core.ZipIter
import Skywing.L3Protocol.ManagerMessages

/-!
# Messages with parallel lists

A request for publishers has two lists side by side, a report three, and two
of these hold lists that are side by side again. The request is walked with an
iterator over both lists that only ends where both end
(`remove_tags_with_enough_publishers`, `skywing_core/manager.cpp`), the inner
lists of a report are compared by an assertion. Only the outer lists of a
report are looked at before they are used.

Results:
* `removeTagsWithEnoughPublishers_eq`: the walk over both lists is the
  filter of `Manager.removeTagsWithEnoughPublishers`.
* `handledSafely_iff`: which messages are handled safely.
* `not_handledSafely`: one tag and no number.
-/
namespace Skywing.L3

open L1.Text

namespace ParallelLists

variable {V : Type}

/-! ## The walk over both lists -/

/-- The predicate of `std::remove_if`.
mirrors skywing/skywing_core/manager.cpp:832-842 -/
def hasEnough (m : Manager V) (t : TagID × UInt8) : Bool :=
  let selfSubscribed := if t.1 ∈ m.selfSubCount then 1 else 0
  let numExternalPubs := ((m.publishersForTag.lookup t.1).getD []).length
  t.2.toNat ≤ numExternalPubs + selfSubscribed

/-- `none` is an access beyond the end of a list.
mirrors skywing/skywing_core/manager.cpp:822-847 -/
def removeTagsLoop (m : Manager V) (tags : List TagID) (publishersNeeded : List UInt8) :
    Option (List TagID × List UInt8) :=
  ZipIter.eraseIf (hasEnough m) tags publishersNeeded

/-- The tags that have fewer publishers than are needed, with the number. -/
def tagsLeft (m : Manager V) (tags : List TagID) (publishersNeeded : List UInt8) : List (TagID × UInt8) :=
  (tags.zip publishersNeeded).filter fun t =>
    ((m.publishersForTag.lookup t.1).getD []).length + (if t.1 ∈ m.selfSubCount then 1 else 0) < t.2.toNat

theorem not_hasEnough (m : Manager V) (t : TagID × UInt8) :
    (!hasEnough m t) =
      decide (((m.publishersForTag.lookup t.1).getD []).length +
        (if t.1 ∈ m.selfSubCount then 1 else 0) < t.2.toNat) := by
  rw [hasEnough, ← decide_not]
  simp only [Nat.not_le]

theorem removeTagsLoop_eq (m : Manager V) (tags : List TagID) (publishersNeeded : List UInt8) :
    removeTagsLoop m tags publishersNeeded =
      if tags.length = publishersNeeded.length then some (tagsLeft m tags publishersNeeded).unzip else none := by
  rw [removeTagsLoop, ZipIter.eraseIf_eq, tagsLeft]
  simp only [not_hasEnough]

/-- The walk over both lists ends with two lists of one length, which are
`Manager.removeTagsWithEnoughPublishers` side by side. -/
theorem removeTagsWithEnoughPublishers_eq (m : Manager V) (tags : List TagID) (publishersNeeded : List UInt8) :
    m.removeTagsWithEnoughPublishers tags publishersNeeded =
      match removeTagsLoop m tags publishersNeeded with
      | none => .error .outOfBounds
      | some left => .ok (left.1.zip left.2) := by
  rw [removeTagsLoop_eq, Manager.removeTagsWithEnoughPublishers]
  split
  · simp_all
  · rename_i hl
    rw [if_pos (not_not.mp hl)]
    simp only [List.zip_unzip, tagsLeft, ← not_hasEnough]
    rfl

/-! ## What is asked of a message -/

/-- The lists of a request have one length. -/
def RequestParallel (tags : List TagID) (publishersNeeded : List UInt8) : Prop :=
  tags.length = publishersNeeded.length

/-- The lists of a report have one length. -/
def OuterParallel (tags : List TagID) (addresses : List (List Str)) (machines : List (List MachineID)) : Prop :=
  tags.length = addresses.length ∧ tags.length = machines.length

/-- The lists at one place of a report have one length. -/
def InnerParallel (addresses : List (List Str)) (machines : List (List MachineID)) : Prop :=
  ∀ p ∈ addresses.zip machines, p.1.length = p.2.length

/-- The lists of a message that are side by side have one length. -/
def Parallel : Message V → Prop
  | .getPublishers tags publishersNeeded _ => RequestParallel tags publishersNeeded
  | .reportPublishers tags addresses machines _ =>
    OuterParallel tags addresses machines ∧ InnerParallel addresses machines
  | _ => True

/-- Nothing of the message is used: at most the request counts as answered. -/
def Refused (env : Env) (sender : ExternalManager V) (m m' : Manager V) : Prop :=
  (m' = m ∨ m' = m.atNeighbor sender.id (·.requestAnswered env)) ∧ m'.publishersForTag = m.publishersForTag

variable [Typed V]

/-- The message is handled to the end, and refused where its lists are not of
one length. -/
def HandledSafely (env : Env) (sender : ExternalManager V) (msg : Message V) (m : Manager V) : Prop :=
  ∃ taken m', m.handleMessage env sender msg = .ok (taken, m') ∧ (¬ Parallel msg → Refused env sender m m')

variable {env : Env} {m : Manager V}

/-- `C` decides whether the handler comes to its end. -/
theorem handledSafely_of_ends {sender : ExternalManager V} {msg : Message V} {C : Prop}
    (h : (m.handleMessage env sender msg).Ends
      (fun r => C ∧ (¬ Parallel msg → Refused env sender m r.2)) fun _ => ¬ C) :
    HandledSafely env sender msg m ↔ C := by
  constructor
  · intro hsafe
    obtain ⟨taken, m', hr, -⟩ := hsafe
    exact (h.of_ok hr).1
  · intro hC
    cases hr : m.handleMessage env sender msg with
    | error e => exact absurd hC (h.of_error hr)
    | ok r => exact ⟨r.1, r.2, hr, (h.of_ok hr).2⟩

/-! ## Requests -/

omit [Typed V] in
theorem handleGetPublishers_ends (sender : ExternalManager V) (tags : List TagID) (publishersNeeded : List UInt8)
    (ignoreCache : Bool) :
    (m.handleGetPublishers env sender tags publishersNeeded ignoreCache).Ends
      (fun _ => RequestParallel tags publishersNeeded) fun _ => ¬ RequestParallel tags publishersNeeded := by
  unfold Manager.handleGetPublishers
  refine .bind (P := fun _ => RequestParallel tags publishersNeeded) ?_ fun remaining h => ?_
  · rw [removeTagsWithEnoughPublishers_eq, removeTagsLoop_eq]
    split
    · rename_i hl
      split at hl
      · cases hl
      · assumption
    · rename_i hl
      split at hl
      · assumption
      · cases hl
  · dsimp only
    split
    · exact h
    split
    · exact h
    split
    · exact h
    · exact h

theorem request_ends (sender : ExternalManager V) (tags : List TagID) (publishersNeeded : List UInt8)
    (ignoreCache : Bool) :
    (m.handleMessage env sender (.getPublishers tags publishersNeeded ignoreCache)).Ends
      (fun r => (¬ tags.all tagNameOkay = true ∨ RequestParallel tags publishersNeeded) ∧
        (¬ RequestParallel tags publishersNeeded → Refused env sender m r.2))
      fun _ => ¬ (¬ tags.all tagNameOkay = true ∨ RequestParallel tags publishersNeeded) := by
  unfold Manager.handleMessage
  dsimp only
  split
  · rename_i hbad
    rw [Bool.not_eq_true'] at hbad
    exact ⟨.inl (by simp [hbad]), fun _ => ⟨.inl rfl, rfl⟩⟩
  · rename_i hokay
    refine .bind ((handleGetPublishers_ends sender tags publishersNeeded ignoreCache).mono (fun _ h => h) ?_) ?_
    · intro _ hno hor
      exact hor.elim (fun hbad => hokay (Bool.not_eq_true' _ ▸ Bool.eq_false_iff.mpr hbad)) hno
    · intro m' h
      exact ⟨.inr h, fun hno => absurd h hno⟩

/-! ## Reports -/

omit [Typed V] in
theorem addReported_ends (l : List (TagID × List Str × List MachineID)) :
    (l.foldlM Manager.addReported m).Ends (fun _ => ∀ e ∈ l, e.2.1.length = e.2.2.length)
      fun _ => ¬ ∀ e ∈ l, e.2.1.length = e.2.2.length := by
  refine (Except.Ends.foldlM (I := fun rest _ => ∀ e ∈ l, e ∈ rest ∨ e.2.1.length = e.2.2.length)
    (fun e he => .inl he) fun a rest m' ha h => ?_).mono (fun _ h e he => ?_) fun _ h => h
  · unfold Manager.addReported
    split
    · rename_i hne
      exact fun hall => hne (hall a ha)
    · rename_i hlen
      intro e he
      rcases h e he with hmem | hlen'
      · rcases List.mem_cons.mp hmem with heq | hrest
        · exact .inr (heq ▸ not_not.mp hlen)
        · exact .inl hrest
      · exact .inr hlen'
  · exact (h e he).resolve_left (List.not_mem_nil)

theorem innerParallel_iff {tags : List TagID} {addresses : List (List Str)} {machines : List (List MachineID)}
    (h : OuterParallel tags addresses machines) :
    InnerParallel addresses machines ↔
      ∀ e ∈ tags.zip (addresses.zip machines), e.2.1.length = e.2.2.length := by
  have hsnd : (tags.zip (addresses.zip machines)).map Prod.snd = addresses.zip machines := by
    apply List.map_snd_zip
    rw [List.length_zip, ← h.1, ← h.2]
    omega
  constructor
  · intro hin e he
    exact hin e.2 (hsnd ▸ List.mem_map_of_mem he)
  · intro hall p hp
    rw [← hsnd] at hp
    obtain ⟨e, he, rfl⟩ := List.mem_map.mp hp
    exact hall e he

omit [Typed V] in
theorem addPublishersAndPropagate_ends (sender : ExternalManager V) (tags : List TagID) (addresses : List (List Str))
    (machines : List (List MachineID)) (locallyProducedTags : List TagID) :
    (m.addPublishersAndPropagate env sender tags addresses machines locallyProducedTags).Ends
      (fun r => r = (m, false) ∧ ¬ OuterParallel tags addresses machines ∨
        r.2 = true ∧ OuterParallel tags addresses machines ∧ InnerParallel addresses machines)
      fun _ => OuterParallel tags addresses machines ∧ ¬ InnerParallel addresses machines := by
  unfold Manager.addPublishersAndPropagate
  split
  · rename_i hne
    exact .inl ⟨rfl, fun h => hne.elim (fun hn => hn h.1) fun hn => hn h.2⟩
  · rename_i heq
    rw [not_or, not_not, not_not] at heq
    refine .bind ((addReported_ends _).mono (fun _ h => h) ?_) ?_
    · intro _ hno
      exact ⟨heq, fun hin => hno ((innerParallel_iff heq).mp hin)⟩
    · intro m' h
      exact .inr ⟨rfl, heq, (innerParallel_iff heq).mpr h⟩

theorem report_ends (sender : ExternalManager V) (tags : List TagID) (addresses : List (List Str))
    (machines : List (List MachineID)) (locallyProducedTags : List TagID) :
    (m.handleMessage env sender (.reportPublishers tags addresses machines locallyProducedTags)).Ends
      (fun r => (¬ (tags.all tagNameOkay && locallyProducedTags.all tagNameOkay) = true ∨
          ¬ OuterParallel tags addresses machines ∨ InnerParallel addresses machines) ∧
        (¬ (OuterParallel tags addresses machines ∧ InnerParallel addresses machines) → Refused env sender m r.2))
      fun _ => ¬ (¬ (tags.all tagNameOkay && locallyProducedTags.all tagNameOkay) = true ∨
        ¬ OuterParallel tags addresses machines ∨ InnerParallel addresses machines) := by
  unfold Manager.handleMessage
  dsimp only
  split
  · rename_i hbad
    rw [Bool.not_eq_true'] at hbad
    exact ⟨.inl (by simp [hbad]), fun _ => ⟨.inl rfl, rfl⟩⟩
  · rename_i hokay
    refine .bind ((addPublishersAndPropagate_ends sender tags addresses machines locallyProducedTags).mono
      (fun _ h => h) ?_) ?_
    · intro _ hin hor
      rcases hor with hbad | hout | hinner
      · exact hokay (Bool.not_eq_true' _ ▸ Bool.eq_false_iff.mpr hbad)
      · exact hout hin.1
      · exact hin.2 hinner
    · intro r h
      rcases h with hno | hyes
      · obtain ⟨rfl, hout⟩ := hno
        exact ⟨.inr (.inl hout), fun _ => ⟨.inr rfl, rfl⟩⟩
      · obtain ⟨htrue, hout, hin⟩ := hyes
        rw [htrue]
        exact ⟨.inr (.inr hin), fun hno => absurd ⟨hout, hin⟩ hno⟩

/-! ## Which messages are handled safely -/

/-- **A request is handled safely exactly where a name is refused first or its
lists have one length; a report exactly where a name is refused first, the
outer lists differ in length or the inner ones all match.** The walk over both
lists of a request comes to its end exactly where these have one length, with
the tags that have too few publishers beside their numbers. -/
theorem handledSafely_iff (env : Env) (sender : ExternalManager V) (m : Manager V) :
    (∀ tags publishersNeeded ignoreCache,
      HandledSafely env sender (.getPublishers tags publishersNeeded ignoreCache) m ↔
        ¬ tags.all tagNameOkay = true ∨ tags.length = publishersNeeded.length) ∧
    (∀ tags addresses machines locallyProducedTags,
      HandledSafely env sender (.reportPublishers tags addresses machines locallyProducedTags) m ↔
        ¬ (tags.all tagNameOkay && locallyProducedTags.all tagNameOkay) = true ∨
          ¬ (tags.length = addresses.length ∧ tags.length = machines.length) ∨
          ∀ p ∈ addresses.zip machines, p.1.length = p.2.length) ∧
    ∀ tags publishersNeeded, removeTagsLoop m tags publishersNeeded =
      if tags.length = publishersNeeded.length then some (tagsLeft m tags publishersNeeded).unzip else none :=
  ⟨fun tags needed ignoreCache => handledSafely_of_ends (request_ends sender tags needed ignoreCache),
    fun tags addresses machines localTags =>
      handledSafely_of_ends (report_ends sender tags addresses machines localTags),
    removeTagsLoop_eq m⟩

/-- One tag and no number: the number is read beyond the end of its list. -/
theorem not_handledSafely : ¬ ∀ (env : Env) (sender : ExternalManager Nat) (msg : Message Nat) (m : Manager Nat),
    HandledSafely env sender msg m := by
  intro h
  let env : Env := ⟨0, fun _ _ => .noError, fun _ _ => .connected, fun _ => none, id, fun _ => .rfl, fun _ _ => 0,
    fun _ _ => none⟩
  obtain ⟨taken, m', hm, -⟩ := h env (.create env 0 [] ['a'] [] 0) (.getPublishers [['p', 't']] [] false)
    (.create 0 ['b'] 0)
  cases hm

end ParallelLists

end Skywing.L3
