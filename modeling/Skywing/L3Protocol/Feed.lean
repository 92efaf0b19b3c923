import Skywing.Core.LTS
import Skywing.L3Protocol.Job

/-!
# One publisher, one subscriber

A job publishes on a tag and another job is subscribed to it. Of what is
published some is delivered, in order: publications may be skipped, none comes
twice or late. The subscriber reads whenever it likes. Publications carry
their number (`Publication`), which the code does not look at.

What is asked for (`NewestSeen`): after each delivery there is data, a read
would return the publication just delivered, and no publication is returned
twice.

Versions are 32-bit, and the publisher counts past the value that marks an
empty buffer. `newest_iff`: a run is as asked for exactly when each publication
delivered has a version (`Fits`) other than that mark and above that of the one
delivered before it.
-/
namespace Skywing.L3.Feed

open L2.TagBuffer

/-- A value and the number of its publication, from 1. -/
structure Publication (α : Type) where
  number : Nat
  value : α
  deriving DecidableEq, Repr

instance {α : Type} [Typed α] : Typed (Publication α) := ⟨fun p => types p.value⟩

/-- `published`, `next` and `returned` are history: what was published with
which version, the index from which on nothing was delivered, and the numbers
of the publications that reads returned. -/
structure St (α : Type) where
  publisher : Job (Publication α)
  subscriber : Job (Publication α)
  published : List (Publication α × VersionID)
  next : Nat
  returned : List Nat

inductive Label (α : Type)
  | publish (v : α)
  /-- the publication with this index arrives; those before it that have not are skipped -/
  | deliver (i : Nat)
  | read
  deriving DecidableEq, Repr

/-- The tag with the types of its values, and the connection id under which
the subscriber waits for it. -/
structure Topic where
  tag : TagID
  expectedTypes : List UInt8
  connectionId : UInt16

variable {α : Type} [Typed α] {T : Topic}

def Topic.waiter (T : Topic) : Job.Waiter := ⟨T.tag, T.connectionId⟩

/-- `none`: the step cannot be taken, or an assertion fails in it. -/
def step (T : Topic) (s : St α) : Label α → Option (St α)
  | .publish v =>
    if types v = T.expectedTypes then
      (s.publisher.publishImpl T.tag).map fun (version, publisher) =>
        { s with
          publisher := publisher
          published := s.published ++ [(⟨s.published.length + 1, v⟩, version)] }
    else none
  | .deliver i =>
    if s.next ≤ i then
      (s.published[i]?).bind fun (p, version) =>
        (s.subscriber.processData T.tag p version).map fun (_, subscriber) =>
          { s with subscriber := subscriber, next := i + 1 }
    else none
  | .read =>
    (s.subscriber.getValue T.waiter).map fun (value, subscriber) =>
      { s with
        subscriber := subscriber
        returned := s.returned ++ value.toList.map Publication.number }

/-- The publisher has declared the tag and published nothing on it; the
subscription of the other job was just made, its buffer new or reset. -/
def start (T : Topic) (publisher subscriber : Job (Publication α))
    (buffer : DiscardOldVersionTagBuffer (Publication α)) : St α where
  publisher := { publisher with
    tagsProduced := publisher.tagsProduced.insert T.tag T.expectedTypes
    lastPublishedVersion := publisher.lastPublishedVersion.erase T.tag }
  subscriber := subscriber.setInfo T.tag ⟨some buffer.reset, T.expectedTypes, T.connectionId, .noError⟩
  published := []
  next := 0
  returned := []

/-! ## What is asked for -/

/-- There is data, and a read returns the publication with index `i`. -/
def Shows (T : Topic) (s : St α) (i : Nat) : Prop :=
  s.subscriber.hasData T.tag = some true ∧
    ∃ p version j, s.published[i]? = some (p, version) ∧ s.subscriber.getValue T.waiter = some (some p, j)

def NewestSeen (T : Topic) (s : St α) (ls : List (Label α)) : Prop :=
  (∀ n t i u, LTS.Visits (step T) s ls n t → ls[n]? = some (.deliver i) → step T t (.deliver i) = some u →
    Shows T u i) ∧
  ∀ n t, LTS.Visits (step T) s ls n t → t.returned.Nodup

/-- The publication with index `i` has the version `i` modulo `2 ^ 32`: it is
not all ones, and above the version of the last one delivered. -/
def Fits (s : St α) (i : Nat) : Prop :=
  i % 2 ^ 32 ≠ 2 ^ 32 - 1 ∧ (s.next = 0 ∨ (s.next - 1) % 2 ^ 32 < i % 2 ^ 32)

/-! ## The subscriber's buffer -/

/-- A version other than the mark does not wrap when it is counted up. -/
theorem add_one_le_iff {v w : VersionID} (h : v ≠ tagNoData) : v + 1 ≤ w ↔ v < w := by
  have hv : v.toNat ≠ 2 ^ 32 - 1 := fun he => h (eq_noData_iff.mpr he)
  have hlt := v.toNat_lt
  rw [UInt32.le_iff_toNat_le, UInt32.lt_iff_toNat_lt, UInt32.toNat_add, UInt32.toNat_one]
  omega

/-- What the publications, the buffer and the reads so far have to do with
each other as long as every delivery fits. -/
structure Inv (T : Topic) (s : St α) : Prop where
  published : ∀ i e, s.published[i]? = some e →
    e.1.number = i + 1 ∧ e.2 = versionAt (i + 1) ∧ types e.1.value = T.expectedTypes
  produced : (s.publisher.tagsProduced.lookup T.tag).isSome
  counter : (s.publisher.lastPublishedVersion.lookup T.tag).getD tagNoData = versionAt s.published.length
  buffer : ∃ b, s.subscriber.bufs.lookup T.tag = some ⟨some b, T.expectedTypes, T.connectionId, .noError⟩ ∧
    -- nothing has come, or the buffer holds the last one, which is fetched or newer than any fetched
    (s.next = 0 ∧ b.storedVersion = tagNoData ∧ b.lastFetchedVersion = tagNoData ∨
      ∃ d e, s.next = d + 1 ∧ s.published[d]? = some e ∧ b.value = some e.1 ∧ b.storedVersion = e.2 ∧
        e.2 ≠ tagNoData ∧
        (b.lastFetchedVersion = e.2 ∨ s.next ∉ s.returned ∧
          (b.lastFetchedVersion = tagNoData ∨ b.lastFetchedVersion < e.2)))
  returned : s.returned.Nodup ∧ ∀ k ∈ s.returned, k ≤ s.next

theorem inv_start (publisher subscriber : Job (Publication α)) (buffer : DiscardOldVersionTagBuffer (Publication α)) :
    Inv T (start T publisher subscriber buffer) where
  published := by simp [start]
  produced := by simp [start]
  counter := by simp [start, versionAt_zero]
  buffer := ⟨buffer.reset, Job.setInfo_self _ _ _, .inl ⟨rfl, rfl, rfl⟩⟩
  returned := by simp [start]

omit [Typed α] in
theorem fits_iff {s : St α} {i : Nat} :
    Fits s i ↔ versionAt (i + 1) ≠ tagNoData ∧ (s.next = 0 ∨ versionAt s.next < versionAt (i + 1)) := by
  unfold Fits
  rw [Ne, Ne, eq_noData_iff, UInt32.lt_iff_toNat_lt, versionAt_succ_toNat]
  cases s.next with
  | zero => simp
  | succ d => rw [versionAt_succ_toNat]; simp

/-! ## One step -/

theorem inv_publish {s u : St α} {v : α} (h : Inv T s) (hu : step T s (.publish v) = some u) : Inv T u := by
  simp only [step] at hu
  split at hu
  · rename_i htypes
    obtain ⟨⟨version, publisher⟩, hp, rfl⟩ := Option.map_eq_some_iff.mp hu
    obtain ⟨hv, -, hlast⟩ := Job.publishImpl_eq hp
    have hprod : publisher.tagsProduced = s.publisher.tagsProduced := by
      unfold Job.publishImpl at hp
      split at hp
      · cases hp; rfl
      · cases hp
    rw [h.counter, versionAt_add_one] at hv
    have hkeep {i : Nat} {e : Publication α × VersionID} (he : s.published[i]? = some e) :
        (s.published ++ [(⟨s.published.length + 1, v⟩, version)])[i]? = some e := by
      rw [List.getElem?_append_left (List.getElem?_eq_some_iff.mp he).1]
      exact he
    refine ⟨?_, hprod ▸ h.produced, by simp [hlast, hv], ?_, h.returned⟩
    · intro i e he
      rcases Nat.lt_or_ge i s.published.length with hi | hi
      · exact h.published i e (by rwa [List.getElem?_append_left hi] at he)
      · obtain ⟨hi', he'⟩ := List.getElem?_eq_some_iff.mp he
        have hi' : i = s.published.length := by
          simp only [List.length_append, List.length_cons, List.length_nil] at hi'
          omega
        subst hi'
        simp only [List.getElem_append_right le_rfl, Nat.sub_self, List.getElem_cons_zero] at he'
        subst he'
        exact ⟨rfl, hv, htypes⟩
    · obtain ⟨b, hb, hcase⟩ := h.buffer
      refine ⟨b, hb, hcase.imp id ?_⟩
      intro hex
      obtain ⟨d, e, hd, he, hrest⟩ := hex
      exact ⟨d, e, hd, hkeep he, hrest⟩
  · cases hu

/-- What arrives is added to the subscriber's buffer. -/
theorem deliver_cases {s u : St α} {i : Nat} (h : Inv T s) (hu : step T s (.deliver i) = some u) :
    s.next ≤ i ∧ ∃ p b, s.published[i]? = some (p, versionAt (i + 1)) ∧ p.number = i + 1 ∧
      s.subscriber.bufs.lookup T.tag = some ⟨some b, T.expectedTypes, T.connectionId, .noError⟩ ∧
      u = { s with
        subscriber := s.subscriber.setInfo T.tag
          ⟨some (b.add p (versionAt (i + 1))), T.expectedTypes, T.connectionId, .noError⟩
        next := i + 1 } := by
  simp only [step] at hu
  split at hu
  · rename_i hle
    obtain ⟨⟨p, version⟩, hp, hu⟩ := Option.bind_eq_some_iff.mp hu
    obtain ⟨hnum, rfl, htypes⟩ := h.published i _ hp
    obtain ⟨b, hb, -⟩ := h.buffer
    rw [Job.processData_accept _ hb rfl htypes.symm] at hu
    cases hu
    exact ⟨hle, p, b, hp, hnum, hb, rfl⟩
  · cases hu

theorem deliver_isSome {s : St α} {i : Nat} (h : Inv T s) (hn : s.next ≤ i) (hi : i < s.published.length) :
    (step T s (.deliver i)).isSome := by
  obtain ⟨b, hb, -⟩ := h.buffer
  have he := List.getElem?_eq_getElem hi
  obtain ⟨-, -, htypes⟩ := h.published i _ he
  simp only [step, if_pos hn, he, Option.bind_some]
  rw [Job.processData_accept _ hb rfl htypes.symm]
  rfl

omit [Typed α] in
theorem shows_iff {s : St α} {i : Nat} {p : Publication α} {version : VersionID}
    {b : DiscardOldVersionTagBuffer (Publication α)} (hp : s.published[i]? = some (p, version))
    (hb : s.subscriber.bufs.lookup T.tag = some ⟨some b, T.expectedTypes, T.connectionId, .noError⟩) :
    Shows T s i ↔ b.hasData = true ∧ b.value = some p := by
  unfold Shows
  rw [Job.hasData_eq hb rfl, Option.some.injEq]
  refine and_congr_right fun hd => ?_
  have hget : b.get = some (b.value, { b with lastFetchedVersion := b.storedVersion }) := if_pos hd
  constructor
  · intro hex
    obtain ⟨q, version', j, hq, hj⟩ := hex
    rw [hp] at hq
    cases hq
    cases hv : b.value with
    | none => simp [Job.getValue, Topic.waiter, hb, hd, hget, hv] at hj
    | some q =>
      simp only [hv] at hget
      rw [Job.getValue_eq hb rfl hd hget] at hj
      cases hj
      rfl
  · intro hv
    exact ⟨p, version, _, hp, Job.getValue_eq hb rfl hd (hv ▸ hget)⟩

/-- **One delivery.** What was delivered is what a read returns exactly when
its version fits, and then the next delivery is judged the same way. -/
theorem deliver_shows_iff {s u : St α} {i : Nat} (h : Inv T s) (hu : step T s (.deliver i) = some u) :
    Shows T u i ↔ Fits s i := by
  obtain ⟨hle, p, b, hp, hnum, hb, rfl⟩ := deliver_cases h hu
  obtain ⟨b', hb', hcase⟩ := h.buffer
  cases hb.symm.trans hb'
  refine (shows_iff (by exact hp) (Job.setInfo_self _ _ _)).trans ?_
  rw [fits_iff, DiscardOldVersionTagBuffer.add]
  rcases hcase with ⟨h0, hstored, hfetched⟩ | ⟨d, e, hd, he, hvalue, hstored, hne, hfetched⟩
  · -- nothing has come yet
    rw [if_pos (.inr hstored)]
    simp [DiscardOldVersionTagBuffer.hasData, hfetched, h0, tagNoData]
  · obtain ⟨henum, hever, -⟩ := h.published d e he
    rw [hd, ← hever, hstored]
    split
    · rename_i hnew
      have hlt : e.2 < versionAt (i + 1) := hnew.resolve_right hne
      have hold : b.lastFetchedVersion = tagNoData ∨
          b.lastFetchedVersion ≠ tagNoData ∧ b.lastFetchedVersion < versionAt (i + 1) := by
        rcases hfetched with hf | ⟨-, hf | hf⟩
        · exact .inr ⟨hf ▸ hne, hf ▸ hlt⟩
        · exact .inl hf
        · exact (em _).imp id fun hn => ⟨hn, UInt32.lt_trans hf hlt⟩
      have hdata : b.lastFetchedVersion + 1 ≤ versionAt (i + 1) := by
        rcases hold with hf | ⟨hn, hf⟩
        · rw [hf]; simp [tagNoData]
        · exact (add_one_le_iff hn).mpr hf
      simp [DiscardOldVersionTagBuffer.hasData, hdata, hlt]
    · -- it was thrown away: the buffer holds an earlier publication
      rename_i hold
      have hlt : ¬ e.2 < versionAt (i + 1) := fun hlt => hold (.inl hlt)
      simp only [hvalue, Option.some.injEq, hlt, or_false, Nat.succ_ne_zero, and_false, iff_false, not_and]
      intro _ hep
      rw [← hep, henum] at hnum
      omega

theorem inv_deliver {s u : St α} {i : Nat} (h : Inv T s) (hu : step T s (.deliver i) = some u)
    (hfits : Fits s i) : Inv T u := by
  have hshows := (deliver_shows_iff h hu).mpr hfits
  obtain ⟨hle, p, b, hp, hnum, hb, rfl⟩ := deliver_cases h hu
  obtain ⟨b', hb', hcase⟩ := h.buffer
  cases hb.symm.trans hb'
  obtain ⟨hne, hlt⟩ := fits_iff.mp hfits
  have hnew : versionAt (i + 1) > b.storedVersion ∨ b.storedVersion = tagNoData := by
    rcases hcase with ⟨-, hstored, -⟩ | ⟨d, e, hd, he, -, hstored, -⟩
    · exact .inr hstored
    · obtain ⟨-, hever, -⟩ := h.published d e he
      rw [hstored, hever, ← hd]
      exact .inl (hlt.resolve_left (by omega))
  have hadd : b.add p (versionAt (i + 1)) = { b with storedVersion := versionAt (i + 1), value := some p } :=
    if_pos hnew
  rw [hadd]
  refine ⟨h.published, h.produced, h.counter, ⟨_, Job.setInfo_self _ _ _, .inr ⟨i, _, rfl, hp, rfl, rfl, hne, ?_⟩⟩,
    h.returned.1, fun k hk => (h.returned.2 k hk).trans (by simp; omega)⟩
  refine .inr ⟨fun hk => ?_, ?_⟩
  · have := h.returned.2 _ hk
    simp at this
    omega
  · rcases hcase with ⟨-, -, hfetched⟩ | ⟨d, e, hd, he, -, hstored, hne', hfetched⟩
    · exact .inl hfetched
    · have hlt' : e.2 < versionAt (i + 1) := by
        rw [(h.published d e he).2.1, ← hd]
        exact hlt.resolve_left (by omega)
      rcases hfetched with hf | ⟨-, hf | hf⟩
      · exact .inr (hf ▸ hlt')
      · exact .inl hf
      · exact .inr (UInt32.lt_trans hf hlt')

/-- What a read returns was not returned before. -/
theorem inv_read {s u : St α} (h : Inv T s) (hu : step T s .read = some u) : Inv T u := by
  obtain ⟨⟨value, j⟩, hj, rfl⟩ := Option.map_eq_some_iff.mp hu
  obtain ⟨b, hb, hcase⟩ := h.buffer
  by_cases hd : b.hasData = true
  · have hver := hd
    simp only [DiscardOldVersionTagBuffer.hasData, Bool.and_eq_true, bne_iff_ne, decide_eq_true_eq, ge_iff_le] at hver
    rcases hcase with ⟨-, hstored, -⟩ | ⟨d, e, hn, he, hvalue, hstored, hne, hfetched⟩
    · exact absurd hstored hver.1
    · have hget : b.get = some (some e.1, { b with lastFetchedVersion := b.storedVersion }) := hvalue ▸ if_pos hd
      rw [Job.getValue_eq hb rfl hd hget] at hj
      cases hj
      have hfresh : s.next ∉ s.returned := by
        refine (hfetched.resolve_left fun hf => ?_).1
        have hle := hver.2
        rw [hf, hstored, add_one_le_iff hne] at hle
        exact UInt32.lt_irrefl _ hle
      have hnum : e.1.number = s.next := by rw [(h.published d e he).1, hn]
      refine ⟨h.published, h.produced, h.counter,
        ⟨_, Job.setInfo_self _ _ _, .inr ⟨d, e, hn, he, hvalue, hstored, hne, .inl hstored⟩⟩, ?_, ?_⟩
      · simp only [Option.toList_some, List.map_cons, List.map_nil, hnum]
        exact List.nodup_append.mpr ⟨h.returned.1, List.nodup_singleton _,
          fun a ha c hc he => hfresh (by rw [← List.mem_singleton.mp hc, ← he]; exact ha)⟩
      · intro k hk
        simp only [Option.toList_some, List.map_cons, List.map_nil, List.mem_append, List.mem_singleton, hnum] at hk
        rcases hk with hk | rfl
        · exact h.returned.2 k hk
        · exact le_rfl
  · have hnone : s.subscriber.getValue T.waiter = some (none, s.subscriber) := by
      simp [Job.getValue, Topic.waiter, hb, hd]
    rw [hnone] at hj
    cases hj
    simpa using h

/-- A step keeps the invariant; a delivery, if it fits. -/
theorem inv_step {s u : St α} {l : Label α} (h : Inv T s) (hu : step T s l = some u)
    (hfits : ∀ i, l = .deliver i → Fits s i) : Inv T u := by
  cases l with
  | publish v => exact inv_publish h hu
  | deliver i => exact inv_deliver h hu (hfits i rfl)
  | read => exact inv_read h hu

/-! ## Runs -/

/-- **The newest publication.** In a run each delivery shows the subscriber
what was delivered, and no read returns a publication again, exactly when the
version of each publication delivered fits. -/
theorem newest_iff (T : Topic) (publisher subscriber : Job (Publication α))
    (buffer : DiscardOldVersionTagBuffer (Publication α)) (ls : List (Label α)) :
    NewestSeen T (start T publisher subscriber buffer) ls ↔
      ∀ n t i, LTS.Visits (step T) (start T publisher subscriber buffer) ls n t →
        ls[n]? = some (.deliver i) → (step T t (.deliver i)).isSome → Fits t i := by
  constructor
  · intro hex
    obtain ⟨hshows, -⟩ := hex
    have hinv : ∀ n t, LTS.Visits (step T) (start T publisher subscriber buffer) ls n t → Inv T t := by
      refine LTS.visits_induction (inv_start publisher subscriber buffer) ?_
      intro n t l u ht hl hu hi
      refine inv_step hi hu ?_
      rintro i rfl
      exact (deliver_shows_iff hi hu).mp (hshows n t i u ht hl hu)
    intro n t i ht hl hsome
    obtain ⟨u, hu⟩ := Option.isSome_iff_exists.mp hsome
    exact (deliver_shows_iff (hinv n t ht) hu).mp (hshows n t i u ht hl hu)
  · intro hfits
    have hinv : ∀ n t, LTS.Visits (step T) (start T publisher subscriber buffer) ls n t → Inv T t := by
      refine LTS.visits_induction (inv_start publisher subscriber buffer) ?_
      intro n t l u ht hl hu hi
      refine inv_step hi hu ?_
      rintro i rfl
      exact hfits n t i ht hl (by rw [hu]; rfl)
    refine ⟨fun n t i u ht hl hu => ?_, fun n t ht => (hinv n t ht).returned.1⟩
    exact (deliver_shows_iff (hinv n t ht) hu).mpr (hfits n t i ht hl (by rw [hu]; rfl))

omit [Typed α] in
/-- Below `2 ^ 32` publications every delivery fits. -/
theorem fits_of_lt {s : St α} {i : Nat} (hn : s.next ≤ i) (hi : i + 1 < 2 ^ 32) : Fits s i := by
  unfold Fits
  rw [Nat.mod_eq_of_lt (by omega), Nat.mod_eq_of_lt (by omega)]
  omega

/-! ## The publication that is not seen -/

def topic : Topic := ⟨['p', '1'], [], 0⟩

def begin : St Nat := start topic ⟨∅, ∅, ∅⟩ ⟨∅, ∅, ∅⟩ {}

theorem publish_many (n : Nat) : ∃ t, LTS.exec (step topic) begin (List.replicate n (.publish 0)) = some t ∧
    Inv topic t ∧ t.published.length = n ∧ t.next = 0 := by
  induction n with
  | zero => exact ⟨begin, rfl, inv_start _ _ _, rfl, rfl⟩
  | succ n ih =>
    obtain ⟨t, ht, hi, hlen, hnext⟩ := ih
    have hstep : ∃ u, step topic t (.publish 0) = some u ∧ u.published.length = n + 1 ∧ u.next = 0 := by
      simp only [step, Job.publishImpl, if_pos hi.produced,
        if_pos (show types (0 : Nat) = topic.expectedTypes from rfl)]
      exact ⟨_, rfl, by simp [hlen], hnext⟩
    obtain ⟨u, hu, hlen', hnext'⟩ := hstep
    refine ⟨u, ?_, inv_publish hi hu, hlen', hnext'⟩
    rw [List.replicate_succ', LTS.exec_append, ht]
    simp [LTS.exec, hu]

/-- Of `2 ^ 32` publications the last one is delivered, which has the version
of an empty buffer. -/
theorem newest_missed :
    ¬ NewestSeen topic begin (List.replicate (2 ^ 32) (.publish 0) ++ [.deliver (2 ^ 32 - 1)]) := by
  obtain ⟨t, ht, hi, hlen, hnext⟩ := publish_many (2 ^ 32)
  obtain ⟨u, hu⟩ := Option.isSome_iff_exists.mp
    (deliver_isSome (i := 2 ^ 32 - 1) hi (by omega) (by omega))
  intro hex
  obtain ⟨hshows, -⟩ := hex
  have hvisits : LTS.Visits (step topic) begin
      (List.replicate (2 ^ 32) (.publish 0) ++ [.deliver (2 ^ 32 - 1)]) (2 ^ 32) t := by
    unfold LTS.Visits
    rw [List.take_append_of_le_length (by rw [List.length_replicate]),
      List.take_of_length_le (by rw [List.length_replicate])]
    exact ht
  have hlabel : (List.replicate (2 ^ 32) (.publish 0) ++ [Label.deliver (2 ^ 32 - 1)])[2 ^ 32]? =
      some (Label.deliver (2 ^ 32 - 1) : Label Nat) := by
    rw [List.getElem?_append_right (by rw [List.length_replicate]), List.length_replicate]
    rfl
  have hfits := (deliver_shows_iff hi hu).mp (hshows _ t _ u hvisits hlabel hu)
  exact hfits.1 (Nat.mod_eq_of_lt (by omega))

end Skywing.L3.Feed
