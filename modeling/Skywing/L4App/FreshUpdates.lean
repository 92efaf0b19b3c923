import Skywing.L4App.Iterative

/-!
# What processors are shown

`IterativeMethod::gather_values` counts the live neighbours with data and
gives up if there are none; otherwise it reads them and lists them in
`updated_tags_`, which points into `tags_`. `AsynchronousIterative::run` goes
on only if it read something. `SynchronousIterative::run` waits for its
neighbours and then ignores the answer: waiters also fire on errors, so it may
update after a `gather_values` that gave up, which has left `updated_tags_`
alone and may have erased the tags it points to.

An agent is watched along its run: `fetched` are the tags whose data was
fetched since the last update (`Observed`). What is asked for (`SeesFresh`):
an update is shown a list of updated tags that is not empty, points into
`tags_`, and names exactly the fetched ones whose neighbours are alive.

`fresh_updates`: so it is in every run in which a synchronous `gather_values`
comes by a live neighbour with data, no neighbour is lost between `has_data`
and the update that uses its data, and no value arrives with the version that
marks an empty buffer (`Cond`).
-/
namespace Skywing.L4.FreshUpdates

open L2.TagBuffer L3 L4.Iterative

/-- An agent with the tags whose data was fetched since its last update. -/
structure Observed (V α P : Type) where
  agent : Agent V α P
  fetched : List TagID

section Fresh
variable {V α P : Type}

/-- The tag that the next step of `gather_values`'s second loop fetches. -/
def fetching (a : Agent V α P) : Option TagID :=
  match a.pc with
  | .readUpdates i => (a.tags[i]?).filter fun t => a.job.hasData t == some true
  | _ => none

def observe (s : Observed V α P) : Lbl α → List TagID
  | .tick => if s.agent.pc = .processUpdates then [] else s.fetched ++ (fetching s.agent).toList
  | _ => s.fetched

/-- An update is about to be made, and what it is shown is fresh: the fetched
tags with an active publisher, and no others. -/
structure Shown (s : Observed V α P) : Prop where
  nonempty : s.agent.updatedTags ≠ []
  current : ∀ i ∈ s.agent.updatedTags, i < s.agent.tags.length
  fetched : ∀ t, t ∈ s.fetched ∧ s.agent.job.tagHasActivePublisher t = true ↔
    ∃ i ∈ s.agent.updatedTags, s.agent.tags[i]? = some t

def SeesFresh (s : Observed V α P) : Prop := s.agent.pc = .processUpdates → Shown s

/-! ## What may happen meanwhile -/

/-- Where `gather_values`'s first loop is. -/
def counting (a : Agent V α P) : Option Nat :=
  match a.pc with
  | .countUpdates i _ => some i
  | _ => none

/-- Of the tags, one that the loop has passed has data, or one that it is
still to come to has data and an active publisher. -/
def Hope (tags : List TagID) (i : Nat) (j : Job α) : Prop :=
  (∃ t ∈ tags.take i, j.hasData t = some true) ∨
    ∃ t ∈ tags.drop i, j.tagHasActivePublisher t = true ∧ j.hasData t = some true

instance (tags : List TagID) (i : Nat) (j : Job α) : Decidable (Hope tags i j) :=
  inferInstanceAs (Decidable (_ ∨ _))

/-- The manager's thread leaves the job `j` behind: nothing whose data was
fetched is lost before the update. A synchronous `gather_values` keeps its
hope, and gets nothing at a tag that it has passed and that had no data. -/
def Spares (k : Framework) (s : Observed V α P) (j : Job α) : Prop :=
  (∀ t ∈ s.fetched, j.tagHasActivePublisher t = true) ∧
    (k = .synchronous → ∀ i ∈ counting s.agent, Hope s.agent.tags i j ∧
      ∀ t ∈ s.agent.tags.take i, j.hasData t = some true → s.agent.job.hasData t = some true)

instance (k : Framework) (s : Observed V α P) (j : Job α) : Decidable (Spares k s j) :=
  inferInstanceAs (Decidable (_ ∧ _))

/-- The steps that keep to what the code relies on. A synchronous
`gather_values` is called when a live neighbour has data, and data is read of
live neighbours. No value has the version of an empty buffer, and no value and
no death does away with what `gather_values` has relied on. -/
def Cond [Typed α] (k : Framework) (s : Observed V α P) : Lbl α → Prop
  | .tick => (k = .synchronous → s.agent.pc = .isReady [] → Hope s.agent.tags 0 s.agent.job) ∧
      ∀ t ∈ fetching s.agent, s.agent.job.tagHasActivePublisher t = true
  | .data tag value version => version ≠ tagNoData ∧
      ∀ r ∈ s.agent.job.processData tag value version, Spares k s r.2
  | .dead tag => Spares k s (s.agent.job.markTagAsDead tag)
  | _ => True

instance [Typed α] (k : Framework) (s : Observed V α P) : ∀ l, Decidable (Cond k s l)
  | .tick => inferInstanceAs (Decidable (_ ∧ _))
  | .data _ _ _ => inferInstanceAs (Decidable (_ ∧ _))
  | .dead _ => inferInstanceAs (Decidable (Spares k s _))
  | .run | .stop _ => inferInstanceAs (Decidable True)

/-! ## Where a run of `gather_values` stands -/

/-- `t` is at a place of `tags_` that meets `p`, with data to be read. -/
def Pending (p : Nat → Prop) (a : Agent V α P) : Prop :=
  ∃ j t, p j ∧ a.tags[j]? = some t ∧ a.job.hasData t = some true

/-- The list of updated tags points to the fetched ones. -/
def Lists (s : Observed V α P) : Prop :=
  s.agent.updatedTags.map (s.agent.tags[·]?) = s.fetched.map some

/-- In a synchronous first loop the hope is left, and what has data of the
passed tags was counted. -/
def Hopes (k : Framework) (a : Agent V α P) (i n : Nat) : Prop :=
  k = .synchronous → Hope a.tags i a.job ∧ ((∃ t ∈ a.tags.take i, a.job.hasData t = some true) → n ≠ 0)

def Alive (s : Observed V α P) : Prop := ∀ t ∈ s.fetched, s.agent.job.tagHasActivePublisher t = true

def Inv (k : Framework) (s : Observed V α P) : Prop :=
  match s.agent.pc with
  | .countUpdates i n => s.fetched = [] ∧ (n ≠ 0 → Pending (· < i) s.agent) ∧ Hopes k s.agent i n
  | .readUpdates i => Lists s ∧ (s.fetched ≠ [] ∨ Pending (i ≤ ·) s.agent) ∧ Alive s
  | .processUpdates => Lists s ∧ s.fetched ≠ [] ∧ Alive s
  | _ => s.fetched = []

theorem Inv.seesFresh {k : Framework} {s : Observed V α P} (h : Inv k s) : SeesFresh s := by
  intro hp
  simp only [Inv, hp] at h
  obtain ⟨hl, hne, halive⟩ := h
  have hmem {i : Nat} (hi : i ∈ s.agent.updatedTags) : ∃ t ∈ s.fetched, s.agent.tags[i]? = some t := by
    have : s.agent.tags[i]? ∈ s.fetched.map some := hl ▸ List.mem_map_of_mem hi
    obtain ⟨t, ht, he⟩ := List.mem_map.mp this
    exact ⟨t, ht, he.symm⟩
  refine ⟨?_, ?_, ?_⟩
  · intro he
    have := congrArg List.length hl
    simp [he] at this
    exact hne (List.length_eq_zero_iff.mp this.symm)
  · intro i hi
    obtain ⟨t, -, ht⟩ := hmem hi
    exact (List.getElem?_eq_some_iff.mp ht).1
  · intro t
    constructor
    · intro ht
      have : some t ∈ s.agent.updatedTags.map (s.agent.tags[·]?) := hl ▸ List.mem_map_of_mem ht.1
      obtain ⟨i, hi, he⟩ := List.mem_map.mp this
      exact ⟨i, hi, he⟩
    · intro hex
      obtain ⟨i, hi, ht⟩ := hex
      obtain ⟨t', ht', he⟩ := hmem hi
      rw [ht] at he
      cases he
      exact ⟨ht', halive t ht'⟩

theorem Pending.mono {p q : Nat → Prop} {a b : Agent V α P} (h : Pending p a) (hpq : ∀ j, p j → q j)
    (htags : b.tags = a.tags) (hdata : ∀ t, a.job.hasData t = some true → b.job.hasData t = some true) :
    Pending q b := by
  obtain ⟨j, t, hj, ht, hd⟩ := h
  exact ⟨j, t, hpq j hj, htags ▸ ht, hdata t hd⟩

/-- A step outside of `run` that leaves data where it is. -/
theorem Inv.job {k : Framework} {s : Observed V α P} (h : Inv k s) {j : Job α}
    (hdata : ∀ t, s.agent.job.hasData t = some true → j.hasData t = some true) (hspares : Spares k s j) :
    Inv k { s with agent := { s.agent with job := j } } := by
  have hmono {p : Nat → Prop} (hp : Pending p s.agent) : Pending p { s.agent with job := j } :=
    hp.mono (fun _ h => h) rfl hdata
  obtain ⟨halive, hhope⟩ := hspares
  unfold Inv at h ⊢
  cases hp : s.agent.pc with
  | countUpdates i n =>
    simp only [hp] at h ⊢
    refine ⟨h.1, fun hn => hmono (h.2.1 hn), fun hk => ?_⟩
    obtain ⟨hope, hpassed⟩ := hhope hk i (by simp [counting, hp])
    refine ⟨hope, fun hex => (h.2.2 hk).2 ?_⟩
    obtain ⟨t, ht, hd⟩ := hex
    exact ⟨t, ht, hpassed t ht hd⟩
  | readUpdates i =>
    simp only [hp] at h ⊢
    exact ⟨h.1, h.2.1.imp id hmono, halive⟩
  | processUpdates =>
    simp only [hp] at h ⊢
    exact ⟨h.1, h.2.1, halive⟩
  | _ => simpa only [hp] using h

/-- New data never hides unread data, short of the version of an empty buffer. -/
theorem hasData_add {b : DiscardOldVersionTagBuffer α} {version : VersionID} (v : α)
    (h : b.hasData = true) (hv : version ≠ tagNoData) : (b.add v version).hasData = true := by
  unfold DiscardOldVersionTagBuffer.add
  split
  · rename_i hnew
    simp only [DiscardOldVersionTagBuffer.hasData, Bool.and_eq_true, bne_iff_ne, decide_eq_true_eq, ge_iff_le] at h ⊢
    refine ⟨hv, ?_⟩
    have hlt : b.storedVersion < version := hnew.resolve_right h.1
    rw [UInt32.le_iff_toNat_le] at h ⊢
    rw [UInt32.lt_iff_toNat_lt] at hlt
    omega
  · exact h

theorem hasData_processData [Typed α] {j j' : Job α} {tag : TagID} {value : α} {version : VersionID} {ok : Bool}
    (h : j.processData tag value version = some (ok, j')) (hv : version ≠ tagNoData) (t : TagID)
    (ht : j.hasData t = some true) : j'.hasData t = some true := by
  by_cases he : t = tag
  · subst he
    unfold Job.processData at h
    split at h
    · cases h; exact ht
    · rename_i info hi
      simp only [Job.hasData, hi] at ht
      split at h
      · cases h
        simp only [Job.hasData, Job.setInfo_self]
        exact ht
      · obtain ⟨b, hb, he⟩ := Option.map_eq_some_iff.mp h
        cases he
        rw [hb] at ht
        simp only [Job.hasData, Job.setInfo_self, Option.map_some, Option.some.injEq] at ht ⊢
        exact hasData_add value ht hv
  · unfold Job.hasData at ht ⊢
    rw [(Job.processData_frame h).1 t he]
    exact ht

theorem hasData_markTagAsDead (j : Job α) (tag t : TagID) : (j.markTagAsDead tag).hasData t = j.hasData t := by
  unfold Job.markTagAsDead
  split
  · rfl
  · rename_i info hi
    by_cases he : t = tag
    · subst he
      simp [Job.hasData, hi]
    · simp [Job.hasData, he]

/-! ## One step -/

section Step
variable [Typed α] (c : PubSubConverter V α) (M : Method V P)

def step (k : Framework) (s : Observed V α P) (l : Lbl α) : Option (Observed V α P) :=
  (Iterative.step c M k s.agent l).map fun b => ⟨b, observe s l⟩

def init (job : Job α) (producedTag : TagID) (tags : List TagID) (p : P) (s : Observed V α P) : Prop :=
  s = ⟨create M job producedTag tags p, []⟩

def lts (k : Framework) (job : Job α) (producedTag : TagID) (tags : List TagID) (p : P) :
    LTS (Observed V α P) (Lbl α) :=
  LTS.ofFn (init M job producedTag tags p) (step c M k)

variable {c M}

omit [Typed α] in
/-- A dead tag is none to hope for. -/
theorem Hopes.erase {k : Framework} {a b : Agent V α P} {i n : Nat} {tag : TagID} (h : Hopes k a i n)
    (ht : a.tags[i]? = some tag) (hdead : a.job.tagHasActivePublisher tag = false)
    (htags : b.tags = a.tags.eraseIdx i) (hjob : b.job = a.job) : Hopes k b i n := by
  intro hk
  obtain ⟨hope, hcounted⟩ := h hk
  have herase := List.eraseIdx_eq_take_drop_succ a.tags i
  have hlen : i < a.tags.length := (List.getElem?_eq_some_iff.mp ht).1
  have htake : (a.tags.eraseIdx i).take i = a.tags.take i := by
    rw [herase, List.take_left' (List.length_take_of_le hlen.le)]
  have hdrop : (a.tags.eraseIdx i).drop i = a.tags.drop (i + 1) := by
    rw [herase, List.drop_left' (List.length_take_of_le hlen.le)]
  unfold Hope
  rw [htags, hjob, htake, hdrop]
  refine ⟨hope.imp_right fun hex => ?_, hcounted⟩
  obtain ⟨t, htd, hlive, hd⟩ := hex
  rw [List.drop_eq_getElem_cons hlen] at htd
  rcases List.mem_cons.mp htd with rfl | htd
  · rw [(List.getElem?_eq_some_iff.mp ht).2, hdead] at hlive
    cases hlive
  · exact ⟨t, htd, hlive, hd⟩

omit [Typed α] in
/-- A tag with data was counted, one without is none to hope for. -/
theorem Hopes.pass {k : Framework} {a b : Agent V α P} {i n : Nat} {tag : TagID} {has : Bool} (h : Hopes k a i n)
    (ht : a.tags[i]? = some tag) (hd : a.job.hasData tag = some has) (htags : b.tags = a.tags)
    (hjob : b.job = a.job) : Hopes k b (i + 1) (if has then n + 1 else n) := by
  intro hk
  obtain ⟨hope, hcounted⟩ := h hk
  have hlen : i < a.tags.length := (List.getElem?_eq_some_iff.mp ht).1
  have htag : a.tags[i] = tag := (List.getElem?_eq_some_iff.mp ht).2
  have htake : a.tags.take (i + 1) = a.tags.take i ++ [tag] := by
    rw [List.take_append_getElem hlen |>.symm, htag]
  unfold Hope
  rw [htags, hjob, htake]
  constructor
  · rcases hope with ⟨t, htt, hdt⟩ | ⟨t, htd, hlive, hdt⟩
    · exact .inl ⟨t, List.mem_append_left _ htt, hdt⟩
    · rw [List.drop_eq_getElem_cons hlen] at htd
      rcases List.mem_cons.mp htd with rfl | htd
      · exact .inl ⟨_, List.mem_append_right _ (by simp [htag]), hdt⟩
      · exact .inr ⟨t, htd, hlive, hdt⟩
  · intro hex
    obtain ⟨t, htt, hdt⟩ := hex
    rcases List.mem_append.mp htt with htt | htt
    · have := hcounted ⟨t, htt, hdt⟩
      split <;> omega
    · obtain rfl := List.mem_singleton.mp htt
      have hhas : some has = some true := hd.symm.trans hdt
      cases hhas
      exact Nat.succ_ne_zero n

omit [Typed α] in
theorem inv_countStep {k : Framework} {noData : Pc} {s : Observed V α P} {b : Agent V α P} {i n : Nat} (h : Inv k s)
    (hp : s.agent.pc = .countUpdates i n) (hb : countStep M noData s.agent i n = some b)
    (hno : k = .synchronous ∨ noData = .waitForUpdate) : Inv k ⟨b, s.fetched⟩ := by
  simp only [Inv, hp] at h
  obtain ⟨hf, hpend, hhope⟩ := h
  obtain ⟨hend, ⟨hn, rfl⟩ | ⟨hn, rfl⟩⟩ | ⟨tag, ht, ⟨hdead, rfl⟩ | ⟨has, hd, rfl⟩⟩ := countStep_cases M hb
  · rcases hno with hk | rfl
    · -- all tags are passed, so the hope is one that was counted
      obtain ⟨hope, hcounted⟩ := hhope hk
      have hdrop : s.agent.tags.drop i = [] := List.drop_eq_nil_of_le (List.getElem?_eq_none_iff.mp hend)
      rcases hope with hpassed | ⟨t, htd, -⟩
      · exact absurd hn (hcounted hpassed)
      · rw [hdrop] at htd
        cases htd
    · exact hf
  · refine ⟨by simp [Lists, hf], .inr ?_, fun t ht => ?_⟩
    · exact (hpend hn).mono (fun _ _ => Nat.zero_le _) rfl fun _ h => h
    · have ht' : t ∈ s.fetched := ht
      rw [hf] at ht'
      cases ht'
  · simp only [Inv, handleDeadNeighbor, hp]
    refine ⟨hf, fun hn => ?_, hhope.erase ht hdead rfl rfl⟩
    -- the tags before the erased one stay where they are
    obtain ⟨j, t, hj, hjt, hd⟩ := hpend hn
    exact ⟨j, t, hj, by rw [List.getElem?_eraseIdx_of_lt hj]; exact hjt, hd⟩
  · refine ⟨hf, fun hn => ?_, hhope.pass ht hd rfl rfl⟩
    cases has with
    | true => exact ⟨i, tag, Nat.lt_succ_self i, ht, hd⟩
    | false =>
      refine (hpend ?_).mono (fun _ hj => Nat.lt_succ_of_lt hj) rfl fun _ h => h
      simpa using hn

omit [Typed α] in
/-- Fetching leaves the errors as they are. -/
theorem live_getValue {j j' : Job α} {w : Job.Waiter} {v : Option α} (h : j.getValue w = some (v, j')) (t : TagID) :
    j'.tagHasActivePublisher t = j.tagHasActivePublisher t := by
  unfold Job.getValue at h
  simp only [Option.bind_eq_bind, Option.bind_eq_some_iff, Option.pure_def] at h
  obtain ⟨info, hi, buffer, -, h⟩ := h
  split at h
  · simp only [Option.bind_eq_some_iff, Option.some.injEq] at h
    obtain ⟨r, -, x, -, he⟩ := h
    cases he
    by_cases heq : t = w.tag
    · subst heq
      simp [Job.tagHasActivePublisher, hi]
    · simp [Job.tagHasActivePublisher, heq]
  · cases h
    rfl

theorem inv_readStep {k : Framework} {s : Observed V α P} {b : Agent V α P} {i : Nat} (h : Inv k s)
    (hp : s.agent.pc = .readUpdates i) (hb : readStep c s.agent i = some b)
    (hlive : ∀ t ∈ fetching s.agent, s.agent.job.tagHasActivePublisher t = true) :
    Inv k ⟨b, s.fetched ++ (fetching s.agent).toList⟩ := by
  simp only [Inv, hp] at h
  obtain ⟨hl, hpend, halive⟩ := h
  obtain ⟨hend, rfl⟩ | ⟨tag, ht, ⟨hd, rfl⟩ | ⟨w, value, job, hd, -, hget, rfl⟩⟩ := readStep_cases c hb
  · have hnone : fetching s.agent = none := by simp [fetching, hp, hend]
    rw [hnone]
    simp only [Option.toList_none, List.append_nil]
    refine ⟨hl, hpend.resolve_right ?_, halive⟩
    intro hex
    obtain ⟨j, t, hj, hjt, -⟩ := hex
    have hlen := List.getElem?_eq_none_iff.mp hend
    have := (List.getElem?_eq_some_iff.mp hjt).1
    omega
  · have hnone : fetching s.agent = none := by simp [fetching, hp, ht, hd]
    rw [hnone]
    simp only [Option.toList_none, List.append_nil]
    refine ⟨hl, hpend.imp id ?_, halive⟩
    intro hex
    obtain ⟨j, t, hj, hjt, hjd⟩ := hex
    refine ⟨j, t, Nat.lt_of_le_of_ne hj ?_, hjt, hjd⟩
    rintro rfl
    rw [ht] at hjt
    cases hjt
    rw [hd] at hjd
    cases hjd
  · have hsome : fetching s.agent = some tag := by simp [fetching, hp, ht, hd]
    rw [hsome] at hlive ⊢
    refine ⟨?_, .inl (by simp), fun t htf => ?_⟩
    · unfold Lists at hl ⊢
      simp only [List.map_append, hl, List.map_cons, List.map_nil, ht, Option.toList_some]
    · show job.tagHasActivePublisher t = true
      rw [live_getValue hget]
      rcases List.mem_append.mp htf with htf | htf
      · exact halive t htf
      · obtain rfl : t = tag := by simpa using htf
        exact hlive t rfl

theorem inv_tick (k : Framework) {s : Observed V α P} {b : Agent V α P} (h : Inv k s)
    (hb : runStep c M k s.agent = some b) (hcond : Cond k s .tick) : Inv k ⟨b, observe s .tick⟩ := by
  obtain ⟨hcall, hlive⟩ := hcond
  -- nothing is fetched outside of the second loop
  have hkeep (hpc : ∀ i, s.agent.pc ≠ .readUpdates i) (hpc' : s.agent.pc ≠ .processUpdates) :
      observe s .tick = s.fetched := by
    have hnone : fetching s.agent = none := by
      unfold fetching
      split
      · rename_i i hi
        exact absurd hi (hpc i)
      · rfl
    simp [observe, hpc', hnone]
  unfold runStep at hb
  cases hp : s.agent.pc with
  | idle | exit | stopPolicy | stopPolicyAfterWait => rw [hp] at hb; cases hb
  | outerLoop =>
    rw [hp] at hb
    cases hb
    rw [hkeep (by simp [hp]) (by simp [hp])]
    simp only [Inv, hp] at h
    cases s.agent.shouldIterate <;> exact h
  | innerLoop =>
    simp only [hp] at hb
    rw [hkeep (by simp [hp]) (by simp [hp])]
    simp only [Inv, hp] at h
    split at hb
    · cases k with
      | synchronous =>
        obtain ⟨ws, -, rfl⟩ := Option.map_eq_some_iff.mp hb
        exact h
      | asynchronous => cases hb; exact ⟨h, fun hn => absurd rfl hn, fun hk => by cases hk⟩
    · cases hb; exact h
  | isReady ws =>
    rw [hp] at hb
    rw [hkeep (by simp [hp]) (by simp [hp])]
    simp only [Inv, hp] at h
    cases ws with
    | nil =>
      cases hb
      refine ⟨h, fun hn => absurd rfl hn, fun hk => ⟨hcall hk hp, fun hex => ?_⟩⟩
      obtain ⟨t, ht, -⟩ := hex
      cases ht
    | cons w ws =>
      obtain ⟨ready, -, rfl⟩ := Option.map_eq_some_iff.mp hb
      cases ready <;> exact h
  | countUpdates i n =>
    simp only [hp] at hb
    rw [hkeep (by simp [hp]) (by simp [hp])]
    cases k with
    | synchronous => exact inv_countStep h hp hb (.inl rfl)
    | asynchronous => exact inv_countStep h hp hb (.inr rfl)
  | readUpdates i =>
    simp only [hp] at hb
    have : observe s .tick = s.fetched ++ (fetching s.agent).toList := by simp [observe, hp]
    rw [this]
    exact inv_readStep h hp hb hlive
  | processUpdates =>
    rw [hp] at hb
    cases hb
    simp [Inv, processAllUpdates, observe, hp]
  | publish =>
    simp only [hp] at hb
    rw [hkeep (by simp [hp]) (by simp [hp])]
    have hpc : b.pc = .stopPolicy := by
      cases k with
      | synchronous =>
        obtain ⟨job, version, -, rfl, -⟩ := submitValues_eq c hb
        rfl
      | asynchronous =>
        simp only [publishStep] at hb
        split at hb
        · obtain ⟨job, version, -, rfl, -⟩ := submitValues_eq c hb
          rfl
        · cases hb; rfl
    simp only [Inv, hp] at h
    simp only [Inv, hpc]
    exact h
  | waitForUpdate =>
    rw [hp] at hb
    cases hb
    rw [hkeep (by simp [hp]) (by simp [hp])]
    simp only [Inv, hp] at h
    cases s.agent.shouldIterate <;> exact h

theorem inv_step (k : Framework) {s t : Observed V α P} {l : Lbl α} (h : Inv k s) (ht : step c M k s l = some t)
    (hcond : Cond k s l) : Inv k t := by
  obtain ⟨b, hb, rfl⟩ := Option.map_eq_some_iff.mp ht
  cases l with
  | data tag value version =>
    obtain ⟨⟨ok, j⟩, hj, rfl⟩ := Option.map_eq_some_iff.mp hb
    exact h.job (hasData_processData hj hcond.1) (hcond.2 _ hj)
  | dead tag =>
    cases hb
    exact h.job (fun t ht => by rw [hasData_markTagAsDead]; exact ht) hcond
  | run =>
    simp only [Iterative.step] at hb
    split at hb
    · rename_i hpc
      obtain ⟨r, -, rfl⟩ := Option.map_eq_some_iff.mp hb
      rcases hpc with hp | hp <;> simp only [Inv, hp] at h <;> exact h
    · cases hb
  | tick => exact inv_tick k h hb hcond
  | stop answer =>
    obtain ⟨-, -, flag, pc, hbetween, -, rfl⟩ := evalStopPolicy_eq hb
    have hf : s.fetched = [] := by
      simp only [Iterative.step, evalStopPolicy] at hb
      split at hb
      · rename_i hp
        simpa only [Inv, hp] using h
      · rename_i hp
        simpa only [Inv, hp] using h
      · cases hb
    unfold Inv
    cases pc <;> first | exact hf | cases hbetween

/-! ## Runs -/

theorem inv_inductive (k : Framework) (job : Job α) (producedTag : TagID) (tags : List TagID) (p : P) :
    ((lts c M k job producedTag tags p).restrict (Cond k)).Inductive (Inv k) where
  init s hs := by
    subst hs
    rfl
  step s l t h ht := inv_step k h ht.1 ht.2

variable (c M)

/-- **Processors see fresh updates.** In every run of either framework whose
steps meet the condition, every update is shown a non-empty list of updated
tags that points into the current tags and names exactly the live ones whose
data was fetched since the update before. -/
theorem fresh_updates (k : Framework) (job : Job α) (producedTag : TagID) (tags : List TagID) (p : P)
    (s : Observed V α P) (hs : ((lts c M k job producedTag tags p).restrict (Cond k)).Reachable s) :
    SeesFresh s := ((inv_inductive k job producedTag tags p).reachable s hs).seesFresh

end Step

end Fresh

/-! ## A subscriber of one neighbour -/

/-- A value comes and an update with it is about to be made. -/
def oneUpdate : Framework → List (Lbl Nat)
  | .synchronous => [.run, .data ['p', 'b'] 7 0] ++ List.replicate 8 .tick
  | .asynchronous => [.run, .data ['p', 'b'] 7 0] ++ List.replicate 6 .tick

def watched : Observed Nat Nat Unit := ⟨waitingAgent, []⟩

def nextUpdate : Framework → List (Lbl Nat)
  -- the neighbour dies after one update, and its waiter fires
  | .synchronous => oneUpdate .synchronous ++ [.tick, .tick, .stop false, .dead ['p', 'b']] ++ List.replicate 5 .tick
  -- between the loops of `gather_values` a value comes with the version of an empty buffer
  | .asynchronous =>
    [.run, .data ['p', 'b'] 7 0] ++ List.replicate 4 .tick ++ [.data ['p', 'b'] 8 tagNoData] ++ List.replicate 2 .tick

/-- The neighbour dies between the loops of `gather_values`. -/
def lostNeighbor : Framework → List (Lbl Nat)
  | .synchronous => [.run, .data ['p', 'b'] 7 0] ++ List.replicate 6 .tick ++ [.dead ['p', 'b'], .tick, .tick]
  | .asynchronous => [.run, .data ['p', 'b'] 7 0] ++ List.replicate 4 .tick ++ [.dead ['p', 'b'], .tick, .tick]

/-- An update with nothing new: the synchronous one is shown a pointer past
the end of `tags_`, the asynchronous one an empty list. And one with the data
of a dead neighbour, of either. -/
theorem stale_updates :
    (∃ s, (lts plainConverter plainMethod .synchronous waitingAgent.job ['p', 'a'] [['p', 'b']] ()).Reachable s ∧
      ¬ SeesFresh s) ∧
    (∃ s, (lts plainConverter plainMethod .asynchronous waitingAgent.job ['p', 'a'] [['p', 'b']] ()).Reachable s ∧
      ¬ SeesFresh s) ∧
    ∀ k, ∃ s, (lts plainConverter plainMethod k waitingAgent.job ['p', 'a'] [['p', 'b']] ()).Reachable s ∧
      ¬ SeesFresh s ∧ s.agent.job.tagHasActivePublisher ['p', 'b'] = false := by
  refine ⟨?_, ?_, fun k => ?_⟩
  · have hx : LTS.exec (step plainConverter plainMethod .synchronous) watched (nextUpdate .synchronous) = some _ := rfl
    refine ⟨_, LTS.reachable_of_exec rfl hx, fun h => ?_⟩
    have := (h rfl).current 0 (by decide)
    exact absurd this (by decide)
  · have hx : LTS.exec (step plainConverter plainMethod .asynchronous) watched (nextUpdate .asynchronous) =
        some _ := rfl
    exact ⟨_, LTS.reachable_of_exec rfl hx, fun h => (h rfl).nonempty rfl⟩
  · have hdead : ∃ s, LTS.exec (step plainConverter plainMethod k) watched (lostNeighbor k) = some s ∧
        s.agent.pc = .processUpdates ∧ s.agent.updatedTags = [0] ∧ s.agent.tags = [['p', 'b']] ∧
        s.agent.job.tagHasActivePublisher ['p', 'b'] = false := by
      cases k <;> exact ⟨_, rfl, rfl, rfl, rfl, rfl⟩
    obtain ⟨s, hx, hpc, hupdated, htags, hlive⟩ := hdead
    refine ⟨s, LTS.reachable_of_exec rfl hx, fun h => ?_, hlive⟩
    have hshown := ((h hpc).fetched ['p', 'b']).mpr
      ⟨0, by rw [hupdated]; exact List.mem_singleton_self _, by rw [htags]; rfl⟩
    rw [hlive] at hshown
    exact Bool.false_ne_true hshown.2

/-- An update of each framework with the value that came. -/
theorem fresh_updates_one :
    (∃ s : Observed Nat Nat Unit, s.agent.pc = .processUpdates ∧ SeesFresh s) ∧
    ∃ s : Observed Nat Nat Unit, s.agent.pc = .processUpdates ∧ SeesFresh s := by
  constructor
  · have hx : LTS.exec (LTS.guarded (step plainConverter plainMethod .synchronous) (Cond .synchronous)) watched
        (oneUpdate .synchronous) = some _ := rfl
    exact ⟨_, rfl, fresh_updates plainConverter plainMethod .synchronous waitingAgent.job ['p', 'a'] [['p', 'b']] () _
      (LTS.restrict_reachable_of_exec rfl hx)⟩
  · have hx : LTS.exec (LTS.guarded (step plainConverter plainMethod .asynchronous) (Cond .asynchronous)) watched
        (oneUpdate .asynchronous) = some _ := rfl
    exact ⟨_, rfl, fresh_updates plainConverter plainMethod .asynchronous waitingAgent.job ['p', 'a'] [['p', 'b']] () _
      (LTS.restrict_reachable_of_exec rfl hx)⟩

end Skywing.L4.FreshUpdates
