import Skywing.L4App.Jacobi

/-!
# Who a component comes from

A processor takes a pair of a message, an index and a value, for a component
that it does not compute itself (`process_update`,
`skywing_mid/jacobi_processor.hpp`). What `prepare_for_publication` makes has
one pair for each row of the publisher; the initial values, all zero, are as
many pairs for component 0.

Results:
* `owned_iff`: in every run, an update takes components from their owners
  exactly where it reads no initial values of an agent without row 0 for a
  component 0 that is not its own.
* `not_owned`: one agent for each of three rows.
-/
namespace Skywing.L4.Jacobi

open JacobiProcessor

/-! ## The components an update overwrites -/

/-- The component that pair `k` of a message overwrites, if it does. -/
def overwritten (nbrValue : List ℚ) (p : JacobiProcessor) (k : ℕ) : Option ℕ :=
  if (List.range p.numberOfUpdatedComponents).any
      fun i => nbrValue.getD (k * 2) 0 == ((p.rowIndices.getD i 0 : ℕ) : ℚ) then none
  else some ⌊nbrValue.getD (k * 2) 0⌋₊

theorem processPair_eq (nbrValue : List ℚ) (p : JacobiProcessor) (k : ℕ) :
    processPair nbrValue p k = match overwritten nbrValue p k with
      | none => p
      | some c => jacobiComputation { p with xIter := p.xIter.set c (nbrValue.getD (k * 2 + 1) 0) } := by
  unfold processPair overwritten
  split <;> rfl

/-- One pair, and who overwrote what so far. -/
def tracePair {ι : Type*} (msg : ι × List ℚ) (s : JacobiProcessor × List (ι × ℕ)) (k : ℕ) :
    JacobiProcessor × List (ι × ℕ) :=
  (processPair msg.2 s.1 k, s.2 ++ ((overwritten msg.2 s.1 k).map (msg.1, ·)).toList)

/-- `processUpdate` with the publisher of each message, and the components
overwritten in the order in which that happens. -/
def traceUpdate {ι : Type*} (p : JacobiProcessor) (msgs : List (ι × List ℚ)) : JacobiProcessor × List (ι × ℕ) :=
  msgs.foldl (fun s msg => (List.range (msg.2.length / 2)).foldl (tracePair msg) s) (p, [])

section Trace
variable {ι : Type*}

theorem tracePair_foldl (msg : ι × List ℚ) (l : List ℕ) (s : JacobiProcessor × List (ι × ℕ)) :
    (l.foldl (tracePair msg) s).1 = l.foldl (processPair msg.2) s.1 := by
  induction l generalizing s with
  | nil => rfl
  | cons k l ih => exact ih _

/-- The trace is one of `processUpdate`. -/
theorem traceUpdate_fst (p : JacobiProcessor) (msgs : List (ι × List ℚ)) :
    (traceUpdate p msgs).1 = processUpdate p (msgs.map Prod.snd) := by
  have hloop : ∀ s : JacobiProcessor × List (ι × ℕ),
      (msgs.foldl (fun s msg => (List.range (msg.2.length / 2)).foldl (tracePair msg) s) s).1 =
        processUpdate s.1 (msgs.map Prod.snd) := by
    unfold processUpdate
    induction msgs with
    | nil => exact fun _ => rfl
    | cons msg msgs ih =>
      intro s
      rw [List.foldl_cons, ih, List.map_cons, List.foldl_cons, tracePair_foldl]
  exact hloop (p, [])

/-! ## What a processor keeps -/

/-- The rows of a processor. -/
structure SameRows (p q : JacobiProcessor) : Prop where
  rowIndices : q.rowIndices = p.rowIndices
  count : q.numberOfUpdatedComponents = p.numberOfUpdatedComponents

theorem SameRows.trans {p q r : JacobiProcessor} (h : SameRows p q) (h' : SameRows q r) : SameRows p r :=
  ⟨h'.rowIndices.trans h.rowIndices, h'.count.trans h.count⟩

theorem foldl_sameRows {α : Type*} {f : JacobiProcessor → α → JacobiProcessor} (hf : ∀ p a, SameRows p (f p a))
    (l : List α) (p : JacobiProcessor) : SameRows p (l.foldl f p) := by
  induction l generalizing p with
  | nil => exact ⟨rfl, rfl⟩
  | cons a l ih => exact (hf p a).trans (ih (f p a))

theorem jacobiComputation_sameRows (p : JacobiProcessor) : SameRows p (jacobiComputation p) :=
  foldl_sameRows (f := recompute) (fun _ _ => ⟨rfl, rfl⟩) _ p

theorem processPair_sameRows (nbrValue : List ℚ) (p : JacobiProcessor) (k : ℕ) :
    SameRows p (processPair nbrValue p k) := by
  rw [processPair_eq]
  split
  · exact ⟨rfl, rfl⟩
  · exact ⟨(jacobiComputation_sameRows _).rowIndices, (jacobiComputation_sameRows _).count⟩

theorem processUpdate_sameRows (p : JacobiProcessor) (nbrValues : List (List ℚ)) :
    SameRows p (p.processUpdate nbrValues) :=
  foldl_sameRows (fun q nbrValue => foldl_sameRows (processPair_sameRows nbrValue) _ q) nbrValues p

theorem SameRows.overwritten {p q : JacobiProcessor} (h : SameRows p q) (nbrValue : List ℚ) (k : ℕ) :
    overwritten nbrValue q k = Jacobi.overwritten nbrValue p k := by
  rw [Jacobi.overwritten, Jacobi.overwritten, h.rowIndices, h.count]

theorem tracePair_loop (p : JacobiProcessor) (msg : ι × List ℚ) (l : List ℕ) (s : JacobiProcessor × List (ι × ℕ))
    (h : SameRows p s.1) : SameRows p (l.foldl (tracePair msg) s).1 ∧
      ∀ e, e ∈ (l.foldl (tracePair msg) s).2 ↔
        e ∈ s.2 ∨ ∃ k ∈ l, ∃ c, overwritten msg.2 p k = some c ∧ e = (msg.1, c) := by
  induction l generalizing s with
  | nil => exact ⟨h, by simp⟩
  | cons k l ih =>
    obtain ⟨hrows, hmem⟩ := ih (tracePair msg s k) (h.trans (processPair_sameRows _ _ _))
    refine ⟨hrows, fun e => ?_⟩
    have hnew : e ∈ ((overwritten msg.2 p k).map (msg.1, ·)).toList ↔
        ∃ c, overwritten msg.2 p k = some c ∧ e = (msg.1, c) := by
      simp [Option.mem_toList, eq_comm]
    rw [List.foldl_cons, hmem, tracePair, h.overwritten, List.mem_append, hnew]
    simp [or_assoc]

/-- What is overwritten can be told from the processor before the update. -/
theorem mem_traceUpdate (p : JacobiProcessor) (msgs : List (ι × List ℚ)) (e : ι × ℕ) :
    e ∈ (traceUpdate p msgs).2 ↔
      ∃ msg ∈ msgs, ∃ k < msg.2.length / 2, overwritten msg.2 p k = some e.2 ∧ msg.1 = e.1 := by
  have hloop : ∀ s : JacobiProcessor × List (ι × ℕ), SameRows p s.1 →
      (e ∈ (msgs.foldl (fun s msg => (List.range (msg.2.length / 2)).foldl (tracePair msg) s) s).2 ↔
        e ∈ s.2 ∨ ∃ msg ∈ msgs, ∃ k < msg.2.length / 2, overwritten msg.2 p k = some e.2 ∧ msg.1 = e.1) := by
    induction msgs with
    | nil => simp
    | cons msg msgs ih =>
      intro s h
      obtain ⟨hrows, hmem⟩ := tracePair_loop p msg (List.range (msg.2.length / 2)) s h
      have hpair : (∃ k ∈ List.range (msg.2.length / 2), ∃ c, overwritten msg.2 p k = some c ∧ e = (msg.1, c)) ↔
          ∃ k < msg.2.length / 2, overwritten msg.2 p k = some e.2 ∧ msg.1 = e.1 := by
        constructor
        · intro hk
          obtain ⟨k, hk, c, hc, rfl⟩ := hk
          exact ⟨k, List.mem_range.mp hk, hc, rfl⟩
        · intro hk
          obtain ⟨k, hk, hc, he⟩ := hk
          exact ⟨k, List.mem_range.mpr hk, e.2, hc, Prod.ext he.symm rfl⟩
      rw [List.foldl_cons, ih _ hrows, hmem, hpair, List.exists_mem_cons_iff, or_assoc]
  have h := hloop (p, []) ⟨rfl, rfl⟩
  simpa [traceUpdate] using h

end Trace

/-! ## Messages -/

section Messages
variable {n : ℕ} {part : List (Fin n)} {p : JacobiProcessor} {msg : List ℚ}

/-- `p` computes the rows `part`. -/
structure Computes (part : List (Fin n)) (p : JacobiProcessor) : Prop where
  rowIndices : p.rowIndices = part.map Fin.val
  count : p.numberOfUpdatedComponents = part.length

theorem Computes.of_sameRows {q : JacobiProcessor} (h : Computes part p) (hr : SameRows p q) : Computes part q :=
  ⟨hr.rowIndices.trans h.rowIndices, hr.count.trans h.count⟩

/-- One pair for each row. -/
structure Owned (part : List (Fin n)) (msg : List ℚ) : Prop where
  length : msg.length = 2 * part.length
  index : ∀ (k : ℕ) (r : Fin n), part[k]? = some r → msg.getD (k * 2) 0 = ((r : ℕ) : ℚ)

theorem putPair_index (h : Computes part p) {vals : List ℚ} (hl : vals.length = 2 * part.length) {i : ℕ}
    (hi : i < part.length) (k : ℕ) :
    (putPair p vals i).getD (k * 2) 0 = if k = i then ((part[i] : ℕ) : ℚ) else vals.getD (k * 2) 0 := by
  have hindex : p.rowIndices.getD i 0 = part[i] := by
    rw [h.rowIndices, List.getD_eq_getElem _ _ (by rwa [List.length_map]), List.getElem_map]
  unfold putPair
  dsimp only
  rw [hindex, getD_set, getD_set, if_neg (by omega)]
  by_cases hik : k = i
  · rw [if_pos ⟨by omega, by omega⟩, if_pos hik]
  · rw [if_neg (by omega), if_neg hik]

theorem prepareForPublication_owned (h : Computes part p) {vals : List ℚ} (hl : vals.length = 2 * part.length) :
    Owned part (p.prepareForPublication vals) := by
  have hloop : ∀ m, m ≤ part.length → ((List.range m).foldl (putPair p) vals).length = 2 * part.length ∧
      ∀ (k : ℕ) (r : Fin n), k < m → part[k]? = some r →
        ((List.range m).foldl (putPair p) vals).getD (k * 2) 0 = ((r : ℕ) : ℚ) := by
    intro m
    induction m with
    | zero => exact fun _ => ⟨hl, fun _ _ hk => nomatch hk⟩
    | succ m ih =>
      intro hm
      obtain ⟨hlen, hdone⟩ := ih (by omega)
      rw [List.range_succ, List.foldl_append]
      refine ⟨?_, fun k r hk hr => ?_⟩
      · show (putPair p _ m).length = _
        simpa [putPair] using hlen
      · show (putPair p _ m).getD (k * 2) 0 = _
        rw [putPair_index h hlen hm k]
        split
        · rename_i hkm
          subst hkm
          rw [List.getElem?_eq_getElem hm, Option.some.injEq] at hr
          rw [hr]
        · exact hdone k r (by omega) hr
  obtain ⟨hlen, hdone⟩ := hloop part.length le_rfl
  unfold prepareForPublication
  rw [h.count]
  exact ⟨hlen, fun k r hr => hdone k r (List.getElem?_eq_some_iff.mp hr).1 hr⟩

/-- The guard of `process_update` compares the index with the rows. -/
theorem overwritten_eq (h : Computes part p) {k c : ℕ} (hc : msg.getD (k * 2) 0 = (c : ℚ)) :
    overwritten msg p k = if c ∈ part.map Fin.val then none else some c := by
  have hany : ((List.range p.numberOfUpdatedComponents).any
      fun i => (c : ℚ) == ((p.rowIndices.getD i 0 : ℕ) : ℚ)) = decide (c ∈ part.map Fin.val) := by
    rw [Bool.eq_iff_iff, List.any_eq_true, decide_eq_true_eq, h.count, h.rowIndices]
    constructor
    · intro hi
      obtain ⟨i, hi, heq⟩ := hi
      rw [List.mem_range] at hi
      have hget : (part.map Fin.val).getD i 0 = part[i] := by
        rw [List.getD_eq_getElem _ _ (by rwa [List.length_map]), List.getElem_map]
      rw [hget, beq_iff_eq, Nat.cast_inj] at heq
      rw [heq]
      exact List.mem_map_of_mem (List.getElem_mem hi)
    · intro hmem
      obtain ⟨i, hi, heq⟩ := List.mem_iff_getElem.mp hmem
      refine ⟨i, List.mem_range.mpr (by rwa [List.length_map] at hi), ?_⟩
      rw [List.getD_eq_getElem _ _ hi, heq, beq_self_eq_true]
  unfold overwritten
  rw [hc, hany, Nat.floor_natCast]
  by_cases hmem : c ∈ part.map Fin.val
  · rw [decide_eq_true hmem, if_pos rfl, if_pos hmem]
  · rw [decide_eq_false hmem, if_neg Bool.false_ne_true, if_neg hmem]

end Messages

/-! ## Runs -/

section Runs
variable {ι : Type*} {n : ℕ} {A : Matrix (Fin n) (Fin n) ℚ} {b : Fin n → ℚ} {rows : ι → List (Fin n)}

theorem mem_fetch {pubs : ι → List (List ℚ)} : ∀ {fresh : List (ι × ℕ)} {vs : List (List ℚ)},
    fetch pubs fresh = some vs → ∀ msg : ι × List ℚ,
      msg ∈ (fresh.map Prod.fst).zip vs ↔ ∃ e ∈ fresh, e.1 = msg.1 ∧ (pubs e.1)[e.2]? = some msg.2
  | [], vs, h, msg => by
    cases h
    simp
  | (j, k) :: rest, vs, h, msg => by
    rw [fetch] at h
    split at h
    · rename_i w ws hw hrest
      cases h
      rw [List.map_cons, List.zip_cons_cons, List.mem_cons, mem_fetch hrest, List.exists_mem_cons_iff, hw]
      simp [Prod.ext_iff, eq_comm]
    · cases h

theorem fetch_length {pubs : ι → List (List ℚ)} : ∀ {fresh : List (ι × ℕ)} {vs : List (List ℚ)},
    fetch pubs fresh = some vs → vs.length = fresh.length
  | [], vs, h => by
    cases h
    rfl
  | (j, k) :: rest, vs, h => by
    rw [fetch] at h
    split at h
    · rename_i w ws hw hrest
      cases h
      rw [List.length_cons, List.length_cons, fetch_length hrest]
    · cases h

/-- Who published what the update of `i` overwrites components with. -/
def overwrites (s : Net ι) (i : ι) (fresh : List (ι × ℕ)) : List (ι × ℕ) :=
  match fetch s.pubs fresh with
  | none => []
  | some vs => (traceUpdate (s.proc i) ((fresh.map Prod.fst).zip vs)).2

/-- What was published is the initial values or has the rows of its
publisher. -/
structure Origins (rows : ι → List (Fin n)) (s : Net ι) : Prop where
  proc : ∀ i, Computes (rows i) (s.proc i)
  values : ∀ i, (s.publishValues i).length = 2 * (rows i).length ∧
    (s.publishValues i = (s.proc i).getInitPublishValues ∨ Owned (rows i) (s.publishValues i))
  pubs : ∀ i, ∀ msg ∈ s.pubs i, msg = (s.proc i).getInitPublishValues ∨ Owned (rows i) msg

theorem getInitPublishValues_eq {p q : JacobiProcessor} (h : SameRows p q) :
    q.getInitPublishValues = p.getInitPublishValues := by
  rw [getInitPublishValues, getInitPublishValues, h.count]

theorem computes_ofRows (part : List (Fin n)) : Computes part (ofRows A b part) := by
  have hp : Computes part
      { aPartition := part.map fun r => List.ofFn (A r)
        bPartition := part.map b
        rowIndices := part.map Fin.val
        numberOfUpdatedComponents := (part.map Fin.val).length
        xIter := List.replicate ((part.map fun r => List.ofFn (A r)).headD []).length 0 } :=
    ⟨rfl, List.length_map ..⟩
  exact hp.of_sameRows (jacobiComputation_sameRows _)

theorem origins_init : Origins rows (init A b rows) where
  proc i := computes_ofRows (rows i)
  values i := by
    refine ⟨?_, .inl rfl⟩
    show (List.replicate _ _).length = _
    rw [List.length_replicate, (computes_ofRows (A := A) (b := b) (rows i)).count]
  pubs _ _ h := nomatch h

variable [DecidableEq ι]

theorem origins_step {s t : Net ι} {l : Lbl ι} (hI : Origins rows s) (h : step s l = some t) : Origins rows t := by
  cases l with
  | start i =>
    cases h
    exact ⟨hI.proc, hI.values, forall_mem_log hI.pubs (hI.values i).2⟩
  | publish i =>
    cases h
    have hv := prepareForPublication_owned (hI.proc i) (hI.values i).1
    refine ⟨hI.proc, fun j => ?_, forall_mem_log hI.pubs (.inr hv)⟩
    dsimp only
    by_cases hji : j = i
    · subst hji
      rw [Function.update_self]
      exact ⟨hv.length, .inr hv⟩
    · rw [Function.update_of_ne hji]
      exact hI.values j
  | update i fresh =>
    simp only [step, Option.map_eq_some_iff] at h
    obtain ⟨vs, hvs, rfl⟩ := h
    have hrows (j : ι) : SameRows (s.proc j) (Function.update s.proc i ((s.proc i).processUpdate vs) j) := by
      by_cases hji : j = i
      · subst hji
        rw [Function.update_self]
        exact processUpdate_sameRows _ vs
      · rw [Function.update_of_ne hji]
        exact ⟨rfl, rfl⟩
    refine ⟨fun j => (hI.proc j).of_sameRows (hrows j), fun j => ?_, fun j msg hmsg => ?_⟩
    · rw [getInitPublishValues_eq (hrows j)]
      exact hI.values j
    · rw [getInitPublishValues_eq (hrows j)]
      exact hI.pubs j msg hmsg

theorem origins_inductive : (lts A b rows).Inductive (Origins rows) where
  init := by
    intro s hs
    rw [hs]
    exact origins_init
  step := fun _ _ _ hI h => origins_step hI h

/-- The pairs of the initial values are all for component 0. -/
theorem init_index {part : List (Fin n)} {p : JacobiProcessor} (h : Computes part p) :
    p.getInitPublishValues.length / 2 = part.length ∧ ∀ k, p.getInitPublishValues.getD k 0 = ((0 : ℕ) : ℚ) := by
  unfold getInitPublishValues
  rw [List.length_replicate, h.count]
  refine ⟨by omega, fun k => ?_⟩
  rw [List.getD_eq_getElem?_getD, List.getElem?_replicate]
  split <;> simp

/-- The update of `i` takes each component from a machine that computes it,
and none that is its own. -/
def FromOwners (rows : ι → List (Fin n)) (s : Net ι) (i : ι) (fresh : List (ι × ℕ)) : Prop :=
  ∀ e ∈ overwrites s i fresh, e.2 ∈ (rows e.1).map Fin.val ∧ e.2 ∉ (rows i).map Fin.val

/-- Initial values are read only of agents without rows or with row 0, or by
an agent with row 0. -/
def NoForeignZero (rows : ι → List (Fin n)) (s : Net ι) (i : ι) (fresh : List (ι × ℕ)) : Prop :=
  ∀ e ∈ fresh, (s.pubs e.1)[e.2]? = some (s.proc e.1).getInitPublishValues →
    rows e.1 = [] ∨ 0 ∈ (rows e.1).map Fin.val ∨ 0 ∈ (rows i).map Fin.val

/-- The overwrites of an update, pair by pair. -/
theorem mem_overwrites {s t : Net ι} {i : ι} {fresh : List (ι × ℕ)} (h : step s (.update i fresh) = some t)
    (o : ι × ℕ) : o ∈ overwrites s i fresh ↔
      ∃ e ∈ fresh, e.1 = o.1 ∧ ∃ msg, (s.pubs e.1)[e.2]? = some msg ∧
        ∃ k < msg.length / 2, overwritten msg (s.proc i) k = some o.2 := by
  simp only [step, Option.map_eq_some_iff] at h
  obtain ⟨vs, hvs, -⟩ := h
  unfold overwrites
  rw [hvs]
  dsimp only
  rw [mem_traceUpdate]
  constructor
  · intro hmsg
    obtain ⟨msg, hmem, k, hk, hc, ho⟩ := hmsg
    obtain ⟨e, he, hj, hp⟩ := (mem_fetch hvs msg).mp hmem
    exact ⟨e, he, hj.trans ho, msg.2, hp, k, hk, hc⟩
  · intro he
    obtain ⟨e, he, hj, msg, hp, k, hk, hc⟩ := he
    exact ⟨(e.1, msg), (mem_fetch hvs (e.1, msg)).mpr ⟨e, he, rfl, hp⟩, k, hk, hc, hj⟩

/-- The update is the one whose overwrites are listed. -/
theorem update_traced {s t : Net ι} {i : ι} {fresh : List (ι × ℕ)} (h : step s (.update i fresh) = some t) :
    ∃ vs, fetch s.pubs fresh = some vs ∧
      t.proc i = (traceUpdate (s.proc i) ((fresh.map Prod.fst).zip vs)).1 := by
  simp only [step, Option.map_eq_some_iff] at h
  obtain ⟨vs, hvs, rfl⟩ := h
  refine ⟨vs, hvs, ?_⟩
  rw [traceUpdate_fst, List.map_snd_zip (by rw [List.length_map, fetch_length hvs])]
  exact Function.update_self ..

theorem fromOwners_iff {s t : Net ι} {i : ι} {fresh : List (ι × ℕ)} (hI : Origins rows s)
    (h : step s (.update i fresh) = some t) : FromOwners rows s i fresh ↔ NoForeignZero rows s i fresh := by
  constructor
  · intro howned e he hinit
    obtain ⟨hlen, hzero⟩ := init_index (hI.proc e.1)
    by_cases hi : 0 ∈ (rows i).map Fin.val
    · exact .inr (.inr hi)
    by_cases hnil : rows e.1 = []
    · exact .inl hnil
    -- the first pair is for component 0
    have hover := overwritten_eq (hI.proc i) (hzero (0 * 2))
    rw [if_neg hi] at hover
    have hpos : 0 < (s.proc e.1).getInitPublishValues.length / 2 := by
      rw [hlen]
      exact List.length_pos_of_ne_nil hnil
    exact .inr (.inl (howned (e.1, 0) ((mem_overwrites h _).mpr ⟨e, he, rfl, _, hinit, 0, hpos, hover⟩)).1)
  · intro hcond o ho
    obtain ⟨e, he, hj, msg, hp, k, hk, hc⟩ := (mem_overwrites h o).mp ho
    rw [← hj]
    rcases hI.pubs e.1 msg (List.mem_of_getElem? hp) with rfl | hown
    · obtain ⟨hlen, hzero⟩ := init_index (hI.proc e.1)
      rw [overwritten_eq (hI.proc i) (hzero (k * 2))] at hc
      split at hc
      · cases hc
      · rename_i hi
        rw [Option.some.injEq] at hc
        rw [← hc]
        refine ⟨?_, hi⟩
        rcases hcond e he hp with hnil | hrow | hrow
        · rw [hlen, hnil] at hk
          cases hk
        · exact hrow
        · exact absurd hrow hi
    · rw [hown.length] at hk
      have hkl : k < (rows e.1).length := by omega
      have hindex := hown.index k (rows e.1)[k] (List.getElem?_eq_getElem hkl)
      rw [overwritten_eq (hI.proc i) hindex] at hc
      split at hc
      · cases hc
      · rename_i hi
        rw [Option.some.injEq] at hc
        rw [← hc]
        exact ⟨List.mem_map_of_mem (List.getElem_mem hkl), hi⟩

end Runs

/-- **Components come from their owners exactly where no foreign zeros are
read.** In every run, an update overwrites components only with what was
published by a machine that computes them, and none that is its own, exactly
where it reads no initial values of an agent without row 0 for a component 0
that it does not compute itself. -/
theorem owned_iff {ι : Type*} [DecidableEq ι] {n : ℕ} (A : Matrix (Fin n) (Fin n) ℚ) (b : Fin n → ℚ)
    (rows : ι → List (Fin n)) (s t : Net ι) (h : (lts A b rows).Reachable s) (i : ι) (fresh : List (ι × ℕ))
    (hs : step s (.update i fresh) = some t) :
    FromOwners rows s i fresh ↔ NoForeignZero rows s i fresh :=
  fromOwners_iff (origins_inductive.reachable s h) hs

/-! ## One agent for each of three rows -/

def threeA : Matrix (Fin 3) (Fin 3) ℚ := fun i j => if i = j then 2 else 0

/-- The third agent reads the initial values of the second one. -/
theorem not_owned : ∃ s t : Net (Fin 3), (lts threeA (fun _ => 2) fun i => [i]).Reachable s ∧
    step s (.update 2 [(1, 0)]) = some t ∧ ¬ FromOwners (fun i : Fin 3 => [i]) s 2 [(1, 0)] := by
  obtain ⟨s, hx, t, ht, ho⟩ : ∃ s, LTS.exec step (init threeA (fun _ => 2) fun i => [i]) [.start 1] = some s ∧
      ∃ t, step s (.update 2 [(1, 0)]) = some t ∧ overwrites s 2 [(1, 0)] = [(1, 0)] := by
    refine ⟨_, rfl, _, rfl, ?_⟩
    decide +kernel
  refine ⟨s, t, LTS.reachable_of_exec rfl hx, ht, fun h => ?_⟩
  have hrow := (h (1, 0) (by rw [ho]; exact List.mem_singleton_self _)).1
  simp at hrow

/-- It reads what the second agent published next. -/
theorem owned_next : ∃ s t : Net (Fin 3), step s (.update 2 [(1, 1)]) = some t ∧
    overwrites s 2 [(1, 1)] = [(1, 1)] ∧ FromOwners (fun i : Fin 3 => [i]) s 2 [(1, 1)] := by
  obtain ⟨s, hx, t, ht, ho, hne⟩ :
      ∃ s, LTS.exec step (init threeA (fun _ => 2) fun i => [i]) [.start 1, .publish 1] = some s ∧
      ∃ t, step s (.update 2 [(1, 1)]) = some t ∧ overwrites s 2 [(1, 1)] = [(1, 1)] ∧
        (s.pubs 1)[1]? ≠ some (s.proc 1).getInitPublishValues := by
    refine ⟨_, rfl, _, rfl, ?_⟩
    decide +kernel
  have hr : (lts threeA (fun _ => 2) fun i => [i]).Reachable s := LTS.reachable_of_exec rfl hx
  refine ⟨s, t, ht, ho, (owned_iff threeA (fun _ => 2) _ s t hr 2 _ ht).mpr fun e he hinit => ?_⟩
  rw [List.mem_singleton] at he
  subst he
  exact absurd hinit hne

end Skywing.L4.Jacobi
