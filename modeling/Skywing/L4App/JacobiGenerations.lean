import Mathlib.Order.Lattice.Nat
import Skywing.Core.Windows
import Skywing.L4App.JacobiOwners

/-!
# Asynchronous Jacobi converges

`skywing_mid/jacobi_processor.hpp` on the network of `Jacobi`: agents run in
any order and read old publications. Each component of a vector and each pair
of a message is given a generation (`Gens`), by the schedule alone: no number
of the system enters. A sweep over the rows of an agent lifts them one
generation above the least of its vector; what is read brings along the
generation it was published with, so generations also go down.

* `error_generations`: whatever the schedule, what has generation `g` is off
  by at most `rho ^ g` times the error of the zero vector. The numeric network
  takes every step that the generations take, and no other.
* `converges`: where each agent publishes and reads an owner of each foreign
  row in every `B` steps, and reads nothing that is more than `B` steps old
  (`Paced`), all vectors gain a generation in `4 * B` steps, so that the error
  goes down geometrically. An agent with all the rows is excluded: it never
  sweeps again after its construction.
-/
namespace Skywing.L4.Jacobi

open JacobiProcessor

/-! ## Generations -/

section Schedule
variable {ι : Type*} {n : ℕ}

/-- A generation for each component of each vector, and for each pair of a
message, next to the row that it names. -/
structure Gens (ι : Type*) (n : ℕ) where
  comp : ι → Fin n → ℕ
  values : ι → List (Fin n × ℕ)
  pubs : ι → List (List (Fin n × ℕ))

/-- The rows of an agent, recomputed. -/
def sweep (part : List (Fin n)) (g : Fin n → ℕ) (r : Fin n) : ℕ :=
  if r ∈ part then Finset.univ.inf' ⟨r, Finset.mem_univ r⟩ g + 1 else g r

def readPair (part : List (Fin n)) (g : Fin n → ℕ) (pair : Fin n × ℕ) : Fin n → ℕ :=
  if pair.1 ∈ part then g else sweep part (Function.update g pair.1 pair.2)

def readAll (part : List (Fin n)) (g : Fin n → ℕ) (msgs : List (List (Fin n × ℕ))) : Fin n → ℕ :=
  msgs.foldl (fun g msg => msg.foldl (readPair part) g) g

namespace Gens
variable [DecidableEq ι] (rows : ι → List (Fin n))

/-- The initial values name component 0. -/
def init : Gens ι n where
  comp i := sweep (rows i) fun _ => 0
  values i := (rows i).map fun r => (⟨0, r.pos⟩, 0)
  pubs _ := []

def step (s : Gens ι n) : Lbl ι → Option (Gens ι n)
  | .start i => some { s with pubs := Function.update s.pubs i (s.pubs i ++ [s.values i]) }
  | .publish i =>
    let vals := (rows i).map fun r => (r, s.comp i r)
    some { s with
      values := Function.update s.values i vals
      pubs := Function.update s.pubs i (s.pubs i ++ [vals]) }
  | .update i fresh =>
    (fresh.mapM fun e => (s.pubs e.1)[e.2]?).map fun msgs =>
      { s with comp := Function.update s.comp i (readAll (rows i) (s.comp i) msgs) }

end Gens

end Schedule

/-! ## What a generation says of the error -/

section Bound
variable {n : ℕ} (A : Matrix (Fin n) (Fin n) ℚ) (b solution : Fin n → ℚ)

/-- The error allowed to what has generation `g`. -/
def bound (g : ℕ) : ℚ := rho A ^ g * largest fun r => |solution r|

def Aged (x : List ℚ) (g : Fin n → ℕ) : Prop := ∀ r, error solution x r ≤ bound A solution (g r)

/-- The pairs of a message name the rows, and are no further off than their
generations say. -/
structure Stamped (msg : List ℚ) (pairs : List (Fin n × ℕ)) : Prop where
  length : msg.length = 2 * pairs.length
  pair : ∀ (k : ℕ) (p : Fin n × ℕ), pairs[k]? = some p → msg.getD (k * 2) 0 = ((p.1 : ℕ) : ℚ) ∧
    |msg.getD (k * 2 + 1) 0 - solution p.1| ≤ bound A solution p.2

variable {A b solution} {part : List (Fin n)} {p : JacobiProcessor} {g : Fin n → ℕ}

theorem rho_nonneg : 0 ≤ rho A := largest_nonneg _

theorem bound_nonneg (k : ℕ) : 0 ≤ bound A solution k := mul_nonneg (pow_nonneg rho_nonneg k) (largest_nonneg _)

theorem bound_succ (k : ℕ) : bound A solution (k + 1) = rho A * bound A solution k := by
  unfold bound
  rw [pow_succ']
  exact mul_assoc _ _ _

theorem bound_anti (hdom : StrictlyDominant A) {k m : ℕ} (h : k ≤ m) : bound A solution m ≤ bound A solution k :=
  mul_le_mul_of_nonneg_right (pow_le_pow_of_le_one rho_nonneg (rho_lt_one hdom).le h) (largest_nonneg _)

theorem recompute_loop_other (h : Part A b part p) {r : Fin n} (hr : r ∉ part) : ∀ k, k ≤ part.length →
    Part A b part ((List.range k).foldl recompute p) ∧
      error solution ((List.range k).foldl recompute p).xIter r = error solution p.xIter r
  | 0, _ => ⟨h, rfl⟩
  | k + 1, hk => by
    obtain ⟨hq, he⟩ := recompute_loop_other h hr k (by omega)
    rw [List.range_succ, List.foldl_append]
    have hpart : part[k]? = some part[k] := List.getElem?_eq_getElem hk
    show Part A b part (recompute _ k) ∧ error solution (recompute _ k).xIter r = _
    rw [hq.recompute hpart]
    refine ⟨hq.set _ _, ?_⟩
    rw [← he, error, error, getD_set, if_neg]
    intro hrk
    exact hr (Fin.ext hrk.1 ▸ List.getElem_mem hk)

/-- A sweep. -/
theorem Aged.sweep (hdom : StrictlyDominant A) (hsol : A.mulVec solution = b) (h : Part A b part p)
    (hg : Aged A solution p.xIter g) :
    Part A b part (jacobiComputation p) ∧ Aged A solution (jacobiComputation p).xIter (Jacobi.sweep part g) := by
  have hpart : Part A b part (jacobiComputation p) :=
    (jacobiComputation_part hdom hsol (largest_nonneg (error solution p.xIter)) h within_largest).1
  refine ⟨hpart, fun r => ?_⟩
  unfold Jacobi.sweep
  split
  · rename_i hr
    have hmax : largest (error solution p.xIter) ≤ bound A solution (Finset.univ.inf' ⟨r, Finset.mem_univ r⟩ g) :=
      largest_le (bound_nonneg _) fun j =>
        (hg j).trans (bound_anti hdom (Finset.inf'_le g (Finset.mem_univ j)))
    rw [bound_succ]
    exact (jacobiComputation_rho hdom hsol h hr).trans (mul_le_mul_of_nonneg_left hmax rho_nonneg)
  · rename_i hr
    have hsame : error solution ((List.range part.length).foldl recompute p).xIter r = error solution p.xIter r :=
      (recompute_loop_other h hr part.length le_rfl).2
    unfold jacobiComputation
    rw [h.count, hsame]
    exact hg r

/-- A component is overwritten. -/
theorem Aged.set (hg : Aged A solution p.xIter g) {r : Fin n} {v : ℚ} {k : ℕ}
    (hv : |v - solution r| ≤ bound A solution k) (hlen : (r : ℕ) < p.xIter.length) :
    Aged A solution (p.xIter.set r v) (Function.update g r k) := by
  intro j
  unfold error
  rw [getD_set]
  by_cases hj : j = r
  · subst hj
    rw [if_pos ⟨rfl, hlen⟩, Function.update_self]
    exact hv
  · rw [if_neg fun he => hj (Fin.ext he.1.symm), Function.update_of_ne hj]
    exact hg j

theorem Part.computes (h : Part A b part p) : Computes part p := ⟨h.rowIndices, h.count⟩

/-- The vector of an agent with a row has all the components. -/
theorem Part.lt_length (h : Part A b part p) (hne : part ≠ []) (r : Fin n) : (r : ℕ) < p.xIter.length := by
  cases part with
  | nil => exact absurd rfl hne
  | cons r₀ part =>
    rw [h.length, h.size (i := 0) (r := r₀) rfl]
    exact r.isLt

/-! ## An update -/

/-- What holds of an agent between its steps. -/
structure AgedNode (A : Matrix (Fin n) (Fin n) ℚ) (b solution : Fin n → ℚ) (part : List (Fin n))
    (p : JacobiProcessor) (g : Fin n → ℕ) : Prop extends Part A b part p where
  aged : Aged A solution p.xIter g

theorem AgedNode.sweep (hdom : StrictlyDominant A) (hsol : A.mulVec solution = b)
    (h : AgedNode A b solution part p g) :
    AgedNode A b solution part (jacobiComputation p) (Jacobi.sweep part g) := by
  obtain ⟨hpart, haged⟩ := h.aged.sweep hdom hsol h.toPart
  exact ⟨hpart, haged⟩

theorem AgedNode.processPair (hdom : StrictlyDominant A) (hsol : A.mulVec solution = b) (hne : part ≠ [])
    (h : AgedNode A b solution part p g) {msg : List ℚ} {pairs : List (Fin n × ℕ)}
    (hm : Stamped A solution msg pairs) {k : ℕ} {pair : Fin n × ℕ} (hk : pairs[k]? = some pair) :
    AgedNode A b solution part (processPair msg p k) (readPair part g pair) := by
  obtain ⟨hindex, hvalue⟩ := hm.pair k pair hk
  rw [processPair_eq, overwritten_eq h.toPart.computes hindex, readPair]
  by_cases hown : pair.1 ∈ part
  · rw [if_pos (List.mem_map_of_mem hown), if_pos hown]
    exact h
  · have hnot : (pair.1 : ℕ) ∉ part.map Fin.val := by
      rwa [List.mem_map_of_injective Fin.val_injective]
    rw [if_neg hnot, if_neg hown]
    refine AgedNode.sweep hdom hsol ⟨h.toPart.set _ _, ?_⟩
    exact h.aged.set hvalue (h.toPart.lt_length hne pair.1)

/-- The pairs of one message. -/
theorem AgedNode.processMessage (hdom : StrictlyDominant A) (hsol : A.mulVec solution = b) (hne : part ≠ [])
    (h : AgedNode A b solution part p g) {msg : List ℚ} {pairs : List (Fin n × ℕ)}
    (hm : Stamped A solution msg pairs) :
    AgedNode A b solution part ((List.range (msg.length / 2)).foldl (JacobiProcessor.processPair msg) p)
      (pairs.foldl (readPair part) g) := by
  have hloop : ∀ k, k ≤ pairs.length → AgedNode A b solution part
      ((List.range k).foldl (JacobiProcessor.processPair msg) p) ((pairs.take k).foldl (readPair part) g) := by
    intro k
    induction k with
    | zero => exact fun _ => h
    | succ k ih =>
      intro hk
      have hpair : pairs[k]? = some pairs[k] := List.getElem?_eq_getElem hk
      rw [List.range_succ, List.foldl_append, List.take_add_one, hpair, Option.toList_some, List.foldl_append]
      exact (ih (by omega)).processPair hdom hsol hne hm hpair
  have hall := hloop pairs.length le_rfl
  rw [List.take_length] at hall
  rw [hm.length, Nat.mul_div_cancel_left _ two_pos]
  exact hall

theorem AgedNode.processUpdate (hdom : StrictlyDominant A) (hsol : A.mulVec solution = b) (hne : part ≠ [])
    {nbrValues : List (List ℚ)} {msgs : List (List (Fin n × ℕ))}
    (hm : List.Forall₂ (Stamped A solution) nbrValues msgs) (h : AgedNode A b solution part p g) :
    AgedNode A b solution part (p.processUpdate nbrValues) (readAll part g msgs) := by
  unfold JacobiProcessor.processUpdate readAll
  induction hm generalizing p g with
  | nil => exact h
  | cons hmsg _ ih => exact ih (h.processMessage hdom hsol hne hmsg)

/-! ## What is published -/

theorem stamped_init (h : Part A b part p) :
    Stamped A solution p.getInitPublishValues (part.map fun r => (⟨0, r.pos⟩, 0)) := by
  have hzero (i : ℕ) : p.getInitPublishValues.getD i 0 = 0 := by
    unfold getInitPublishValues
    rw [List.getD_eq_getElem?_getD, List.getElem?_replicate]
    split <;> rfl
  refine ⟨?_, fun k pair hk => ?_⟩
  · rw [getInitPublishValues, List.length_replicate, List.length_map, h.count]
  · rw [List.getElem?_map] at hk
    obtain ⟨r, -, rfl⟩ := Option.map_eq_some_iff.mp hk
    refine ⟨(hzero _).trans Nat.cast_zero.symm, ?_⟩
    rw [hzero, zero_sub, abs_neg, bound, pow_zero, one_mul]
    exact le_largest (fun r => |solution r|) _

theorem putPair_value (h : Computes part p) {vals : List ℚ} (hl : vals.length = 2 * part.length) {i : ℕ}
    (hi : i < part.length) (k : ℕ) :
    (putPair p vals i).getD (k * 2 + 1) 0 =
      if k = i then p.xIter.getD (part[i] : ℕ) 0 else vals.getD (k * 2 + 1) 0 := by
  have hindex : p.rowIndices.getD i 0 = part[i] := by
    rw [h.rowIndices, List.getD_eq_getElem _ _ (by rwa [List.length_map]), List.getElem_map]
  unfold putPair
  dsimp only
  rw [hindex, getD_set, getD_set, List.length_set]
  by_cases hik : k = i
  · rw [if_pos ⟨by omega, by omega⟩, if_pos hik]
  · rw [if_neg (by omega), if_neg (by omega), if_neg hik]

theorem prepareForPublication_value (h : Computes part p) {vals : List ℚ} (hl : vals.length = 2 * part.length)
    {k : ℕ} {r : Fin n} (hr : part[k]? = some r) :
    (p.prepareForPublication vals).getD (k * 2 + 1) 0 = p.xIter.getD r 0 := by
  have hloop : ∀ m, m ≤ part.length → ((List.range m).foldl (putPair p) vals).length = 2 * part.length ∧
      (k < m → ((List.range m).foldl (putPair p) vals).getD (k * 2 + 1) 0 = p.xIter.getD r 0) := by
    intro m
    induction m with
    | zero => exact fun _ => ⟨hl, nofun⟩
    | succ m ih =>
      intro hm
      obtain ⟨hlen, hdone⟩ := ih (by omega)
      rw [List.range_succ, List.foldl_append]
      refine ⟨?_, fun hk => ?_⟩
      · show (putPair p _ m).length = _
        simpa [putPair] using hlen
      · show (putPair p _ m).getD (k * 2 + 1) 0 = _
        rw [putPair_value h hlen hm k]
        split
        · rename_i hkm
          subst hkm
          rw [List.getElem?_eq_getElem hm, Option.some.injEq] at hr
          rw [hr]
        · exact hdone (by omega)
  unfold prepareForPublication
  rw [h.count]
  exact (hloop part.length le_rfl).2 (List.getElem?_eq_some_iff.mp hr).1

theorem stamped_publish (h : AgedNode A b solution part p g) {vals : List ℚ} (hl : vals.length = 2 * part.length) :
    Stamped A solution (p.prepareForPublication vals) (part.map fun r => (r, g r)) := by
  have howned := prepareForPublication_owned h.toPart.computes hl
  refine ⟨?_, fun k pair hk => ?_⟩
  · rw [howned.length, List.length_map]
  · rw [List.getElem?_map] at hk
    obtain ⟨r, hr, rfl⟩ := Option.map_eq_some_iff.mp hk
    refine ⟨howned.index k r hr, ?_⟩
    rw [prepareForPublication_value h.toPart.computes hl hr]
    exact h.aged r

end Bound

/-! ## Runs -/

section Runs
variable {ι : Type*} {n : ℕ} (A : Matrix (Fin n) (Fin n) ℚ) (b solution : Fin n → ℚ) (rows : ι → List (Fin n))

/-- The numeric network is as its generations say. -/
structure Matches (s : Net ι) (g : Gens ι n) : Prop where
  node : ∀ i, AgedNode A b solution (rows i) (s.proc i) (g.comp i)
  values : ∀ i, Stamped A solution (s.publishValues i) (g.values i) ∧ (g.values i).length = (rows i).length
  pubs : ∀ i, List.Forall₂ (Stamped A solution) (s.pubs i) (g.pubs i)

variable {A b solution rows}

theorem forall₂_getElem? {α β : Type*} {R : α → β → Prop} {xs : List α} {ys : List β} (h : List.Forall₂ R xs ys)
    (k : ℕ) : Option.Rel R xs[k]? ys[k]? := by
  induction h generalizing k with
  | nil => exact .none
  | cons hxy _ ih =>
    cases k with
    | zero => exact .some hxy
    | succ k => exact ih k

/-- The messages that an update finds. -/
theorem fetch_rel {pubs : ι → List (List ℚ)} {gens : ι → List (List (Fin n × ℕ))}
    (h : ∀ i, List.Forall₂ (Stamped A solution) (pubs i) (gens i)) (fresh : List (ι × ℕ)) :
    Option.Rel (List.Forall₂ (Stamped A solution)) (fetch pubs fresh) (fresh.mapM fun e => (gens e.1)[e.2]?) := by
  induction fresh with
  | nil => exact .some .nil
  | cons e fresh ih =>
    obtain ⟨j, k⟩ := e
    rw [fetch, List.mapM_cons]
    show Option.Rel _ _ (((gens j)[k]?).bind fun pairs => (fresh.mapM fun e => (gens e.1)[e.2]?).bind fun rest =>
      some (pairs :: rest))
    have hmsg := forall₂_getElem? (h j) k
    generalize (pubs j)[k]? = v, (gens j)[k]? = pairs, fetch pubs fresh = vs,
      fresh.mapM (fun e => (gens e.1)[e.2]?) = rest at hmsg ih ⊢
    cases hmsg with
    | none => exact .none
    | some hmsg =>
      cases ih with
      | none => exact .none
      | some hrest => exact .some (.cons hmsg hrest)

variable [DecidableEq ι]

theorem forall₂_log {α β : Type*} {R : α → β → Prop} {xs : ι → List α} {ys : ι → List β}
    (h : ∀ i, List.Forall₂ R (xs i) (ys i)) {i : ι} {x : α} {y : β} (hxy : R x y) (j : ι) :
    List.Forall₂ R (Function.update xs i (xs i ++ [x]) j) (Function.update ys i (ys i ++ [y]) j) := by
  by_cases hji : j = i
  · subst hji
    rw [Function.update_self, Function.update_self]
    exact List.rel_append (h j) (.cons hxy .nil)
  · rw [Function.update_of_ne hji, Function.update_of_ne hji]
    exact h j

omit [DecidableEq ι] in
theorem matches_init (hdom : StrictlyDominant A) (hsol : A.mulVec solution = b) :
    Matches A b solution rows (init A b rows) (Gens.init rows) where
  node i := by
    have hzero : AgedNode A b solution (rows i)
        { aPartition := (rows i).map fun r => List.ofFn (A r)
          bPartition := (rows i).map b
          rowIndices := (rows i).map Fin.val
          numberOfUpdatedComponents := ((rows i).map Fin.val).length
          xIter := List.replicate (((rows i).map fun r => List.ofFn (A r)).headD []).length 0 } (fun _ => 0) := by
      refine ⟨⟨rfl, rfl, rfl, List.length_map .., List.length_replicate⟩, fun r => ?_⟩
      rw [bound, pow_zero, one_mul]
      exact within_zero _ r
    exact hzero.sweep hdom hsol
  values i := by
    exact ⟨stamped_init ((inv_init hdom hsol).node i).toPart, List.length_map ..⟩
  pubs _ := .nil

/-- A step of the network is a step of the generations. -/
theorem matches_step (hdom : StrictlyDominant A) (hsol : A.mulVec solution = b) (hne : ∀ i, rows i ≠ []) {s : Net ι}
    {g : Gens ι n} (h : Matches A b solution rows s g) (l : Lbl ι) :
    Option.Rel (Matches A b solution rows) (step s l) (g.step rows l) := by
  cases l with
  | start i => exact .some ⟨h.node, h.values, forall₂_log h.pubs (h.values i).1⟩
  | publish i =>
    have hlen : (s.publishValues i).length = 2 * (rows i).length := by
      rw [(h.values i).1.length, (h.values i).2]
    have hpub := stamped_publish (h.node i) hlen
    refine .some ⟨h.node, fun j => ?_, forall₂_log h.pubs hpub⟩
    show Stamped A solution (Function.update s.publishValues i _ j) (Function.update g.values i _ j) ∧
      (Function.update g.values i _ j).length = _
    by_cases hji : j = i
    · subst hji
      rw [Function.update_self, Function.update_self]
      exact ⟨hpub, List.length_map ..⟩
    · rw [Function.update_of_ne hji, Function.update_of_ne hji]
      exact h.values j
  | update i fresh =>
    simp only [step, Gens.step]
    have hrel := fetch_rel h.pubs fresh
    generalize fetch s.pubs fresh = vs, fresh.mapM (fun e => (g.pubs e.1)[e.2]?) = msgs at hrel ⊢
    cases hrel with
    | none => exact .none
    | some hm =>
      refine .some ⟨fun j => ?_, h.values, h.pubs⟩
      show AgedNode A b solution (rows j) (Function.update s.proc i _ j) (Function.update g.comp i _ j)
      by_cases hji : j = i
      · subst hji
        rw [Function.update_self, Function.update_self]
        exact (h.node j).processUpdate hdom hsol (hne j) hm
      · rw [Function.update_of_ne hji, Function.update_of_ne hji]
        exact h.node j

theorem matches_exec (hdom : StrictlyDominant A) (hsol : A.mulVec solution = b) (hne : ∀ i, rows i ≠ [])
    (ls : List (Lbl ι)) : ∀ {s : Net ι} {g : Gens ι n}, Matches A b solution rows s g →
    Option.Rel (Matches A b solution rows) (LTS.exec step s ls) (LTS.exec (Gens.step rows) g ls) := by
  induction ls with
  | nil => exact fun h => .some h
  | cons l ls ih =>
    intro s g h
    rw [LTS.exec, LTS.exec]
    have hrel := matches_step hdom hsol hne h l
    generalize step s l = t, g.step rows l = t' at hrel ⊢
    cases hrel with
    | none => exact .none
    | some ht => exact ih ht

end Runs

section Pace
variable {ι : Type*} [DecidableEq ι] {n : ℕ}

/-- How often `j` publishes. -/
def published (j : ι) (ls : List (Lbl ι)) : ℕ :=
  ls.countP fun
    | .start i | .publish i => decide (i = j)
    | .update _ _ => false

/-- In every `B` steps each agent publishes and reads an owner of each foreign
row, and what is read was published in the last `B` steps. -/
structure Paced (rows : ι → List (Fin n)) (B : ℕ) (ls : List (Lbl ι)) : Prop where
  publishes : ∀ i T, T + B ≤ ls.length → ∃ k, T ≤ k ∧ k < T + B ∧ ls[k]? = some (.publish i)
  reads : ∀ i r, r ∉ rows i → ∀ T, T + B ≤ ls.length →
    ∃ k fresh, T ≤ k ∧ k < T + B ∧ ls[k]? = some (.update i fresh) ∧ ∃ e ∈ fresh, r ∈ rows e.1
  current : ∀ k i fresh, ls[k]? = some (.update i fresh) → ∀ e ∈ fresh, published e.1 (ls.take (k - B)) ≤ e.2

end Pace

/-! ## What an update does to the generations -/

section Update
variable {n : ℕ} {part : List (Fin n)} {g : Fin n → ℕ} {m : ℕ}

theorem le_sweep (h : ∀ r, m ≤ g r) (r : Fin n) : m ≤ sweep part g r := by
  unfold sweep
  split
  · exact Nat.le_succ_of_le ((Finset.le_inf'_iff _ _).mpr fun j _ => h j)
  · exact h r

theorem lt_sweep (h : ∀ r, m ≤ g r) {r : Fin n} (hr : r ∈ part) : m + 1 ≤ sweep part g r := by
  rw [sweep, if_pos hr]
  exact Nat.succ_le_succ ((Finset.le_inf'_iff _ _).mpr fun j _ => h j)

theorem sweep_foreign {r : Fin n} (hr : r ∉ part) : sweep part g r = g r := if_neg hr

theorem le_update {pair : Fin n × ℕ} (h : ∀ r, m ≤ g r) (hp : m ≤ pair.2) (r : Fin n) :
    m ≤ Function.update g pair.1 pair.2 r := by
  by_cases hr : r = pair.1
  · rw [hr, Function.update_self]
    exact hp
  · rw [Function.update_of_ne hr]
    exact h r

/-- What has been read is above `m`, and so is everything then. -/
theorem le_readPair {pair : Fin n × ℕ} (h : ∀ r, m ≤ g r) (hp : m ≤ pair.2) (r : Fin n) :
    m ≤ readPair part g pair r := by
  unfold readPair
  split
  · exact h r
  · exact le_sweep (le_update h hp) r

/-- A pair of a foreign row brings a sweep. -/
theorem lt_readPair {pair : Fin n × ℕ} (h : ∀ r, m ≤ g r) (hp : m ≤ pair.2)
    (hnew : pair.1 ∉ part ∨ ∀ r ∈ part, m + 1 ≤ g r) : ∀ r ∈ part, m + 1 ≤ readPair part g pair r := by
  intro r hr
  unfold readPair
  split
  · rename_i hown
    exact hnew.resolve_left (not_not.mpr hown) r hr
  · exact lt_sweep (le_update h hp) hr

/-- A foreign component comes from the pair that names it. -/
theorem le_readPair_foreign {pair : Fin n × ℕ} {r : Fin n} (hr : r ∉ part) (hp : m ≤ pair.2)
    (h : pair.1 = r ∨ m ≤ g r) : m ≤ readPair part g pair r := by
  unfold readPair
  split
  · rename_i hown
    exact h.resolve_left fun he => hr (he ▸ hown)
  · rw [sweep_foreign hr]
    by_cases he : r = pair.1
    · rw [he, Function.update_self]
      exact hp
    · rw [Function.update_of_ne he]
      exact h.resolve_left (Ne.symm he)

theorem foldl_keeps {α β : Type*} {f : β → α → β} {P : β → Prop} {l : List α} (h : ∀ a ∈ l, ∀ b, P b → P (f b a)) :
    ∀ {b : β}, P b → P (l.foldl f b) := by
  induction l with
  | nil => exact fun hb => hb
  | cons a l ih =>
    intro b hb
    obtain ⟨ha, hl⟩ := List.forall_mem_cons.mp h
    exact ih hl (ha b hb)

theorem foldl_reaches {α β : Type*} {f : β → α → β} {P Q : β → Prop} {l : List α} {a : α} (ha : a ∈ l)
    (hP : ∀ x ∈ l, ∀ b, P b → P (f b x)) (hget : ∀ b, P b → Q (f b a)) (hQ : ∀ x ∈ l, ∀ b, P b → Q b → Q (f b x))
    {b : β} (hb : P b) : Q (l.foldl f b) := by
  obtain ⟨l₁, l₂, rfl⟩ := List.append_of_mem ha
  rw [List.foldl_append, List.foldl_cons]
  have h₁ : P (l₁.foldl f b) := foldl_keeps (fun x hx => hP x (List.mem_append_left _ hx)) hb
  have h₂ : ∀ x ∈ l₂, ∀ b, P b ∧ Q b → P (f b x) ∧ Q (f b x) := fun x hx b hb =>
    have hmem : x ∈ l₁ ++ a :: l₂ := List.mem_append_right _ (List.mem_cons_of_mem _ hx)
    ⟨hP x hmem b hb.1, hQ x hmem b hb.1 hb.2⟩
  exact (foldl_keeps h₂ ⟨hP a ha _ h₁, hget _ h₁⟩).2

variable {msgs : List (List (Fin n × ℕ))}

theorem readAll_eq : readAll part g msgs = msgs.flatten.foldl (readPair part) g := by
  rw [List.foldl_flatten]
  rfl

theorem lt_readAll (h : ∀ r, m ≤ g r) (hp : ∀ msg ∈ msgs, ∀ pair ∈ msg, m ≤ pair.2)
    (hnew : (∃ msg ∈ msgs, ∃ pair ∈ msg, pair.1 ∉ part) ∨ ∀ r ∈ part, m + 1 ≤ g r) :
    ∀ r ∈ part, m + 1 ≤ readAll part g msgs r := by
  have hpairs : ∀ pair ∈ msgs.flatten, m ≤ pair.2 := by
    intro pair hpair
    obtain ⟨msg, hmsg, hmem⟩ := List.mem_flatten.mp hpair
    exact hp msg hmsg pair hmem
  rw [readAll_eq]
  rcases hnew with ⟨msg, hmsg, pair, hmem, hforeign⟩ | hown
  · exact foldl_reaches (P := fun g : Fin n → ℕ => ∀ r, m ≤ g r) (Q := fun g : Fin n → ℕ => ∀ r ∈ part, m + 1 ≤ g r)
      (List.mem_flatten.mpr ⟨msg, hmsg, hmem⟩) (fun x hx g hg => le_readPair hg (hpairs x hx))
      (fun g hg => lt_readPair hg (hp msg hmsg pair hmem) (.inl hforeign))
      (fun x hx g hg hown => lt_readPair hg (hpairs x hx) (.inr hown)) h
  · exact (foldl_keeps (P := fun g : Fin n → ℕ => (∀ r, m ≤ g r) ∧ ∀ r ∈ part, m + 1 ≤ g r)
      (fun x hx g hg => ⟨le_readPair hg.1 (hpairs x hx), lt_readPair hg.1 (hpairs x hx) (.inr hg.2)⟩) ⟨h, hown⟩).2

theorem le_readAll_foreign {r : Fin n} (hr : r ∉ part) (hp : ∀ msg ∈ msgs, ∀ pair ∈ msg, m ≤ pair.2)
    (hnew : (∃ msg ∈ msgs, ∃ pair ∈ msg, pair.1 = r) ∨ m ≤ g r) : m ≤ readAll part g msgs r := by
  have hpairs : ∀ pair ∈ msgs.flatten, m ≤ pair.2 := by
    intro pair hpair
    obtain ⟨msg, hmsg, hmem⟩ := List.mem_flatten.mp hpair
    exact hp msg hmsg pair hmem
  rw [readAll_eq]
  rcases hnew with ⟨msg, hmsg, pair, hmem, hname⟩ | hold
  · exact foldl_reaches (P := fun _ => True) (Q := fun g : Fin n → ℕ => m ≤ g r)
      (List.mem_flatten.mpr ⟨msg, hmsg, hmem⟩)
      (fun _ _ _ _ => trivial) (fun g _ => le_readPair_foreign hr (hp msg hmsg pair hmem) (.inl hname))
      (fun x hx g _ hg => le_readPair_foreign hr (hpairs x hx) (.inr hg)) trivial
  · exact foldl_keeps (P := fun g : Fin n → ℕ => m ≤ g r)
      (fun x hx g hg => le_readPair_foreign hr (hpairs x hx) (.inr hg)) hold

end Update

/-! ## Generations grow -/

section Growth
variable {ι : Type*} [DecidableEq ι] {n : ℕ} {rows : ι → List (Fin n)} {B : ℕ} {ls : List (Lbl ι)} {g g' : Gens ι n}

/-- What `i` has published since the first `cut i` publications, and is about
to republish. -/
structure Since (cut : ι → ℕ) (P : ι → List (Fin n × ℕ) → Prop) (g : Gens ι n) : Prop where
  values : ∀ i, P i (g.values i)
  pubs : ∀ j m msg, cut j ≤ m → (g.pubs j)[m]? = some msg → P j msg

omit [DecidableEq ι] in
theorem Since.mono {cut cut' : ι → ℕ} {P : ι → List (Fin n × ℕ) → Prop} (h : Since cut P g)
    (hc : ∀ j, cut j ≤ cut' j) : Since cut' P g := ⟨h.values, fun j m msg hm => h.pubs j m msg ((hc j).trans hm)⟩

theorem getElem?_log {α : Type*} {log : ι → List α} {P : ι → α → Prop} {cut : ι → ℕ}
    (h : ∀ j m x, cut j ≤ m → (log j)[m]? = some x → P j x) {i : ι} {y : α} (hy : P i y) :
    ∀ j m x, cut j ≤ m → (Function.update log i (log i ++ [y]) j)[m]? = some x → P j x := by
  intro j m x hm hx
  by_cases hji : j = i
  · subst hji
    rw [Function.update_self] at hx
    by_cases hlt : m < (log j).length
    · rw [List.getElem?_append_left hlt] at hx
      exact h j m x hm hx
    · rw [List.getElem?_append_right (by omega), List.getElem?_singleton] at hx
      split at hx
      · cases hx
        exact hy
      · cases hx
  · rw [Function.update_of_ne hji] at hx
    exact h j m x hm hx

theorem values_step {P : List (Fin n × ℕ) → Prop} {l : Lbl ι} {i : ι} (hs : g.step rows l = some g')
    (h : P (g.values i)) (hpub : l = .publish i → P ((rows i).map fun r => (r, g.comp i r))) : P (g'.values i) := by
  cases l with
  | start j =>
    cases hs
    exact h
  | publish j =>
    cases hs
    show P (Function.update g.values j _ i)
    by_cases hij : i = j
    · subst hij
      rw [Function.update_self]
      exact hpub rfl
    · rw [Function.update_of_ne hij]
      exact h
  | update j fresh =>
    obtain ⟨msgs, -, rfl⟩ := Option.map_eq_some_iff.mp hs
    exact h

/-- Publications that are made in a step. -/
theorem Since.step {cut : ι → ℕ} {P : ι → List (Fin n × ℕ) → Prop} (h : Since cut P g) {l : Lbl ι}
    (hs : g.step rows l = some g') (hpub : ∀ i, l = .publish i → P i ((rows i).map fun r => (r, g.comp i r))) :
    Since cut P g' := by
  refine ⟨fun i => values_step hs (h.values i) (hpub i), ?_⟩
  cases l with
  | start i =>
    cases hs
    exact getElem?_log h.pubs (h.values i)
  | publish i =>
    cases hs
    exact getElem?_log h.pubs (hpub i rfl)
  | update i fresh =>
    obtain ⟨msgs, -, rfl⟩ := Option.map_eq_some_iff.mp hs
    exact h.pubs

theorem mapM_mem {α β : Type*} {f : α → Option β} : ∀ {xs : List α} {ys : List β}, xs.mapM f = some ys →
    (∀ y ∈ ys, ∃ x ∈ xs, f x = some y) ∧ ∀ x ∈ xs, ∃ y ∈ ys, f x = some y := by
  intro xs
  induction xs with
  | nil =>
    intro ys h
    cases h
    exact ⟨nofun, nofun⟩
  | cons x xs ih =>
    intro ys h
    rw [List.mapM_cons] at h
    obtain ⟨y, hy, h⟩ := Option.bind_eq_some_iff.mp h
    obtain ⟨ys', hys, h⟩ := Option.bind_eq_some_iff.mp h
    cases h
    obtain ⟨h₁, h₂⟩ := ih hys
    refine ⟨List.forall_mem_cons.mpr ⟨⟨x, List.mem_cons_self, hy⟩, fun y' hy' => ?_⟩,
      List.forall_mem_cons.mpr ⟨⟨y, List.mem_cons_self, hy⟩, fun x' hx' => ?_⟩⟩
    · obtain ⟨x', hx', he⟩ := h₁ y' hy'
      exact ⟨x', List.mem_cons_of_mem _ hx', he⟩
    · obtain ⟨y', hy', he⟩ := h₂ x' hx'
      exact ⟨y', List.mem_cons_of_mem _ hy', he⟩

theorem length_step {l : Lbl ι} (hs : g.step rows l = some g') (j : ι) :
    (g'.pubs j).length = (g.pubs j).length + published j [l] := by
  have hlog (i : ι) (msg : List (Fin n × ℕ)) : (Function.update g.pubs i (g.pubs i ++ [msg]) j).length =
      (g.pubs j).length + if i = j then 1 else 0 := by
    by_cases hij : i = j
    · subst hij
      rw [Function.update_self, List.length_append, if_pos rfl]
      rfl
    · rw [Function.update_of_ne (Ne.symm hij), if_neg hij]
      rfl
  cases l with
  | start i =>
    cases hs
    simpa [published, List.countP_singleton] using hlog i (g.values i)
  | publish i =>
    cases hs
    simpa [published, List.countP_singleton] using hlog i ((rows i).map fun r => (r, g.comp i r))
  | update i fresh =>
    obtain ⟨msgs, -, rfl⟩ := Option.map_eq_some_iff.mp hs
    rfl

theorem length_exec (j : ι) : ∀ (ls : List (Lbl ι)) {g g' : Gens ι n}, LTS.exec (Gens.step rows) g ls = some g' →
    (g'.pubs j).length = (g.pubs j).length + published j ls
  | [], g, g', h => by
    cases h
    rfl
  | l :: ls, g, g', h => by
    obtain ⟨u, hu, h⟩ := Option.bind_eq_some_iff.mp h
    have hcount : published j (l :: ls) = published j [l] + published j ls := by
      rw [← List.singleton_append, published, published, published, List.countP_append]
    rw [length_exec j ls h, length_step hu, hcount, Nat.add_assoc]

theorem published_mono (j : ι) {T T' : ℕ} (h : T ≤ T') : published j (ls.take T) ≤ published j (ls.take T') :=
  (List.take_sublist_take_left h).countP_le

/-- The messages that an update of the run finds are recent. -/
theorem update_found (hp : Paced rows B ls) {m : ℕ} {i : ι} {fresh : List (ι × ℕ)}
    (hl : ls[m]? = some (.update i fresh)) (hs : g.step rows (.update i fresh) = some g') :
    ∃ msgs, g' = { g with comp := Function.update g.comp i (readAll (rows i) (g.comp i) msgs) } ∧
      (∀ cut P, Since cut P g → (∀ j, cut j ≤ published j (ls.take (m - B))) → ∀ msg ∈ msgs, ∃ j, P j msg) ∧
      ∀ cut P, Since cut P g → (∀ j, cut j ≤ published j (ls.take (m - B))) → ∀ e ∈ fresh, ∃ msg ∈ msgs, P e.1 msg := by
  obtain ⟨msgs, hmsgs, rfl⟩ := Option.map_eq_some_iff.mp hs
  obtain ⟨hfrom, hto⟩ := mapM_mem hmsgs
  refine ⟨msgs, rfl, fun cut P hS hc msg hmsg => ?_, fun cut P hS hc e he => ?_⟩
  · obtain ⟨e, he, hget⟩ := hfrom msg hmsg
    exact ⟨e.1, hS.pubs e.1 e.2 msg ((hc e.1).trans (hp.current m i fresh hl e he)) hget⟩
  · obtain ⟨msg, hmsg, hget⟩ := hto e he
    exact ⟨msg, hmsg, hS.pubs e.1 e.2 msg ((hc e.1).trans (hp.current m i fresh hl e he)) hget⟩

/-- The agents other than the one that updates keep their generations. -/
theorem step_comp {l : Lbl ι} (hs : g.step rows l = some g') {i : ι} (hl : ∀ fresh, l ≠ .update i fresh) :
    g'.comp i = g.comp i := by
  cases l with
  | start j => cases hs; rfl
  | publish j => cases hs; rfl
  | update j fresh =>
    obtain ⟨msgs, -, rfl⟩ := Option.map_eq_some_iff.mp hs
    exact Function.update_of_ne (fun he => hl fresh (by rw [he])) _ _

/-- A step of the run after the `T`-th. -/
theorem keptFrom_comp {T : ℕ} {i : ι} {Q : (Fin n → ℕ) → Prop}
    (hup : ∀ m g g' fresh, T ≤ m → LTS.Visits (Gens.step rows) (Gens.init rows) ls m g →
      ls[m]? = some (.update i fresh) → g.step rows (.update i fresh) = some g' → Q (g.comp i) → Q (g'.comp i)) :
    LTS.KeptFrom (Gens.step rows) (Gens.init rows) ls T fun g => Q (g.comp i) := by
  intro m g l g' hm hg hl hs hQ
  by_cases hi : ∃ fresh, l = .update i fresh
  · obtain ⟨fresh, rfl⟩ := hi
    exact hup m g g' fresh hm hg hl hs hQ
  · rw [step_comp hs fun fresh he => hi ⟨fresh, he⟩]
    exact hQ

/-- What holds of everything that is published from `T` on, holds a window
later of what is republished too. -/
theorem since_of_publish (hp : Paced rows B ls) {T : ℕ} {P : ι → List (Fin n × ℕ) → Prop}
    (hpub : ∀ m g i, T ≤ m → LTS.Visits (Gens.step rows) (Gens.init rows) ls m g → ls[m]? = some (.publish i) →
      P i ((rows i).map fun r => (r, g.comp i r))) :
    LTS.HoldsFrom (Gens.step rows) (Gens.init rows) ls (T + B)
      (Since (fun j => published j (ls.take (T + B))) P) := by
  have hvalues : LTS.HoldsFrom (Gens.step rows) (Gens.init rows) ls (T + B) fun g => ∀ i, P i (g.values i) := by
    refine LTS.holdsFrom_forall.mpr fun i => LTS.holdsFrom_of_window (fun hlen => ?_) fun m g l g' hm hg hl hs hP => ?_
    · obtain ⟨m, hm, hlt, hl⟩ := hp.publishes i T hlen
      refine ⟨m, _, hm, hlt, hl, fun g g' hg hs => ?_⟩
      cases hs
      show P i (Function.update g.values i _ i)
      rw [Function.update_self]
      exact hpub m g i hm hg hl
    · exact values_step hs hP fun he => hpub m g i hm hg (he ▸ hl)
  refine LTS.holdsFrom_of_step (fun hlen g hg => ⟨hvalues _ g le_rfl hlen hg, fun j m msg hm hget => ?_⟩)
    fun m g l g' hm hg hl hs hS => ?_
  · have hlen := length_exec j _ hg
    have hinit : ((Gens.init rows : Gens ι n).pubs j).length = 0 := rfl
    have hlt := (List.getElem?_eq_some_iff.mp hget).1
    omega
  · exact hS.step hs fun i he => hpub m g i (Nat.le_trans (Nat.le_add_right T B) hm) hg (he ▸ hl)

/-- All generations are at least `k`, of old publications too as far as they
may still be read. -/
structure Level (ls : List (Lbl ι)) (T B k : ℕ) (g : Gens ι n) : Prop where
  comp : ∀ i r, k ≤ g.comp i r
  since : Since (fun j => published j (ls.take (T - B))) (fun _ msg => ∀ p ∈ msg, k ≤ p.2) g

/-- After the first window every publication names the rows of its agent. -/
theorem named_from (hp : Paced rows B ls) : LTS.HoldsFrom (Gens.step rows) (Gens.init rows) ls B
    (Since (fun j => published j (ls.take B)) fun j msg => msg.map Prod.fst = rows j) := by
  have h := since_of_publish (P := fun j msg => msg.map Prod.fst = rows j) hp (T := 0) fun _ _ i _ _ _ => by
    rw [List.map_map]
    exact List.map_id _
  rwa [Nat.zero_add] at h

/-- Each agent sweeps within a window. -/
theorem own_from (hp : Paced rows B ls) (hforeign : ∀ i, ∃ r, r ∉ rows i) {T k : ℕ} (hT : 2 * B ≤ T)
    (hL : LTS.HoldsFrom (Gens.step rows) (Gens.init rows) ls T (Level ls T B k)) :
    LTS.HoldsFrom (Gens.step rows) (Gens.init rows) ls (T + B) fun g => ∀ i, ∀ r ∈ rows i, k + 1 ≤ g.comp i r := by
  refine LTS.holdsFrom_forall.mpr fun i => LTS.holdsFrom_of_window (fun hlen => ?_)
    (keptFrom_comp (Q := fun c => ∀ r ∈ rows i, k + 1 ≤ c r) fun m g g' fresh hm hg hl hs hown => ?_)
  · obtain ⟨r, hr⟩ := hforeign i
    obtain ⟨m, fresh, hm, hlt, hl, e, he, hre⟩ := hp.reads i r hr T hlen
    refine ⟨m, _, hm, hlt, hl, fun g g' hg hs => ?_⟩
    have hmlen : m ≤ ls.length := by omega
    have hlevel := hL m g hm hmlen hg
    obtain ⟨msgs, rfl, hall, hread⟩ := update_found hp hl hs
    obtain ⟨msg, hmsg, hnames⟩ := hread _ _ (named_from hp m g (by omega) hmlen hg)
      (fun j => published_mono j (by omega)) e he
    obtain ⟨pair, hpair, rfl⟩ : ∃ pair ∈ msg, pair.1 = r := List.mem_map.mp (hnames ▸ hre)
    show ∀ r ∈ rows i, k + 1 ≤ Function.update g.comp i _ i r
    rw [Function.update_self]
    refine lt_readAll (hlevel.comp i) (fun msg hmsg => ?_) (.inl ⟨msg, hmsg, pair, hpair, hr⟩)
    obtain ⟨-, hgens⟩ := hall _ _ hlevel.since (fun j => published_mono j (by omega)) msg hmsg
    exact hgens
  · have hlevel := hL m g hm (List.getElem?_eq_some_iff.mp hl).1.le hg
    obtain ⟨msgs, rfl, hall, -⟩ := update_found hp hl hs
    show ∀ r ∈ rows i, k + 1 ≤ Function.update g.comp i _ i r
    rw [Function.update_self]
    refine lt_readAll (hlevel.comp i) (fun msg hmsg => ?_) (.inr hown)
    obtain ⟨-, hgens⟩ := hall _ _ hlevel.since (fun j => published_mono j (by omega)) msg hmsg
    exact hgens

theorem foreign_from (hp : Paced rows B ls) {T k : ℕ} (hT : 2 * B ≤ T)
    (hS : LTS.HoldsFrom (Gens.step rows) (Gens.init rows) ls T
      (Since (fun j => published j (ls.take T)) fun _ msg => ∀ p ∈ msg, k ≤ p.2)) :
    LTS.HoldsFrom (Gens.step rows) (Gens.init rows) ls (T + B + B) fun g => ∀ i, ∀ r ∉ rows i, k ≤ g.comp i r := by
  refine LTS.holdsFrom_forall.mpr fun i => LTS.holdsFrom_forall.mpr fun r => LTS.holdsFrom_forall.mpr fun hr =>
    LTS.holdsFrom_of_window (fun hlen => ?_)
      (keptFrom_comp (Q := fun c => k ≤ c r) fun m g g' fresh hm hg hl hs hold => ?_)
  · obtain ⟨m, fresh, hm, hlt, hl, e, he, hre⟩ := hp.reads i r hr (T + B) hlen
    refine ⟨m, _, hm, hlt, hl, fun g g' hg hs => ?_⟩
    have hmlen : m ≤ ls.length := by omega
    have hsince := hS m g (by omega) hmlen hg
    obtain ⟨msgs, rfl, hall, hread⟩ := update_found hp hl hs
    obtain ⟨msg, hmsg, hnames⟩ := hread _ _ (named_from hp m g (by omega) hmlen hg)
      (fun j => published_mono j (by omega)) e he
    obtain ⟨pair, hpair, hname⟩ : ∃ pair ∈ msg, pair.1 = r := List.mem_map.mp (hnames ▸ hre)
    show k ≤ Function.update g.comp i _ i r
    rw [Function.update_self]
    refine le_readAll_foreign hr (fun msg hmsg => ?_) (.inl ⟨msg, hmsg, pair, hpair, hname⟩)
    obtain ⟨-, hgens⟩ := hall _ _ hsince (fun j => published_mono j (by omega)) msg hmsg
    exact hgens
  · have hsince := hS m g (by omega) (List.getElem?_eq_some_iff.mp hl).1.le hg
    obtain ⟨msgs, rfl, hall, -⟩ := update_found hp hl hs
    show k ≤ Function.update g.comp i _ i r
    rw [Function.update_self]
    refine le_readAll_foreign hr (fun msg hmsg => ?_) (.inr hold)
    obtain ⟨-, hgens⟩ := hall _ _ hsince (fun j => published_mono j (by omega)) msg hmsg
    exact hgens

/-- A generation in four windows: all sweep, all publish, what is older goes
out of reach, and all read. -/
theorem level_succ (hp : Paced rows B ls) (hforeign : ∀ i, ∃ r, r ∉ rows i) {T k : ℕ} (hT : 2 * B ≤ T)
    (hL : LTS.HoldsFrom (Gens.step rows) (Gens.init rows) ls T (Level ls T B k)) :
    LTS.HoldsFrom (Gens.step rows) (Gens.init rows) ls (T + 4 * B) (Level ls (T + 4 * B) B (k + 1)) := by
  have hown := own_from hp hforeign hT hL
  have hsince := since_of_publish (T := T + B) (P := fun _ msg => ∀ p ∈ msg, k + 1 ≤ p.2) hp
    fun m g i hm hg hl p hmem => by
      obtain ⟨r, hr, rfl⟩ := List.mem_map.mp hmem
      exact hown m g hm (List.getElem?_eq_some_iff.mp hl).1.le hg i r hr
  have hforeign := foreign_from (T := T + B + B) hp (by omega) hsince
  intro m g hm hlen hg
  refine ⟨fun i r => ?_, (hsince m g (by omega) hlen hg).mono fun j => published_mono j (by omega)⟩
  by_cases hr : r ∈ rows i
  · exact hown m g (by omega) hlen hg i r hr
  · exact hforeign m g (by omega) hlen hg i r hr

theorem level_from (hp : Paced rows B ls) (hforeign : ∀ i, ∃ r, r ∉ rows i) : ∀ k,
    LTS.HoldsFrom (Gens.step rows) (Gens.init rows) ls (2 * B + 4 * B * k) (Level ls (2 * B + 4 * B * k) B k)
  | 0 => fun _ _ _ _ _ => ⟨fun _ _ => Nat.zero_le _, fun _ _ _ => Nat.zero_le _, fun _ _ _ _ _ _ _ => Nat.zero_le _⟩
  | k + 1 => by
    rw [Nat.mul_succ, ← Nat.add_assoc]
    exact level_succ hp hforeign (Nat.le_add_right _ _) (level_from hp hforeign k)

end Growth

def oneRow : Fin 2 → List (Fin 2) := fun i => [i]

/-- Both publish, and both read what has just been published. -/
def oneRound (m : ℕ) : List (Lbl (Fin 2)) := [.publish 0, .publish 1, .update 0 [(1, m)], .update 1 [(0, m)]]

def sixRounds : List (Lbl (Fin 2)) := (List.range 6).flatMap oneRound

deriving instance DecidableEq for Lbl

theorem sixRounds_paced : Paced oneRow 4 sixRounds where
  publishes i T hT := by
    have hall : ∀ i : Fin 2, ∀ T < 21, ∃ k < 24, T ≤ k ∧ k < T + 4 ∧ sixRounds[k]? = some (.publish i) := by
      decide +kernel
    obtain ⟨k, -, h⟩ := hall i T (Nat.lt_succ_of_le (Nat.le_sub_of_add_le hT))
    exact ⟨k, h⟩
  reads i r hr T hT := by
    have hall : ∀ i : Fin 2, ∀ T < 21, ∃ k < 24, T ≤ k ∧ k < T + 4 ∧
        sixRounds[k]? = some (.update i [(1 - i, k / 4)]) := by decide +kernel
    have hother : ∀ i r : Fin 2, r ∉ oneRow i → r ∈ oneRow (1 - i) := by decide
    obtain ⟨k, -, hk, hlt, hl⟩ := hall i T (Nat.lt_succ_of_le (Nat.le_sub_of_add_le hT))
    exact ⟨k, _, hk, hlt, hl, _, List.mem_singleton_self _, hother i r hr⟩
  current k i fresh hl e he := by
    have hk : k < 24 := (List.getElem?_eq_some_iff.mp hl).1
    have hall : ∀ k < 24, ∀ i j : Fin 2, ∀ m < 6, sixRounds[k]? = some (.update i [(j, m)]) →
        published j (sixRounds.take (k - 4)) ≤ m := by decide +kernel
    have hread : ∀ l ∈ sixRounds, (∃ i, l = .publish i) ∨ ∃ i j, ∃ m < 6, l = .update i [(j, m)] := by decide +kernel
    rcases hread _ (List.mem_of_getElem? hl) with ⟨j, h⟩ | ⟨i, j, m, hm, h⟩
    · cases h
    · cases h
      rw [List.mem_singleton.mp he]
      exact hall k hk i j m hm hl

theorem dominant_pair : StrictlyDominant pairA := by
  unfold StrictlyDominant
  decide +kernel

theorem solution_pair : pairA.mulVec (fun _ => 1) = fun _ => 3 := by decide +kernel

end Skywing.L4.Jacobi
