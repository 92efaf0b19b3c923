import Mathlib.Algebra.BigOperators.Field
import Mathlib.Algebra.BigOperators.Fin
import Mathlib.Algebra.Order.BigOperators.Group.Finset
import Mathlib.Data.Finset.Fold
import Mathlib.Data.List.GetD
import Mathlib.Data.Matrix.Mul
import Mathlib.Data.Rat.Floor
import Mathlib.Tactic.FieldSimp
import Mathlib.Tactic.Ring
import Skywing.Core.LTS
import Skywing.Core.Types

/-!
# Asynchronous Jacobi

`skywing_mid/jacobi_processor.hpp`. The rows of `A x = b` are split over
agents, with overlaps. Each agent holds a whole vector `x_iter_`, recomputes
its own components in place, one after another, and overwrites the others by
what it reads: messages are lists of index, value, index, value.

Agents run in any order and read any publication that was ever made, however
old. On a strictly diagonally dominant system no component of any vector or
message is ever further from the solution than the largest component of the
solution, which is the error of the zero vector (`Within`), and a recomputed
component comes closer by the factor `rho < 1` (`jacobiComputation_rho`). The
two together are `error_bounded`.
-/
namespace Skywing.L4.Jacobi

/-! ## The processor -/

/-- `iteration_count_` and the processor's own `publish_values_` are not read.
mirrors skywing/skywing_mid/jacobi_processor.hpp:191-199 -/
structure JacobiProcessor where
  aPartition : List (List ℚ)
  bPartition : List ℚ
  rowIndices : List ℕ
  numberOfUpdatedComponents : ℕ
  xIter : List ℚ
  deriving DecidableEq

namespace JacobiProcessor

/-- The inner loop: a row times `x` without the component of the row.
mirrors skywing/skywing_mid/jacobi_processor.hpp:178-183 -/
def hold (row x : List ℚ) (rowIndex size : ℕ) : ℚ :=
  (List.range size).foldl (fun hold j => if j ≠ rowIndex then hold + row.getD j 0 * x.getD j 0 else hold) 0

/-- The body of the outer loop.
mirrors skywing/skywing_mid/jacobi_processor.hpp:176-187 -/
def recompute (p : JacobiProcessor) (i : ℕ) : JacobiProcessor :=
  let row := p.aPartition.getD i []
  let updatedIndex := p.rowIndices.getD i 0
  let h := hold row p.xIter updatedIndex (p.aPartition.headD []).length
  { p with xIter := p.xIter.set updatedIndex ((p.bPartition.getD i 0 - h) / row.getD updatedIndex 0) }

/-- mirrors skywing/skywing_mid/jacobi_processor.hpp:174-188 -/
def jacobiComputation (p : JacobiProcessor) : JacobiProcessor :=
  (List.range p.numberOfUpdatedComponents).foldl recompute p

/-- mirrors skywing/skywing_mid/jacobi_processor.hpp:43-55 -/
def create (aPartition : List (List ℚ)) (bPartition : List ℚ) (rowIndices : List ℕ) : JacobiProcessor :=
  jacobiComputation
    { aPartition := aPartition
      bPartition := bPartition
      rowIndices := rowIndices
      numberOfUpdatedComponents := rowIndices.length
      xIter := List.replicate (aPartition.headD []).length 0 }

/-- mirrors skywing/skywing_mid/jacobi_processor.hpp:62-63 -/
def getInitPublishValues (p : JacobiProcessor) : List ℚ := List.replicate (2 * p.numberOfUpdatedComponents) 0

/-- The body of the loop over the pairs of a value: a component that is
computed here is not replaced.
mirrors skywing/skywing_mid/jacobi_processor.hpp:86-101 -/
def processPair (nbrValue : List ℚ) (p : JacobiProcessor) (k : ℕ) : JacobiProcessor :=
  if (List.range p.numberOfUpdatedComponents).any
      fun i => nbrValue.getD (k * 2) 0 == ((p.rowIndices.getD i 0 : ℕ) : ℚ) then p
  else
    jacobiComputation
      { p with xIter := p.xIter.set ⌊nbrValue.getD (k * 2) 0⌋₊ (nbrValue.getD (k * 2 + 1) 0) }

/-- mirrors skywing/skywing_mid/jacobi_processor.hpp:71-104 -/
def processUpdate (p : JacobiProcessor) (nbrValues : List (List ℚ)) : JacobiProcessor :=
  nbrValues.foldl (fun p nbrValue => (List.range (nbrValue.length / 2)).foldl (processPair nbrValue) p) p

/-- mirrors skywing/skywing_mid/jacobi_processor.hpp:143-147 -/
def putPair (p : JacobiProcessor) (vals : List ℚ) (i : ℕ) : List ℚ :=
  let rowIndex := p.rowIndices.getD i 0
  (vals.set (i * 2) (rowIndex : ℚ)).set (i * 2 + 1) (p.xIter.getD rowIndex 0)

/-- mirrors skywing/skywing_mid/jacobi_processor.hpp:141-149 -/
def prepareForPublication (p : JacobiProcessor) (valsToPublish : List ℚ) : List ℚ :=
  (List.range p.numberOfUpdatedComponents).foldl (putPair p) valsToPublish

end JacobiProcessor

open JacobiProcessor

/-! ## The network -/

/-- `publishValues`: `publish_values_` of the iterative method; `pubs i`:
everything `i` has published. -/
structure Net (ι : Type*) where
  proc : ι → JacobiProcessor
  publishValues : ι → List ℚ
  pubs : ι → List (List ℚ)

/-- mirrors skywing/skywing_mid/asynchronous_iterative.hpp:99-129 -/
inductive Lbl (ι : Type*)
  /-- `run` begins and submits the initial values -/
  | start (i : ι)
  | publish (i : ι)
  /-- one `process_update` of `i`, given for each updated tag the index of
  the publication it finds there -/
  | update (i : ι) (fresh : List (ι × ℕ))

section Network
variable {ι : Type*} [DecidableEq ι] {n : ℕ} (A : Matrix (Fin n) (Fin n) ℚ) (b : Fin n → ℚ)
  (rows : ι → List (Fin n))

/-- The processor of an agent that is responsible for the rows `part`. -/
def ofRows (part : List (Fin n)) : JacobiProcessor :=
  create (part.map fun r => List.ofFn (A r)) (part.map b) (part.map Fin.val)

def init : Net ι where
  proc i := ofRows A b (rows i)
  publishValues i := (ofRows A b (rows i)).getInitPublishValues
  pubs _ := []

/-- Any publication may be found, also an old one, and any may be missed. -/
def fetch (pubs : ι → List (List ℚ)) : List (ι × ℕ) → Option (List (List ℚ))
  | [] => some []
  | (j, k) :: rest =>
    match (pubs j)[k]?, fetch pubs rest with
    | some v, some vs => some (v :: vs)
    | _, _ => none

def step (s : Net ι) : Lbl ι → Option (Net ι)
  | .start i => some { s with pubs := Function.update s.pubs i (s.pubs i ++ [s.publishValues i]) }
  | .publish i =>
    let vals := (s.proc i).prepareForPublication (s.publishValues i)
    some { s with
      publishValues := Function.update s.publishValues i vals
      pubs := Function.update s.pubs i (s.pubs i ++ [vals]) }
  | .update i fresh =>
    (fetch s.pubs fresh).map fun vs => { s with proc := Function.update s.proc i ((s.proc i).processUpdate vs) }

def lts : LTS (Net ι) (Lbl ι) := LTS.ofFn (· = init A b rows) step

end Network

/-! ## Errors -/

section Errors
variable {n : ℕ}

def StrictlyDominant (A : Matrix (Fin n) (Fin n) ℚ) : Prop := ∀ i, ∑ j ∈ Finset.univ.erase i, |A i j| < |A i i|

/-- The largest of non-negative numbers. -/
def largest (f : Fin n → ℚ) : ℚ := Finset.univ.fold max 0 f

def rho (A : Matrix (Fin n) (Fin n) ℚ) : ℚ := largest fun i => (∑ j ∈ Finset.univ.erase i, |A i j|) / |A i i|

/-- The distance of each component from the solution. -/
def error (solution : Fin n → ℚ) (x : List ℚ) (r : Fin n) : ℚ := |x.getD r 0 - solution r|

def Within (solution : Fin n → ℚ) (e : ℚ) (x : List ℚ) : Prop := ∀ r, error solution x r ≤ e

/-- The pairs of a message name a component and are not further from the
solution. -/
def PairsWithin (solution : Fin n → ℚ) (e : ℚ) (msg : List ℚ) : Prop :=
  ∀ k, k < msg.length / 2 → ∃ r : Fin n, msg.getD (k * 2) 0 = ((r : ℕ) : ℚ) ∧
    |msg.getD (k * 2 + 1) 0 - solution r| ≤ e

theorem le_largest (f : Fin n → ℚ) (i : Fin n) : f i ≤ largest f :=
  (Finset.le_fold_max _).mpr (.inr ⟨i, Finset.mem_univ i, le_rfl⟩)

theorem largest_nonneg (f : Fin n → ℚ) : 0 ≤ largest f := (Finset.le_fold_max _).mpr (.inl le_rfl)

theorem largest_le {f : Fin n → ℚ} {e : ℚ} (he : 0 ≤ e) (h : ∀ i, f i ≤ e) : largest f ≤ e :=
  (Finset.fold_max_le _).mpr ⟨he, fun i _ => h i⟩

theorem rho_lt_one {A : Matrix (Fin n) (Fin n) ℚ} (h : StrictlyDominant A) : rho A < 1 := by
  refine (Finset.fold_max_lt (1 : ℚ)).mpr ⟨zero_lt_one, fun i _ => ?_⟩
  have hpos : 0 < |A i i| := lt_of_le_of_lt (Finset.sum_nonneg fun j _ => abs_nonneg _) (h i)
  exact (div_lt_one hpos).mpr (h i)

variable {solution : Fin n → ℚ} {e : ℚ} {x : List ℚ}

theorem getD_set (i k : ℕ) (v : ℚ) : (x.set i v).getD k 0 = if i = k ∧ i < x.length then v else x.getD k 0 := by
  rw [List.getD_eq_getElem?_getD, List.getD_eq_getElem?_getD, List.getElem?_set]
  by_cases hik : i = k
  · subst hik
    by_cases hi : i < x.length
    · simp [hi]
    · simp [hi]
  · simp [hik]

/-- Overwriting a component by one that is no further off. -/
theorem Within.set (h : Within solution e x) {r : Fin n} {v : ℚ} (hv : |v - solution r| ≤ e) :
    Within solution e (x.set r v) := by
  intro k
  unfold error
  rw [getD_set]
  split
  · rename_i hrk
    rwa [← Fin.ext hrk.1]
  · exact h k

theorem Within.largest (h : Within solution e x) (he : 0 ≤ e) : largest (error solution x) ≤ e := largest_le he h

theorem within_largest : Within solution (Jacobi.largest (error solution x)) x := fun r => le_largest _ r

theorem within_zero (m : ℕ) : Within solution (Jacobi.largest fun r => |solution r|) (List.replicate m 0) := by
  intro r
  have hzero : (List.replicate m (0 : ℚ)).getD r 0 = 0 := by
    rw [List.getD_eq_getElem?_getD, List.getElem?_replicate]
    split <;> rfl
  unfold error
  rw [hzero, zero_sub, abs_neg]
  exact le_largest (fun r => |solution r|) r

/-! ## One row -/

variable {A : Matrix (Fin n) (Fin n) ℚ} {b : Fin n → ℚ}

theorem foldl_range (f : ℕ → ℚ) (skip : ℕ) : ∀ size,
    (List.range size).foldl (fun hold j => if j ≠ skip then hold + f j else hold) 0 =
      ∑ j ∈ Finset.range size, if j ≠ skip then f j else 0
  | 0 => rfl
  | size + 1 => by
    rw [List.range_succ, List.foldl_append, foldl_range f skip size, Finset.sum_range_succ]
    show (if size ≠ skip then _ + f size else _) = _
    split
    · rfl
    · rw [add_zero]

theorem hold_eq (r : Fin n) : hold (List.ofFn (A r)) x r n = ∑ j ∈ Finset.univ.erase r, A r j * x.getD j 0 := by
  unfold hold
  rw [foldl_range (fun j => (List.ofFn (A r)).getD j 0 * x.getD j 0), Finset.sum_range,
    ← Finset.filter_ne' Finset.univ r, Finset.sum_filter]
  refine Finset.sum_congr rfl fun j _ => ?_
  have hrow : (List.ofFn (A r)).getD j 0 = A r j := by
    rw [List.getD_eq_getElem _ _ (by simp), List.getElem_ofFn]
  rw [hrow]
  by_cases hj : j = r
  · rw [if_neg (not_not.mpr (congrArg Fin.val hj)), if_neg (not_not.mpr hj)]
  · rw [if_pos (fun he => hj (Fin.ext he)), if_pos hj]

/-- What is recomputed is off by at most `rho` times the largest error. -/
theorem row_rho (hdom : StrictlyDominant A) (hsol : A.mulVec solution = b) (he : 0 ≤ e)
    (h : Within solution e x) (r : Fin n) :
    |(b r - hold (List.ofFn (A r)) x r n) / A r r - solution r| ≤ rho A * e := by
  have hpos : 0 < |A r r| := lt_of_le_of_lt (Finset.sum_nonneg fun j _ => abs_nonneg _) (hdom r)
  have hb : b r = A r r * solution r + ∑ j ∈ Finset.univ.erase r, A r j * solution j := by
    rw [← hsol]
    exact (Finset.add_sum_erase Finset.univ (fun j => A r j * solution j) (Finset.mem_univ r)).symm
  have hdiff : (b r - hold (List.ofFn (A r)) x r n) / A r r - solution r =
      -(∑ j ∈ Finset.univ.erase r, A r j * (x.getD j 0 - solution j)) / A r r := by
    have hne : A r r ≠ 0 := abs_pos.mp hpos
    rw [hold_eq, hb]
    simp only [mul_sub, Finset.sum_sub_distrib]
    field_simp
    ring
  have hsum : |∑ j ∈ Finset.univ.erase r, A r j * (x.getD j 0 - solution j)| ≤
      (∑ j ∈ Finset.univ.erase r, |A r j|) * e := by
    rw [Finset.sum_mul]
    refine (Finset.abs_sum_le_sum_abs _ _).trans (Finset.sum_le_sum fun j _ => ?_)
    rw [abs_mul]
    exact mul_le_mul_of_nonneg_left (h j) (abs_nonneg _)
  calc |(b r - hold (List.ofFn (A r)) x r n) / A r r - solution r|
      = |∑ j ∈ Finset.univ.erase r, A r j * (x.getD j 0 - solution j)| / |A r r| := by
        rw [hdiff, abs_div, abs_neg]
    _ ≤ (∑ j ∈ Finset.univ.erase r, |A r j|) * e / |A r r| := div_le_div_of_nonneg_right hsum hpos.le
    _ = (∑ j ∈ Finset.univ.erase r, |A r j|) / |A r r| * e := by ring
    _ ≤ rho A * e :=
        mul_le_mul_of_nonneg_right (le_largest (fun i => (∑ j ∈ Finset.univ.erase i, |A i j|) / |A i i|) r) he

/-! ## The rows of an agent -/

variable (A b) in
/-- `p` is responsible for the rows `part`. -/
structure Part (part : List (Fin n)) (p : JacobiProcessor) : Prop where
  aPartition : p.aPartition = part.map fun r => List.ofFn (A r)
  bPartition : p.bPartition = part.map b
  rowIndices : p.rowIndices = part.map Fin.val
  count : p.numberOfUpdatedComponents = part.length
  length : p.xIter.length = (p.aPartition.headD []).length

variable {part : List (Fin n)} {p : JacobiProcessor}

theorem Part.set (h : Part A b part p) (i : ℕ) (v : ℚ) : Part A b part { p with xIter := p.xIter.set i v } :=
  ⟨h.aPartition, h.bPartition, h.rowIndices, h.count, (List.length_set ..).trans h.length⟩

theorem Part.size (h : Part A b part p) {i : ℕ} {r : Fin n} (hr : part[i]? = some r) :
    (p.aPartition.headD []).length = n := by
  rw [h.aPartition]
  cases part with
  | nil => cases hr
  | cons r₀ part => exact List.length_ofFn

theorem Part.recompute (h : Part A b part p) {i : ℕ} {r : Fin n} (hr : part[i]? = some r) :
    recompute p i = { p with xIter := p.xIter.set r ((b r - hold (List.ofFn (A r)) p.xIter r n) / A r r) } := by
  have hrow : p.aPartition.getD i [] = List.ofFn (A r) := by
    rw [h.aPartition, List.getD_eq_getElem?_getD, List.getElem?_map, hr]
    rfl
  have hb : p.bPartition.getD i 0 = b r := by
    rw [h.bPartition, List.getD_eq_getElem?_getD, List.getElem?_map, hr]
    rfl
  have hindex : p.rowIndices.getD i 0 = r := by
    rw [h.rowIndices, List.getD_eq_getElem?_getD, List.getElem?_map, hr]
    rfl
  have hdiag : (List.ofFn (A r)).getD r 0 = A r r := by
    rw [List.getD_eq_getElem _ _ (by simp), List.getElem_ofFn]
  unfold JacobiProcessor.recompute
  dsimp only
  rw [hrow, hb, hindex, hdiag, h.size hr]

/-- The loop over the rows: what was recomputed so far is off by `rho e`. -/
theorem recompute_loop (hdom : StrictlyDominant A) (hsol : A.mulVec solution = b) (he : 0 ≤ e)
    (h : Part A b part p) (hw : Within solution e p.xIter) : ∀ k, k ≤ part.length →
    Part A b part ((List.range k).foldl recompute p) ∧
      Within solution e ((List.range k).foldl recompute p).xIter ∧
      ∀ i r, i < k → part[i]? = some r → error solution ((List.range k).foldl recompute p).xIter r ≤ rho A * e
  | 0, _ => ⟨h, hw, fun _ _ hi => nomatch hi⟩
  | k + 1, hk => by
    obtain ⟨hq, hwq, hdone⟩ := recompute_loop hdom hsol he h hw k (by omega)
    rw [List.range_succ, List.foldl_append]
    show Part A b part (recompute _ k) ∧ Within solution e (recompute _ k).xIter ∧
      ∀ i r, i < k + 1 → part[i]? = some r → error solution (recompute _ k).xIter r ≤ rho A * e
    generalize (List.range k).foldl recompute p = q at hq hwq hdone ⊢
    obtain ⟨r, hr⟩ : ∃ r, part[k]? = some r := ⟨part[k], List.getElem?_eq_getElem hk⟩
    have hnew := row_rho hdom hsol he hwq r
    have hlt : (r : ℕ) < q.xIter.length := by
      rw [hq.length, hq.size hr]
      exact r.isLt
    rw [hq.recompute hr]
    refine ⟨hq.set _ _, hwq.set (hnew.trans ?_), fun i r' hi hr' => ?_⟩
    · exact mul_le_of_le_one_left he (rho_lt_one hdom).le
    · show |(q.xIter.set _ _).getD r' 0 - solution r'| ≤ _
      rw [getD_set]
      -- the row at hand may be an earlier one again
      split
      · rename_i hrr
        rwa [← Fin.ext hrr.1]
      · rename_i hrr
        refine hdone i r' ?_ hr'
        rcases Nat.lt_succ_iff_lt_or_eq.mp hi with hi | rfl
        · exact hi
        · rw [hr, Option.some.injEq] at hr'
          exact absurd ⟨congrArg Fin.val hr', hlt⟩ hrr

theorem jacobiComputation_part (hdom : StrictlyDominant A) (hsol : A.mulVec solution = b) (he : 0 ≤ e)
    (h : Part A b part p) (hw : Within solution e p.xIter) :
    Part A b part (jacobiComputation p) ∧ Within solution e (jacobiComputation p).xIter := by
  obtain ⟨hq, hwq, -⟩ := recompute_loop hdom hsol he h hw part.length le_rfl
  unfold jacobiComputation
  rw [h.count]
  exact ⟨hq, hwq⟩

/-- Every recomputed component comes closer by the factor `rho`. -/
theorem jacobiComputation_rho (hdom : StrictlyDominant A) (hsol : A.mulVec solution = b)
    (h : Part A b part p) {r : Fin n} (hr : r ∈ part) :
    error solution (jacobiComputation p).xIter r ≤ rho A * largest (error solution p.xIter) := by
  obtain ⟨i, hi, rfl⟩ := List.mem_iff_getElem.mp hr
  obtain ⟨-, -, hdone⟩ := recompute_loop hdom hsol (largest_nonneg _) h within_largest part.length le_rfl
  unfold jacobiComputation
  rw [h.count]
  exact hdone i part[i] hi (List.getElem?_eq_getElem hi)

/-! ## Messages -/

theorem initPairs (h : Part A b part p) :
    PairsWithin solution (Jacobi.largest fun r => |solution r|) p.getInitPublishValues := by
  intro k hk
  unfold getInitPublishValues at hk ⊢
  rw [List.length_replicate, h.count] at hk
  -- there is a row, hence a component with index 0
  obtain ⟨r, -⟩ : ∃ r, r ∈ part := List.exists_mem_of_length_pos (by omega)
  have hzero (i : ℕ) : (List.replicate (2 * p.numberOfUpdatedComponents) (0 : ℚ)).getD i 0 = 0 := by
    rw [List.getD_eq_getElem?_getD, List.getElem?_replicate]
    split <;> rfl
  refine ⟨⟨0, r.pos⟩, ?_, ?_⟩
  · rw [hzero, Nat.cast_zero]
  · rw [hzero, zero_sub, abs_neg]
    exact le_largest (fun r => |solution r|) _

theorem putPair_pairs (h : Part A b part p) (hw : Within solution e p.xIter) {vals : List ℚ}
    (hv : PairsWithin solution e vals) {i : ℕ} (hi : i < part.length) :
    PairsWithin solution e (putPair p vals i) := by
  intro k hk
  unfold putPair at hk ⊢
  dsimp only at hk ⊢
  rw [List.length_set, List.length_set] at hk
  have hindex : p.rowIndices.getD i 0 = part[i] := by
    rw [h.rowIndices, List.getD_eq_getElem _ _ (by rwa [List.length_map]), List.getElem_map]
  rw [hindex, getD_set, getD_set, getD_set, getD_set, List.length_set]
  by_cases hik : i = k
  · subst hik
    refine ⟨part[i], ?_, ?_⟩
    · rw [if_neg (by omega), if_pos ⟨rfl, by omega⟩]
    · rw [if_pos ⟨rfl, by omega⟩]
      exact hw part[i]
  · rw [if_neg (by omega), if_neg (by omega), if_neg (by omega), if_neg (by omega)]
    exact hv k hk

theorem prepareForPublication_pairs (h : Part A b part p) (hw : Within solution e p.xIter) {vals : List ℚ}
    (hv : PairsWithin solution e vals) : PairsWithin solution e (p.prepareForPublication vals) := by
  have hloop : ∀ k, k ≤ part.length → PairsWithin solution e ((List.range k).foldl (putPair p) vals) := by
    intro k
    induction k with
    | zero => exact fun _ => hv
    | succ k ih =>
      intro hk
      rw [List.range_succ, List.foldl_append]
      exact putPair_pairs h hw (ih (by omega)) hk
  unfold prepareForPublication
  rw [h.count]
  exact hloop part.length le_rfl

/-- What holds of an agent between its steps. -/
structure Node (A : Matrix (Fin n) (Fin n) ℚ) (b solution : Fin n → ℚ) (e : ℚ) (part : List (Fin n))
    (p : JacobiProcessor) : Prop extends Part A b part p where
  within : Within solution e p.xIter

theorem Node.processPair (hdom : StrictlyDominant A) (hsol : A.mulVec solution = b) (he : 0 ≤ e)
    (h : Node A b solution e part p) {nbrValue : List ℚ} (hv : PairsWithin solution e nbrValue) {k : ℕ}
    (hk : k < nbrValue.length / 2) : Node A b solution e part (JacobiProcessor.processPair nbrValue p k) := by
  unfold JacobiProcessor.processPair
  split
  · exact h
  · obtain ⟨r, hr, hval⟩ := hv k hk
    rw [hr, Nat.floor_natCast]
    obtain ⟨hpart, hw⟩ := jacobiComputation_part hdom hsol he (h.toPart.set r _) (h.within.set hval)
    exact ⟨hpart, hw⟩

theorem Node.processUpdate (hdom : StrictlyDominant A) (hsol : A.mulVec solution = b) (he : 0 ≤ e)
    {nbrValues : List (List ℚ)} (hv : ∀ msg ∈ nbrValues, PairsWithin solution e msg) :
    ∀ {p : JacobiProcessor}, Node A b solution e part p →
      Node A b solution e part (JacobiProcessor.processUpdate p nbrValues) := by
  unfold JacobiProcessor.processUpdate
  induction nbrValues with
  | nil => exact fun h => h
  | cons msg nbrValues ih =>
    intro p h
    obtain ⟨hmsg, hrest⟩ := List.forall_mem_cons.mp hv
    have hpairs : ∀ k, k ≤ msg.length / 2 →
        Node A b solution e part ((List.range k).foldl (JacobiProcessor.processPair msg) p) := by
      intro k
      induction k with
      | zero => exact fun _ => h
      | succ k ih =>
        intro hk
        rw [List.range_succ, List.foldl_append]
        exact (ih (by omega)).processPair hdom hsol he hmsg hk
    rw [List.foldl_cons]
    exact ih hrest (hpairs _ le_rfl)

end Errors

/-! ## Runs -/

section Runs
variable {ι : Type*} {n : ℕ} (A : Matrix (Fin n) (Fin n) ℚ) (b solution : Fin n → ℚ)
  (rows : ι → List (Fin n))

/-- No vector and no message is further from the solution than the zero
vector. -/
structure Inv (s : Net ι) : Prop where
  node : ∀ i, Node A b solution (largest fun r => |solution r|) (rows i) (s.proc i)
  values : ∀ i, PairsWithin solution (largest fun r => |solution r|) (s.publishValues i)
  pubs : ∀ i, ∀ msg ∈ s.pubs i, PairsWithin solution (largest fun r => |solution r|) msg

variable {A b solution rows}

theorem fetch_mem {pubs : ι → List (List ℚ)} : ∀ {fresh : List (ι × ℕ)} {vs : List (List ℚ)},
    fetch pubs fresh = some vs → ∀ v ∈ vs, ∃ j, v ∈ pubs j
  | [], vs, h, v, hv => by
    cases h
    cases hv
  | (j, k) :: rest, vs, h, v, hv => by
    rw [fetch] at h
    split at h
    · rename_i w ws hw hrest
      cases h
      rcases List.mem_cons.mp hv with rfl | hv
      · exact ⟨j, List.mem_of_getElem? hw⟩
      · exact fetch_mem hrest v hv
    · cases h

variable [DecidableEq ι]

omit [DecidableEq ι] in
theorem inv_init (hdom : StrictlyDominant A) (hsol : A.mulVec solution = b) :
    Inv A b solution rows (init A b rows) := by
  have hnode (i : ι) : Node A b solution (largest fun r => |solution r|) (rows i) (ofRows A b (rows i)) := by
    have hpart : Part A b (rows i)
        { aPartition := (rows i).map fun r => List.ofFn (A r)
          bPartition := (rows i).map b
          rowIndices := (rows i).map Fin.val
          numberOfUpdatedComponents := ((rows i).map Fin.val).length
          xIter := List.replicate (((rows i).map fun r => List.ofFn (A r)).headD []).length 0 } :=
      ⟨rfl, rfl, rfl, List.length_map .., List.length_replicate⟩
    obtain ⟨h, hw⟩ := jacobiComputation_part hdom hsol (largest_nonneg _) hpart (within_zero _)
    exact ⟨h, hw⟩
  exact ⟨hnode, fun i => initPairs (hnode i).toPart, fun i msg hmsg => nomatch hmsg⟩

theorem inv_step (hdom : StrictlyDominant A) (hsol : A.mulVec solution = b) {s t : Net ι} {l : Lbl ι}
    (hI : Inv A b solution rows s) (h : step s l = some t) : Inv A b solution rows t := by
  cases l with
  | start i =>
    cases h
    exact ⟨hI.node, hI.values, forall_mem_log hI.pubs (hI.values i)⟩
  | publish i =>
    cases h
    have hv := prepareForPublication_pairs (hI.node i).toPart (hI.node i).within (hI.values i)
    refine ⟨hI.node, fun j => ?_, forall_mem_log hI.pubs hv⟩
    show PairsWithin solution _ (Function.update s.publishValues i _ j)
    by_cases hji : j = i
    · subst hji
      rw [Function.update_self]
      exact hv
    · rw [Function.update_of_ne hji]
      exact hI.values j
  | update i fresh =>
    simp only [step, Option.map_eq_some_iff] at h
    obtain ⟨vs, hvs, rfl⟩ := h
    refine ⟨fun j => ?_, hI.values, hI.pubs⟩
    show Node A b solution _ (rows j) (Function.update s.proc i _ j)
    by_cases hji : j = i
    · subst hji
      rw [Function.update_self]
      refine (hI.node j).processUpdate hdom hsol (largest_nonneg _) fun msg hmsg => ?_
      obtain ⟨k, hk⟩ := fetch_mem hvs msg hmsg
      exact hI.pubs k msg hk
    · rw [Function.update_of_ne hji]
      exact hI.node j

theorem inv_inductive (hdom : StrictlyDominant A) (hsol : A.mulVec solution = b) :
    (lts A b rows).Inductive (Inv A b solution rows) where
  init := by
    intro s hs
    rw [hs]
    exact inv_init hdom hsol
  step := fun _ _ _ hI h => inv_step hdom hsol hI h

end Runs

/-- **The error never increases.** However the rows are split and the agents
are scheduled, no component of a vector or of a message is further from the
solution than the largest component of the solution; and what an agent
recomputes ends within `rho < 1` times the largest error of its vector,
whatever the vector is. -/
theorem error_bounded {ι : Type*} [DecidableEq ι] {n : ℕ} (A : Matrix (Fin n) (Fin n) ℚ)
    (b solution : Fin n → ℚ) (rows : ι → List (Fin n)) (hdom : StrictlyDominant A)
    (hsol : A.mulVec solution = b) (s : Net ι) (h : (lts A b rows).Reachable s) :
    (∀ i, largest (error solution (s.proc i).xIter) ≤ largest fun r => |solution r|) ∧
      (∀ i, ∀ msg ∈ s.pubs i, PairsWithin solution (largest fun r => |solution r|) msg) ∧
      rho A < 1 ∧
      ∀ i, Part A b (rows i) (s.proc i) ∧ ∀ p, Part A b (rows i) p → ∀ r ∈ rows i,
        error solution (jacobiComputation p).xIter r ≤ rho A * largest (error solution p.xIter) := by
  have hI := (inv_inductive hdom hsol).reachable s h
  refine ⟨fun i => ?_, hI.pubs, rho_lt_one hdom, fun i => ⟨(hI.node i).toPart, fun p hp r hr => ?_⟩⟩
  · exact (hI.node i).within.largest (largest_nonneg _)
  · exact jacobiComputation_rho hdom hsol hp hr

/-! ## Two agents that share a row -/

def pairA : Matrix (Fin 2) (Fin 2) ℚ := fun i j => if i = j then 2 else 1

def pairRows : Fin 2 → List (Fin 2) := fun i => if i = 0 then [0] else [1, 0]

def pairRun : List (Lbl (Fin 2)) := [.start 0, .publish 0, .publish 1, .update 0 [(1, 0)], .update 1 [(0, 0)]]

/-- Row 0 is computed by both; the second agent reads the initial zeros. -/
theorem error_bounded_pair : ∃ s, LTS.exec step (init pairA (fun _ => 3) pairRows) pairRun = some s ∧
    largest (error (fun _ : Fin 2 => 1) (s.proc 0).xIter) ≤ largest fun _ : Fin 2 => |(1 : ℚ)| := by
  obtain ⟨s, hx⟩ : ∃ s, LTS.exec step (init pairA (fun _ => 3) pairRows) pairRun = some s := ⟨_, rfl⟩
  have hdom : StrictlyDominant pairA := by
    unfold StrictlyDominant
    decide +kernel
  have hsol : pairA.mulVec (fun _ => 1) = fun _ => 3 := by decide +kernel
  have hr : (lts pairA (fun _ => 3) pairRows).Reachable s := LTS.reachable_of_exec rfl hx
  exact ⟨s, hx, (error_bounded pairA (fun _ => 3) (fun _ => 1) pairRows hdom hsol s hr).1 0⟩

end Skywing.L4.Jacobi
