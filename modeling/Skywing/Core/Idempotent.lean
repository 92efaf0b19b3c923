import Mathlib.Data.Finset.Lattice.Fold
import Mathlib.Logic.Relation
import Mathlib.Order.Defs.Unbundled

/-!
# Idempotent operations

An associative, commutative and idempotent operation is the join of the order
it induces (`le`), and its fold over a finite set does not depend on order or
multiplicity (`fold`). What an agent of a directed graph can hold when it only
ever combines what it has with what comes from its neighbours is the fold over
the starting values of some agents with a path to it, itself among them
(`Gathers`).
-/
namespace Skywing

structure IdempotentOperation (V : Type*) where
  op : V → V → V
  assoc : ∀ a b c, op (op a b) c = op a (op b c)
  comm : ∀ a b, op a b = op b a
  idem : ∀ a, op a a = a

namespace IdempotentOperation

variable {V ι : Type*} (O : IdempotentOperation V)

/-- `a` is below `b` when combining them gives `b`. -/
def le (a b : V) : Prop := O.op a b = b

abbrev semilattice : SemilatticeSup V :=
  letI : Max V := ⟨O.op⟩
  SemilatticeSup.mk' O.comm O.assoc O.idem

/-- The operation folded over the starting values of `S`. -/
def fold (start : ι → V) (S : Finset ι) (h : S.Nonempty) : V :=
  letI := O.semilattice
  S.sup' h start

variable {O}

theorem le_refl (a : V) : O.le a a := O.idem a

theorem le_trans {a b c : V} (hab : O.le a b) (hbc : O.le b c) : O.le a c := by
  unfold le at *
  rw [← hbc, ← O.assoc, hab]

theorem le_antisymm {a b : V} (hab : O.le a b) (hba : O.le b a) : a = b := by
  rw [← hba, O.comm]
  exact hab

theorem le_op_left (a b : V) : O.le a (O.op a b) := by
  unfold le
  rw [← O.assoc, O.idem]

theorem le_op_right (a b : V) : O.le b (O.op a b) := by
  rw [O.comm]
  exact le_op_left b a

theorem fold_singleton (start : ι → V) (i : ι) : O.fold start {i} (Finset.singleton_nonempty i) = start i := by
  let _ := O.semilattice
  exact Finset.sup'_singleton start

theorem fold_union [DecidableEq ι] (start : ι → V) {S T : Finset ι} (hS : S.Nonempty) (hT : T.Nonempty) :
    O.fold start (S ∪ T) (hS.mono Finset.subset_union_left) = O.op (O.fold start S hS) (O.fold start T hT) := by
  let _ := O.semilattice
  exact Finset.sup'_union hS hT start

theorem le_fold {start : ι → V} {S : Finset ι} {i : ι} (h : i ∈ S) : O.le (start i) (O.fold start S ⟨i, h⟩) := by
  let _ := O.semilattice
  exact Finset.le_sup' (α := V) start h

theorem fold_le {start : ι → V} {S : Finset ι} (h : S.Nonempty) {v : V} (hv : ∀ i ∈ S, O.le (start i) v) :
    O.le (O.fold start S h) v := by
  let _ := O.semilattice
  exact Finset.sup'_le (α := V) h start hv

/-! ## Folds over lists -/

/-- Combining with a fold is folding on from the combination. -/
theorem op_foldl (a b : V) (l : List V) : O.op a (l.foldl O.op b) = l.foldl O.op (O.op a b) := by
  induction l generalizing b with
  | nil => rfl
  | cons c l ih => rw [List.foldl_cons, ih, List.foldl_cons, O.assoc]

theorem le_foldl_init (a : V) (l : List V) : O.le a (l.foldl O.op a) := by
  induction l generalizing a with
  | nil => exact le_refl a
  | cons c l ih => exact le_trans (le_op_left a c) (ih _)

theorem le_foldl {a v : V} {l : List V} (h : v ∈ l) : O.le v (l.foldl O.op a) := by
  induction l generalizing a with
  | nil => cases h
  | cons c l ih =>
    rcases List.mem_cons.mp h with rfl | h
    · exact le_trans (le_op_right a v) (le_foldl_init _ l)
    · exact ih h

/-! ## Agents that combine what they hear -/

/-- `v` combines the starting values of `i` and of agents with a path to it. -/
def Gathers (O : IdempotentOperation V) (start : ι → V) (edge : ι → ι → Prop) (i : ι) (v : V) : Prop :=
  ∃ (S : Finset ι) (h : i ∈ S), (∀ j ∈ S, Relation.ReflTransGen edge j i) ∧ v = O.fold start S ⟨i, h⟩

variable {start : ι → V} {edge : ι → ι → Prop} {i j : ι} {v w : V}

theorem Gathers.own : Gathers O start edge i (start i) := by
  refine ⟨{i}, Finset.mem_singleton_self i, ?_, (fold_singleton start i).symm⟩
  intro j hj
  rw [Finset.mem_singleton.mp hj]

theorem Gathers.op (hv : Gathers O start edge i v) (hw : Gathers O start edge j w) (hji : edge j i) :
    Gathers O start edge i (O.op v w) := by
  classical
  obtain ⟨S, hS, hSi, rfl⟩ := hv
  obtain ⟨T, hT, hTj, rfl⟩ := hw
  refine ⟨S ∪ T, Finset.mem_union_left T hS, ?_, (fold_union start ⟨i, hS⟩ ⟨j, hT⟩).symm⟩
  intro k hk
  rcases Finset.mem_union.mp hk with hk | hk
  · exact hSi k hk
  · exact (hTj k hk).tail hji

theorem Gathers.foldl {l : List V} (hv : Gathers O start edge i v)
    (hl : ∀ w ∈ l, ∃ j, edge j i ∧ Gathers O start edge j w) : Gathers O start edge i (l.foldl O.op v) := by
  induction l generalizing v with
  | nil => exact hv
  | cons w l ih =>
    obtain ⟨j, hji, hw⟩ := hl w List.mem_cons_self
    exact ih (hv.op hw hji) fun w' hw' => hl w' (List.mem_cons_of_mem w hw')

/-- Agents that are below each other along the edges of a strongly connected
graph agree on the fold over all of it. -/
theorem agree {S : Finset ι} (hconn : ∀ i ∈ S, ∀ j ∈ S, Relation.ReflTransGen edge j i) {value : ι → V}
    (hgather : ∀ i ∈ S, Gathers O start edge i (value i)) (hclosed : ∀ i ∈ S, ∀ j, edge j i → j ∈ S)
    (hle : ∀ i ∈ S, ∀ j, edge j i → O.le (value j) (value i)) (hi : i ∈ S) :
    value i = O.fold start S ⟨i, hi⟩ := by
  have hpath {j k : ι} (hk : k ∈ S) (h : Relation.ReflTransGen edge j k) : j ∈ S ∧ O.le (value j) (value k) := by
    induction h using Relation.ReflTransGen.head_induction_on with
    | refl => exact ⟨hk, le_refl _⟩
    | head hstep _ ih => exact ⟨hclosed _ ih.1 _ hstep, le_trans (hle _ ih.1 _ hstep) ih.2⟩
  have hstart {j : ι} (hj : j ∈ S) : O.le (start j) (value j) := by
    obtain ⟨T, hT, -, he⟩ := hgather j hj
    rw [he]
    exact le_fold hT
  refine le_antisymm ?_ (fold_le _ fun j hj => le_trans (hstart hj) (hpath hi (hconn i hi j hj)).2)
  obtain ⟨T, hT, hTi, he⟩ := hgather i hi
  rw [he]
  refine fold_le _ fun j hj => ?_
  exact le_fold (hpath hi (hTi j hj)).1

/-! ## Selections -/

/-- Choosing by a strict total order. -/
def ofSelector (selector : V → V → Prop) [DecidableRel selector] [IsStrictTotalOrder V selector] :
    IdempotentOperation V where
  op a b := if selector a b then a else b
  assoc a b c := by
    by_cases hab : selector a b <;> by_cases hbc : selector b c
    · simp [hab, hbc, trans_of selector hab hbc]
    · simp [hab, hbc]
    · simp [hab, hbc]
    · have hac : ¬ selector a c := by
        rcases trichotomous_of selector a b with h | rfl | h
        · exact absurd h hab
        · exact hbc
        · intro hac
          exact hbc (trans_of selector h hac)
      simp [hab, hbc, hac]
  comm a b := by
    rcases trichotomous_of selector a b with h | rfl | h
    · simp [h, asymm_of selector h]
    · rfl
    · simp [h, asymm_of selector h]
  idem a := by simp

section Minimum
variable [LinearOrder V]

theorem ofSelector_lt_op (a b : V) : (ofSelector fun a b : V => a < b).op a b = min a b := by
  show (if a < b then a else b) = min a b
  split
  · rename_i h
    exact (min_eq_left h.le).symm
  · rename_i h
    exact (min_eq_right (not_lt.mp h)).symm

theorem ofSelector_lt_le {a b : V} : (ofSelector fun a b : V => a < b).le a b ↔ b ≤ a := by
  unfold le
  rw [ofSelector_lt_op, min_eq_right_iff]

/-- Folding a selection of the smaller is taking the minimum. -/
theorem fold_ofSelector_lt (start : ι → V) {S : Finset ι} (h : S.Nonempty) :
    (ofSelector fun a b : V => a < b).fold start S h = S.inf' h start := by
  refine eq_of_forall_le_iff fun v => ?_
  constructor
  · intro hv
    exact Finset.le_inf' h start fun i hi => hv.trans (ofSelector_lt_le.mp (le_fold hi))
  · intro hv
    obtain ⟨i, hi, he⟩ := Finset.exists_mem_eq_inf' h start
    have hle := fold_le (O := ofSelector fun a b : V => a < b) h (v := S.inf' h start)
      fun j hj => ofSelector_lt_le.mpr (Finset.inf'_le start hj)
    exact hv.trans (ofSelector_lt_le.mp hle)

end Minimum

end IdempotentOperation

end Skywing
