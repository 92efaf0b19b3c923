import Mathlib.Data.Finset.Card
import Mathlib.Data.Fintype.EquivFin
import Mathlib.Data.Set.Finite.Basic
import Mathlib.Logic.Relation

/-!
# Waiting that is passed on

A finite graph whose nodes wait for neighbours, so that whoever is waited for
waits in turn for all its other neighbours, and no two wait for each other.
Then nobody is waited for twice (`waiter_unique`), and where there is a cycle
it takes up everything that is connected with it: every node there has exactly
two neighbours (`two_neighbors_of_cycle`).
-/
namespace Skywing

open Relation

variable {α : Type*}

/-- `waits x y`: the node `x` waits for its neighbour `y`. -/
structure PassedOn (nbrs : α → Finset α) (waits : α → α → Prop) : Prop where
  symm : ∀ x y, y ∈ nbrs x → x ∈ nbrs y
  nbr : ∀ x y, waits x y → y ∈ nbrs x
  asymm : ∀ x y, waits x y → ¬ waits y x
  pass : ∀ x y z, waits x y → z ∈ nbrs y → z ≠ x → waits y z
  several : ∀ x y, waits x y → ∃ z ∈ nbrs y, z ≠ x

namespace PassedOn

variable {nbrs : α → Finset α} {waits : α → α → Prop} {S : Finset α} {v : α}

theorem waiter_unique (h : PassedOn nbrs waits) {x y z : α} (hx : waits x z) (hy : waits y z) : x = y := by
  by_contra hne
  have hyz : y ∈ nbrs z := h.symm y z (h.nbr y z hy)
  exact h.asymm y z hy (h.pass x z y hx hyz (Ne.symm hne))

/-- On the way round a cycle everyone is waited for by someone on the way. -/
theorem exists_waiter (hv : TransGen waits v v) {x : α} (hx : ReflTransGen waits v x) :
    ∃ y, ReflTransGen waits v y ∧ waits y x := by
  cases hx with
  | refl => exact TransGen.tail'_iff.mp hv
  | tail hy hyx => exact ⟨_, hy, hyx⟩

/-- What the cycle reaches is closed under neighbours. -/
theorem reaches (h : PassedOn nbrs waits) (hv : TransGen waits v v) {x : α}
    (hx : ReflTransGen (fun a b => b ∈ nbrs a) v x) : ReflTransGen waits v x := by
  induction hx with
  | refl => exact .refl
  | @tail b c _ hbc ih =>
    obtain ⟨y, hy, hyb⟩ := exists_waiter hv ih
    by_cases hc : c = y
    · exact hc ▸ hy
    · exact ih.tail (h.pass y b c hyb hbc hc)

theorem two_neighbors_of_cycle (h : PassedOn nbrs waits) (hS : ∀ x, ∀ y ∈ nbrs x, y ∈ S) (hv : TransGen waits v v)
    {x : α} (hx : ReflTransGen (fun a b => b ∈ nbrs a) v x) : (nbrs x).card = 2 := by
  classical
  have hfin : Finite { x // ReflTransGen waits v x } := by
    refine Set.Finite.subset S.finite_toSet (fun y hy => ?_)
    obtain ⟨z, -, hz⟩ := exists_waiter hv hy
    exact hS z y (h.nbr z y hz)
  choose waiter hwaiter hwaits using fun x : { x // ReflTransGen waits v x } => exists_waiter hv x.2
  -- to everyone on the way belongs the one that waits for it, and everyone waits for someone
  have hsurj : Function.Surjective fun x : { x // ReflTransGen waits v x } =>
      (⟨waiter x, hwaiter x⟩ : { x // ReflTransGen waits v x }) := by
    intro y
    obtain ⟨z, hz, hne⟩ := h.several _ _ (hwaits y)
    have hyz : waits y z := h.pass _ _ z (hwaits y) hz hne
    refine ⟨⟨z, y.2.tail hyz⟩, Subtype.ext ?_⟩
    exact h.waiter_unique (hwaits ⟨z, y.2.tail hyz⟩) hyz
  have hinj := Finite.injective_iff_surjective.mpr hsurj
  have hx' := h.reaches hv hx
  obtain ⟨y, -, hy⟩ := exists_waiter hv hx'
  obtain ⟨u, hu, hne⟩ := h.several y x hy
  have hxu := h.pass y x u hy hu hne
  rw [Finset.card_eq_two]
  refine ⟨y, u, Ne.symm hne, Finset.ext fun z => ?_⟩
  rw [Finset.mem_insert, Finset.mem_singleton]
  constructor
  · intro hz
    by_cases hzy : z = y
    · exact .inl hzy
    · have hxz := h.pass y x z hy hz hzy
      have heq := @hinj ⟨z, hx'.tail hxz⟩ ⟨u, hx'.tail hxu⟩ (Subtype.ext ?_)
      · exact .inr (congrArg Subtype.val heq)
      · exact (h.waiter_unique (hwaits ⟨z, hx'.tail hxz⟩) hxz).trans
          (h.waiter_unique (hwaits ⟨u, hx'.tail hxu⟩) hxu).symm
  · intro hor
    rcases hor with rfl | rfl
    · exact h.symm _ _ (h.nbr _ _ hy)
    · exact hu

end PassedOn

end Skywing
