import Mathlib.Algebra.BigOperators.Field
import Mathlib.Algebra.BigOperators.Fin
import Mathlib.Algebra.Order.BigOperators.Group.Finset
import Mathlib.Algebra.Order.Ring.Rat
import Mathlib.Combinatorics.SimpleGraph.Finite
import Mathlib.Data.Fintype.BigOperators
import Mathlib.Tactic.FieldSimp
import Mathlib.Tactic.Linarith
import Mathlib.Tactic.NormNum
import Mathlib.Tactic.Positivity
import Mathlib.Tactic.Ring
import Skywing.Core.LTS
import Skywing.Core.Types

/-!
# Push-sum and the mass it carries

`skywing_mid/push_sum_processor.hpp`. Every agent holds a pair `(x, y)` and
publishes cumulative sums `(sigma_x, sigma_y)`; for every neighbour it
remembers in `rho` the last sum it read, so that a skipped publication is
made up for by the next one. Processing one neighbour's value adds what is
new in it, then splits the mass into `degree + 1` equal parts and keeps one.

The mass of a coordinate is what the agents hold plus what lies on the
edges, `sum x_i + sum (sigma of i - rho of i held by j)` over the directed
edges `i -> j`. It splits by agent (`mass_eq_sum_ledger`) into ledgers
`x + degree * sigma - sum of rho`, and no step changes any agent's ledger
(`ledger_processUpdate`), whatever is read. So `mass` is constant on every
run (`mass_reachable`).

The constructor adds `x / (degree + 1)` to `sigma` without taking it out of
`x`: the initial ledger is `x * (1 + degree / (degree + 1))`. The ratio of
the two masses is therefore a weighted mean of the starting values, and it
is their mean exactly when the values are uncorrelated with
`degree / (degree + 1)` (`mean_preserved_iff`): on regular graphs, and not
on a path of three agents (`mean_lost`).
-/
namespace Skywing.L4.PushSum

variable {ι S : Type*}

/-- What is published: `sigma_x_`, `sigma_y_`, `information_count_`.
mirrors skywing/skywing_mid/push_sum_processor.hpp:29 -/
abbrev ValueType (S : Type*) := S × S × UInt32

/-- The maps `rho_x_` .. `rho_y_previous_` are keyed by neighbour tags.
mirrors skywing/skywing_mid/push_sum_processor.hpp:117-131 -/
structure PushSumProcessor (ι S : Type*) where
  informationCount : UInt32
  xValue : S
  yValue : S
  inNodesPlusOne : S
  sigmaX : S
  sigmaY : S
  rhoX : ι → Option S
  rhoY : ι → Option S
  rhoXPrevious : ι → Option S
  rhoYPrevious : ι → Option S

section Processor
variable [Field S]

/-- The constructor, `sigma_x_` and `sigma_y_` starting from 0.
mirrors skywing/skywing_mid/push_sum_processor.hpp:36-44 -/
def create (startingValue : S) (numberOfNeighbors : Nat) : PushSumProcessor ι S where
  informationCount := 0
  xValue := startingValue
  yValue := 1
  inNodesPlusOne := numberOfNeighbors + 1
  sigmaX := 0 + startingValue / (numberOfNeighbors + 1)
  sigmaY := 0 + 1 / (numberOfNeighbors + 1)
  rhoX := fun _ => none
  rhoY := fun _ => none
  rhoXPrevious := fun _ => none
  rhoYPrevious := fun _ => none

/-- `get_init_publish_values` and `prepare_for_publication`.
mirrors skywing/skywing_mid/push_sum_processor.hpp:46-47,91-94 -/
def prepareForPublication (p : PushSumProcessor ι S) : ValueType S :=
  (p.sigmaX, p.sigmaY, p.informationCount)

/-- mirrors skywing/skywing_mid/push_sum_processor.hpp:102-106 -/
def getValue (p : PushSumProcessor ι S) : S := p.xValue / p.yValue

variable [DecidableEq ι]

/-- The body of the loop of `process_update`, for the neighbour `tag`: read
the new sums, then wake up.
mirrors skywing/skywing_mid/push_sum_processor.hpp:62-85 -/
def processTag (p : PushSumProcessor ι S) (tag : ι) (nbrValue : ValueType S) : PushSumProcessor ι S :=
  let prevX := (p.rhoX tag).getD 0
  let prevY := (p.rhoY tag).getD 0
  let x := p.xValue + nbrValue.1 - prevX
  let y := p.yValue + nbrValue.2.1 - prevY
  { p with
    rhoXPrevious := Function.update p.rhoXPrevious tag (some prevX)
    rhoYPrevious := Function.update p.rhoYPrevious tag (some prevY)
    rhoX := Function.update p.rhoX tag (some nbrValue.1)
    rhoY := Function.update p.rhoY tag (some nbrValue.2.1)
    sigmaX := p.sigmaX + x / p.inNodesPlusOne
    sigmaY := p.sigmaY + y / p.inNodesPlusOne
    xValue := x / p.inNodesPlusOne
    yValue := y / p.inNodesPlusOne
    informationCount := p.informationCount + 1 }

/-- mirrors skywing/skywing_mid/push_sum_processor.hpp:55-87 -/
def processUpdate (myTag : ι) (p : PushSumProcessor ι S) (updated : List (ι × ValueType S)) :
    PushSumProcessor ι S :=
  updated.foldl (fun p u => if u.1 = myTag then p else processTag p u.1 u.2) p

end Processor

/-! ## Coordinates

`x` and `y` are treated alike; a coordinate picks the fields of one. -/

structure Coord (ι S : Type*) where
  value : PushSumProcessor ι S → S
  sigma : PushSumProcessor ι S → S
  rho : PushSumProcessor ι S → ι → Option S
  read : ValueType S → S

def coordX : Coord ι S := ⟨(·.xValue), (·.sigmaX), (·.rhoX), (·.1)⟩
def coordY : Coord ι S := ⟨(·.yValue), (·.sigmaY), (·.rhoY), (·.2.1)⟩

section Ledger
variable [Field S]

/-- What an agent with out-neighbours and in-neighbours `nbrs` answers for:
what it holds and has ever sent, less what it has read. -/
def ledger (c : Coord ι S) (nbrs : Finset ι) (p : PushSumProcessor ι S) : S :=
  c.value p + nbrs.card * c.sigma p - ∑ j ∈ nbrs, (c.rho p j).getD 0

variable [DecidableEq ι]

/-- `c` moves as one of the two coordinates does. -/
structure Coord.Lawful (c : Coord ι S) : Prop where
  value_tag : ∀ p tag v, c.value (processTag p tag v) =
    (c.value p + c.read v - (c.rho p tag).getD 0) / p.inNodesPlusOne
  sigma_tag : ∀ p tag v, c.sigma (processTag p tag v) =
    c.sigma p + (c.value p + c.read v - (c.rho p tag).getD 0) / p.inNodesPlusOne
  rho_tag : ∀ p tag v, c.rho (processTag p tag v) = Function.update (c.rho p) tag (some (c.read v))

theorem coordX_lawful : (coordX : Coord ι S).Lawful := ⟨fun _ _ _ => rfl, fun _ _ _ => rfl, fun _ _ _ => rfl⟩

theorem coordY_lawful : (coordY : Coord ι S).Lawful := ⟨fun _ _ _ => rfl, fun _ _ _ => rfl, fun _ _ _ => rfl⟩

theorem sum_update_rho (nbrs : Finset ι) (rho : ι → Option S) {tag : ι} (h : tag ∈ nbrs) (v : S) :
    ∑ j ∈ nbrs, (Function.update rho tag (some v) j).getD 0 =
      ∑ j ∈ nbrs, (rho j).getD 0 + v - (rho tag).getD 0 := by
  have hu : ∀ j, (Function.update rho tag (some v) j).getD 0 =
      Function.update (fun j => (rho j).getD 0) tag v j := by
    intro j
    by_cases hj : j = tag
    · subst hj; simp
    · simp [hj]
  simp only [hu]
  rw [Finset.sum_update_of_mem h, ← Finset.add_sum_erase nbrs (fun j => (rho j).getD 0) h,
    Finset.sdiff_singleton_eq_erase]
  ring

/-- One neighbour's value moves mass from the edge to the agent and back
onto its edges, and loses none. -/
theorem ledger_processTag [CharZero S] {c : Coord ι S} (hc : c.Lawful) (nbrs : Finset ι)
    (p : PushSumProcessor ι S) (hn : p.inNodesPlusOne = nbrs.card + 1) {tag : ι} (h : tag ∈ nbrs)
    (v : ValueType S) : ledger c nbrs (processTag p tag v) = ledger c nbrs p := by
  have h0 : (nbrs.card : S) + 1 ≠ 0 := Nat.cast_add_one_ne_zero _
  unfold ledger
  rw [hc.value_tag, hc.sigma_tag, hc.rho_tag, sum_update_rho nbrs _ h, hn]
  field_simp
  ring

theorem processUpdate_inNodes (myTag : ι) (us : List (ι × ValueType S)) (p : PushSumProcessor ι S) :
    (processUpdate myTag p us).inNodesPlusOne = p.inNodesPlusOne := by
  unfold processUpdate
  induction us generalizing p with
  | nil => rfl
  | cons u us ih =>
    simp only [List.foldl_cons]
    rw [ih]
    split <;> rfl

theorem ledger_processUpdate [CharZero S] {c : Coord ι S} (hc : c.Lawful) (nbrs : Finset ι) (myTag : ι)
    (us : List (ι × ValueType S)) (p : PushSumProcessor ι S) (hn : p.inNodesPlusOne = nbrs.card + 1)
    (h : ∀ u ∈ us, u.1 ∈ nbrs) : ledger c nbrs (processUpdate myTag p us) = ledger c nbrs p := by
  unfold processUpdate
  induction us generalizing p with
  | nil => rfl
  | cons u us ih =>
    simp only [List.foldl_cons]
    have hu := h u List.mem_cons_self
    have hus := fun w hw => h w (List.mem_cons_of_mem _ hw)
    split
    · exact ih p hn hus
    · exact (ih (processTag p u.1 u.2) hn hus).trans (ledger_processTag hc nbrs p hn hu u.2)

end Ledger

/-! ## The network -/

/-- `pubs i`: everything `i` has published, in order; `seen i j`: the number
of `j`'s publications up to the last one `i` processed. -/
structure Net (ι : Type*) where
  proc : ι → PushSumProcessor ι ℚ
  pubs : ι → List (ValueType ℚ)
  seen : ι → ι → Nat

inductive Lbl (ι : Type*)
  /-- `i` publishes `prepare_for_publication()` -/
  | publish (i : ι)
  /-- one `process_update` of `i`, given for each updated tag the index of
  the publication it finds there -/
  | update (i : ι) (fresh : List (ι × Nat))

variable [Fintype ι] (G : SimpleGraph ι) [DecidableRel G.Adj]

def init (start : ι → ℚ) : Net ι where
  proc i := create (start i) (G.degree i)
  pubs _ := []
  seen _ _ := 0

/-- The values an update of `i` reads. A publication is read after the ones
before it; later ones may have overwritten it, so indices are skipped
freely. -/
def fetch (s : Net ι) (i : ι) : List (ι × Nat) → Option (List (ι × ValueType ℚ))
  | [] => some []
  | (j, k) :: rest =>
    if G.Adj i j ∧ s.seen i j ≤ k then
      match (s.pubs j)[k]?, fetch s i rest with
      | some v, some vs => some ((j, v) :: vs)
      | _, _ => none
    else none

theorem fetch_adj {s : Net ι} {i : ι} : ∀ {fresh : List (ι × Nat)} {vs : List (ι × ValueType ℚ)},
    fetch G s i fresh = some vs → ∀ u ∈ vs, u.1 ∈ G.neighborFinset i
  | [], vs, h, u, hu => by
    simp only [fetch, Option.some.injEq] at h
    subst h; cases hu
  | (j, k) :: rest, vs, h, u, hu => by
    simp only [fetch] at h
    split at h
    · rename_i hc
      split at h
      · rename_i v vs' _ hvs
        simp only [Option.some.injEq] at h
        subst h
        rcases List.mem_cons.mp hu with rfl | hu
        · exact (G.mem_neighborFinset _ _).mpr hc.1
        · exact fetch_adj hvs u hu
      · cases h
    · cases h

/-- The mass of a coordinate: held by the agents, and on the directed edges. -/
def mass (c : Coord ι ℚ) (s : Net ι) : ℚ :=
  ∑ i, c.value (s.proc i) +
    ∑ i, ∑ j ∈ G.neighborFinset i, (c.sigma (s.proc i) - (c.rho (s.proc j) i).getD 0)

def mean (start : ι → ℚ) : ℚ := (∑ i, start i) / Fintype.card ι

theorem mass_eq_sum_ledger (c : Coord ι ℚ) (s : Net ι) :
    mass G c s = ∑ i, ledger c (G.neighborFinset i) (s.proc i) := by
  have hswap : ∑ i, ∑ j ∈ G.neighborFinset i, (c.rho (s.proc j) i).getD 0 =
      ∑ j, ∑ i ∈ G.neighborFinset j, (c.rho (s.proc j) i).getD 0 :=
    Finset.sum_comm' (by intro x y; simp [G.adj_comm])
  unfold mass ledger
  simp only [Finset.sum_sub_distrib, Finset.sum_add_distrib, hswap, Finset.sum_const, nsmul_eq_mul]
  ring

/-! ## The mass at the start -/

/-- The part of an agent's mass that the constructor puts on its edges
besides leaving it in `x`. -/
def surplus (i : ι) : ℚ := G.degree i / (G.degree i + 1)

theorem surplus_nonneg (i : ι) : 0 ≤ surplus G i := by unfold surplus; positivity

theorem mass_init_x (start : ι → ℚ) : mass G coordX (init G start) = ∑ i, start i * (1 + surplus G i) := by
  rw [mass_eq_sum_ledger]
  refine Finset.sum_congr rfl fun i _ => ?_
  simp only [ledger, coordX, init, create, surplus, SimpleGraph.card_neighborFinset_eq_degree,
    Option.getD_none, Finset.sum_const_zero]
  ring

theorem mass_init_y (start : ι → ℚ) : mass G coordY (init G start) = ∑ i, (1 + surplus G i) := by
  rw [mass_eq_sum_ledger]
  refine Finset.sum_congr rfl fun i _ => ?_
  simp only [ledger, coordY, init, create, surplus, SimpleGraph.card_neighborFinset_eq_degree,
    Option.getD_none, Finset.sum_const_zero]
  ring

/-- The starting values are uncorrelated with `degree / (degree + 1)`. -/
def Uncorrelated (start : ι → ℚ) : Prop := ∑ i, surplus G i * (start i - mean start) = 0

theorem sum_deviation [Nonempty ι] (start : ι → ℚ) : ∑ i, (start i - mean start) = 0 := by
  have hn : (Fintype.card ι : ℚ) ≠ 0 := Nat.cast_ne_zero.mpr Fintype.card_ne_zero
  rw [Finset.sum_sub_distrib, Finset.sum_const, Finset.card_univ, nsmul_eq_mul, mean]
  field_simp
  ring

/-- `X / Y` is the mean of the starting values. -/
def MeanKept (start : ι → ℚ) (s : Net ι) : Prop := mass G coordX s / mass G coordY s = mean start

/-- The ratio of the initial masses misses the mean by the correlation. -/
theorem meanKept_init_iff [Nonempty ι] (start : ι → ℚ) :
    MeanKept G start (init G start) ↔ Uncorrelated G start := by
  have hy : 0 < ∑ i, (1 + surplus G i) :=
    Finset.sum_pos (fun i _ => by have := surplus_nonneg G i; linarith) Finset.univ_nonempty
  have hdiff : ∑ i, start i * (1 + surplus G i) - mean start * ∑ i, (1 + surplus G i) =
      ∑ i, (start i - mean start) + ∑ i, surplus G i * (start i - mean start) := by
    rw [Finset.mul_sum, ← Finset.sum_sub_distrib, ← Finset.sum_add_distrib]
    exact Finset.sum_congr rfl fun i _ => by ring
  rw [sum_deviation, zero_add] at hdiff
  unfold MeanKept Uncorrelated
  rw [mass_init_x, mass_init_y, div_eq_iff hy.ne', ← sub_eq_zero, hdiff]

/-! ## Steps -/

variable [DecidableEq ι]

def step (s : Net ι) : Lbl ι → Option (Net ι)
  | .publish i => some { s with pubs := Function.update s.pubs i (s.pubs i ++ [prepareForPublication (s.proc i)]) }
  | .update i fresh =>
    if (fresh.map Prod.fst).Nodup then
      (fetch G s i fresh).map fun vs =>
        { s with
          proc := Function.update s.proc i (processUpdate i (s.proc i) vs)
          seen := Function.update s.seen i (fresh.foldl (fun f u => Function.update f u.1 (u.2 + 1)) (s.seen i)) }
    else none

def lts (start : ι → ℚ) : LTS (Net ι) (Lbl ι) := LTS.ofFn (· = init G start) (step G)

/-! ## The mass is constant -/

/-- Every agent splits by its degree plus one, and its ledger is what it
was at the start. -/
def Inv (start : ι → ℚ) (s : Net ι) : Prop :=
  ∀ i, (s.proc i).inNodesPlusOne = (G.neighborFinset i).card + 1 ∧
    ∀ c : Coord ι ℚ, c.Lawful →
      ledger c (G.neighborFinset i) (s.proc i) = ledger c (G.neighborFinset i) ((init G start).proc i)

theorem inv_init (start : ι → ℚ) : Inv G start (init G start) := by
  intro i
  exact ⟨by simp [init, create], fun _ _ => rfl⟩

theorem inv_step (start : ι → ℚ) (s t : Net ι) (l : Lbl ι) (hI : Inv G start s)
    (h : step G s l = some t) : Inv G start t := by
  cases l with
  | publish i =>
    simp only [step, Option.some.injEq] at h
    subst h; exact hI
  | update i fresh =>
    simp only [step] at h
    split at h
    · simp only [Option.map_eq_some_iff] at h
      obtain ⟨vs, hvs, rfl⟩ := h
      intro k
      by_cases hk : k = i
      · subst hk
        obtain ⟨hn, hl⟩ := hI k
        simp only [Function.update_self]
        refine ⟨by rw [processUpdate_inNodes]; exact hn, fun c hc => ?_⟩
        rw [ledger_processUpdate hc _ k vs _ hn (fetch_adj G hvs)]
        exact hl c hc
      · simp only [Function.update_of_ne hk]
        exact hI k
    · cases h

theorem inv_inductive (start : ι → ℚ) : (lts G start).Inductive (Inv G start) where
  init := by intro s hs; rw [hs]; exact inv_init G start
  step := fun s l t hI h => inv_step G start s t l hI h

/-- The mass of either coordinate is the same in every reachable state. -/
theorem mass_reachable (start : ι → ℚ) {c : Coord ι ℚ} (hc : c.Lawful) (s : Net ι)
    (h : (lts G start).Reachable s) : mass G c s = mass G c (init G start) := by
  rw [mass_eq_sum_ledger, mass_eq_sum_ledger]
  exact Finset.sum_congr rfl fun i _ => (((inv_inductive G start).reachable s h) i).2 c hc

/-- **Push-sum keeps the mean exactly on uncorrelated starts.** In every
reachable state `X / Y` is the mean of the starting values, if and only if
the starting values are uncorrelated with `degree / (degree + 1)`. -/
theorem mean_preserved_iff (start : ι → ℚ) :
    (∀ s, (lts G start).Reachable s → MeanKept G start s) ↔ Uncorrelated G start := by
  have hconst : ∀ s, (lts G start).Reachable s →
      (MeanKept G start s ↔ MeanKept G start (init G start)) := by
    intro s hs
    unfold MeanKept
    rw [mass_reachable G start coordX_lawful s hs, mass_reachable G start coordY_lawful s hs]
  rcases isEmpty_or_nonempty ι with he | hne
  · -- no agents: both masses, the mean and the correlation are empty sums
    constructor
    · intro _; simp [Uncorrelated]
    · intro _ s _; simp [MeanKept, mass, mean]
  · rw [← meanKept_init_iff]
    constructor
    · intro h; exact h _ (.init rfl)
    · intro h s hs; exact (hconst s hs).mpr h

/-- On a regular graph the mean is always kept. -/
theorem mean_preserved_regular (d : Nat) (hd : ∀ i, G.degree i = d) (start : ι → ℚ) (s : Net ι)
    (h : (lts G start).Reachable s) : MeanKept G start s := by
  refine (mean_preserved_iff G start).mpr ?_ s h
  unfold Uncorrelated surplus
  simp only [hd, ← Finset.mul_sum]
  rcases isEmpty_or_nonempty ι with he | hne
  · simp
  · rw [sum_deviation, mul_zero]

/-! ## A path of three agents -/

def path3 : SimpleGraph (Fin 3) where
  Adj a b := a.val + 1 = b.val ∨ b.val + 1 = a.val
  symm := ⟨fun _ _ h => h.symm⟩
  loopless := ⟨fun a h => by omega⟩

instance : DecidableRel path3.Adj := fun a b => inferInstanceAs (Decidable (a.val + 1 = b.val ∨ b.val + 1 = a.val))

def start3 : Fin 3 → ℚ := fun i => if i = 0 then 1 else 0

/-- With values 1, 0, 0 along a path the ratio is 9/28 from the start,
never 1/3. -/
theorem mean_lost : ∃ s, (lts path3 start3).Reachable s ∧ ¬ MeanKept path3 start3 s := by
  refine ⟨init path3 start3, .init rfl, ?_⟩
  have h0 : path3.degree 0 = 1 := by decide
  have h1 : path3.degree 1 = 2 := by decide
  have h2 : path3.degree 2 = 1 := by decide
  unfold MeanKept
  rw [mass_init_x, mass_init_y]
  have hs : start3 0 = 1 ∧ start3 1 = 0 ∧ start3 2 = 0 := ⟨rfl, rfl, rfl⟩
  simp only [Fin.sum_univ_three, surplus, h0, h1, h2, hs, mean, Fintype.card_fin]
  norm_num

end Skywing.L4.PushSum
