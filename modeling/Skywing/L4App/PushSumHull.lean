import Mathlib.Algebra.Order.Ring.Star
import Mathlib.Data.Rat.Star
import Mathlib.Geometry.Convex.Cone.Pointed
import Skywing.L4App.PushSum

/-!
# Push-sum stays between the starting values

`skywing_mid/push_sum_processor.hpp` on an arbitrary directed graph, with any
`number_of_neighbors` given to the constructors. An agent processes the
publications of a neighbour in order and may miss any of them.

A pair `(x, y)` is a non-negative combination of the starting pairs
`(start a, 1)` when it lies in the cone over them (`cone`), and the ratio of
such a pair lies between the smallest and the largest starting value
(`ratio_mem`). What an agent holds stays in the cone because what it adds is
the difference of two publications, so the sums have to grow along the cone
from each publication to the next: `Grows`, an order.

* `Node`: what holds of an agent while it goes through its updates.
* `value_between`: in every reachable state `y_value_` is positive and
  `get_value()` is between the smallest and the largest starting value.
-/
namespace Skywing.L4.PushSum.Hull

variable {ι : Type*}

/-! ## Pairs -/

def held (p : PushSumProcessor ι ℚ) : ℚ × ℚ := (p.xValue, p.yValue)

def sent (p : PushSumProcessor ι ℚ) : ℚ × ℚ := (p.sigmaX, p.sigmaY)

def recalled (p : PushSumProcessor ι ℚ) (tag : ι) : ℚ × ℚ := ((p.rhoX tag).getD 0, (p.rhoY tag).getD 0)

def sums (v : ValueType ℚ) : ℚ × ℚ := (v.1, v.2.1)

section Tag
variable [DecidableEq ι] (p : PushSumProcessor ι ℚ) (tag : ι) (v : ValueType ℚ)

theorem held_processTag :
    held (processTag p tag v) = p.inNodesPlusOne⁻¹ • (held p + (sums v - recalled p tag)) := by
  ext <;> simp only [held, processTag, sums, recalled, Prod.smul_mk, Prod.mk_add_mk, Prod.mk_sub_mk, smul_eq_mul] <;>
    ring

theorem sent_processTag :
    sent (processTag p tag v) = sent p + p.inNodesPlusOne⁻¹ • (held p + (sums v - recalled p tag)) := by
  ext <;> simp only [sent, held, processTag, sums, recalled, Prod.smul_mk, Prod.mk_add_mk, Prod.mk_sub_mk,
    smul_eq_mul] <;> ring

theorem recalled_processTag_self : recalled (processTag p tag v) tag = sums v := by
  simp [recalled, processTag, sums]

theorem recalled_processTag_ne {j : ι} (h : j ≠ tag) : recalled (processTag p tag v) j = recalled p j := by
  simp [recalled, processTag, h]

end Tag

/-! ## The cone over the starting values -/

section Cone
variable (start : ι → ℚ)

/-- The non-negative combinations of the starting pairs. -/
def cone : PointedCone ℚ (ℚ × ℚ) := PointedCone.hull ℚ (Set.range fun a => (start a, 1))

theorem start_mem (a : ι) : (start a, (1 : ℚ)) ∈ cone start := PointedCone.subset_hull (Set.mem_range_self a)

theorem smul_mem {r : ℚ} (hr : 0 ≤ r) {z : ℚ × ℚ} (hz : z ∈ cone start) : r • z ∈ cone start :=
  Submodule.smul_mem (cone start) (⟨r, hr⟩ : {c : ℚ // 0 ≤ c}) hz

/-- What holds of the starting pairs and is kept by non-negative combinations
holds on the cone. -/
theorem cone_bounds {lo hi : ℚ} (hlo : ∀ a, lo ≤ start a) (hhi : ∀ a, start a ≤ hi) {z : ℚ × ℚ}
    (hz : z ∈ cone start) : 0 ≤ z.2 ∧ lo * z.2 ≤ z.1 ∧ z.1 ≤ hi * z.2 := by
  induction hz using Submodule.span_induction with
  | mem z hz =>
    obtain ⟨a, rfl⟩ := hz
    exact ⟨zero_le_one, by simpa using hlo a, by simpa using hhi a⟩
  | zero => simp
  | add z w _ _ hz hw =>
    obtain ⟨hz₀, hz₁, hz₂⟩ := hz
    obtain ⟨hw₀, hw₁, hw₂⟩ := hw
    refine ⟨add_nonneg hz₀ hw₀, ?_, ?_⟩
    · rw [Prod.snd_add, Prod.fst_add, mul_add]
      exact add_le_add hz₁ hw₁
    · rw [Prod.snd_add, Prod.fst_add, mul_add]
      exact add_le_add hz₂ hw₂
  | smul r z _ hz =>
    obtain ⟨hz₀, hz₁, hz₂⟩ := hz
    obtain ⟨r, hr⟩ := r
    show 0 ≤ r * z.2 ∧ lo * (r * z.2) ≤ r * z.1 ∧ r * z.1 ≤ hi * (r * z.2)
    refine ⟨mul_nonneg hr hz₀, ?_, ?_⟩
    · rw [mul_left_comm]
      exact mul_le_mul_of_nonneg_left hz₁ hr
    · rw [mul_left_comm]
      exact mul_le_mul_of_nonneg_left hz₂ hr

theorem snd_nonneg {z : ℚ × ℚ} (hz : z ∈ cone start) : 0 ≤ z.2 := by
  induction hz using Submodule.span_induction with
  | mem z hz => obtain ⟨a, rfl⟩ := hz; exact zero_le_one
  | zero => exact le_rfl
  | add z w _ _ hz hw => exact add_nonneg hz hw
  | smul r z _ hz => exact mul_nonneg r.2 hz

/-- The sums have grown by a non-negative combination. -/
def Grows (z w : ℚ × ℚ) : Prop := w - z ∈ cone start

variable {start}

theorem Grows.refl (z : ℚ × ℚ) : Grows start z z := by
  unfold Grows
  rw [sub_self]
  exact zero_mem _

theorem Grows.trans {z w u : ℚ × ℚ} (h : Grows start z w) (h' : Grows start w u) : Grows start z u := by
  unfold Grows at *
  rw [← sub_add_sub_cancel u w z]
  exact add_mem h' h

theorem Grows.add {z w d : ℚ × ℚ} (h : Grows start z w) (hd : d ∈ cone start) : Grows start z (w + d) := by
  unfold Grows at *
  rw [add_sub_right_comm]
  exact add_mem h hd

end Cone

/-! ## The network -/

section Network
variable (nbr : ι → ι → Prop) [DecidableRel nbr] [DecidableEq ι]

def init (start : ι → ℚ) (numberOfNeighbors : ι → ℕ) : Net ι where
  proc i := create (start i) (numberOfNeighbors i)
  pubs _ := []
  seen _ _ := 0

/-- The values an update of `i` reads, one neighbour after another, and what
it has seen then. A publication is read after the ones before it. -/
def fetch (pubs : ι → List (ValueType ℚ)) (i : ι) :
    List (ι × ℕ) → (ι → ℕ) → Option (List (ι × ValueType ℚ) × (ι → ℕ))
  | [], seen => some ([], seen)
  | (j, k) :: rest, seen =>
    if nbr i j ∧ seen j ≤ k then
      match (pubs j)[k]?, fetch pubs i rest (Function.update seen j (k + 1)) with
      | some v, some (vs, seen') => some ((j, v) :: vs, seen')
      | _, _ => none
    else none

def step (s : Net ι) : Lbl ι → Option (Net ι)
  | .publish i => some { s with pubs := Function.update s.pubs i (s.pubs i ++ [prepareForPublication (s.proc i)]) }
  | .update i fresh =>
    (fetch nbr s.pubs i fresh (s.seen i)).map fun r =>
      { s with
        proc := Function.update s.proc i (processUpdate i (s.proc i) r.1)
        seen := Function.update s.seen i r.2 }

def lts (start : ι → ℚ) (numberOfNeighbors : ι → ℕ) : LTS (Net ι) (Lbl ι) :=
  LTS.ofFn (· = init start numberOfNeighbors) (step nbr)

end Network

/-! ## The invariant -/

/-- The sums an agent has published, the empty ones before the first. -/
def history (pubs : List (ValueType ℚ)) : List (ℚ × ℚ) := 0 :: pubs.map sums

theorem history_concat (pubs : List (ValueType ℚ)) (v : ValueType ℚ) :
    history (pubs ++ [v]) = history pubs ++ [sums v] := by
  simp [history]

section Invariant
variable (start : ι → ℚ) (numberOfNeighbors : ι → ℕ)

/-- What `i` holds is positive and in the cone; its sums have grown since
each publication; it recalls of a neighbour what it has seen last. -/
structure Node (pubs : ι → List (ValueType ℚ)) (i : ι) (p : PushSumProcessor ι ℚ) (seen : ι → ℕ) : Prop where
  inNodes : p.inNodesPlusOne = numberOfNeighbors i + 1
  held : held p ∈ cone start
  pos : 0 < p.yValue
  sent : ∀ z ∈ history (pubs i), Grows start z (sent p)
  recalled : ∀ j, j ≠ i → (history (pubs j))[seen j]? = some (recalled p j)

structure Inv (s : Net ι) : Prop where
  grows : ∀ i, (history (s.pubs i)).Pairwise (Grows start)
  node : ∀ i, Node start numberOfNeighbors s.pubs i (s.proc i) (s.seen i)

variable {start numberOfNeighbors}

theorem create_node (i : ι) : Node start numberOfNeighbors (fun _ => []) i
    (create (start i) (numberOfNeighbors i)) fun _ => 0 := by
  have hheld : (start i, (1 : ℚ)) ∈ cone start := start_mem start i
  refine ⟨rfl, hheld, zero_lt_one, fun z hz => ?_, fun j _ => rfl⟩
  obtain rfl : z = 0 := List.mem_singleton.mp hz
  have hsent : Hull.sent (create (start i) (numberOfNeighbors i) : PushSumProcessor ι ℚ) =
      (0 : ℚ × ℚ) + ((numberOfNeighbors i : ℚ) + 1)⁻¹ • (start i, (1 : ℚ)) := by
    ext <;> simp only [Hull.sent, create, Prod.smul_mk, smul_eq_mul, zero_add] <;> ring
  rw [hsent]
  exact (Grows.refl 0).add (smul_mem start (by positivity) hheld)

variable [DecidableEq ι] {pubs : ι → List (ValueType ℚ)} {i : ι} {p : PushSumProcessor ι ℚ} {seen : ι → ℕ}

/-- Reading a later publication of `j` adds to what is held. -/
theorem Node.read (hg : ∀ j, (history (pubs j)).Pairwise (Grows start))
    (h : Node start numberOfNeighbors pubs i p seen) {j : ι} {k : ℕ} {v : ValueType ℚ} (hji : j ≠ i)
    (hk : seen j ≤ k) (hv : (pubs j)[k]? = some v) :
    Node start numberOfNeighbors pubs i (processTag p j v) (Function.update seen j (k + 1)) := by
  have hread : (history (pubs j))[k + 1]? = some (sums v) := by
    rw [history, List.getElem?_cons_succ, List.getElem?_map, hv]
    rfl
  have hnew : sums v - Hull.recalled p j ∈ cone start := by
    obtain ⟨hlt, hs⟩ := List.getElem?_eq_some_iff.mp (h.recalled j hji)
    obtain ⟨hlt', hs'⟩ := List.getElem?_eq_some_iff.mp hread
    have := List.pairwise_iff_getElem.mp (hg j) (seen j) (k + 1) hlt hlt' (by omega)
    rwa [hs, hs'] at this
  have hn : 0 < p.inNodesPlusOne := by
    rw [h.inNodes]
    positivity
  have hmid := add_mem h.held hnew
  have hpart := smul_mem start (inv_nonneg.mpr hn.le) hmid
  refine ⟨h.inNodes, ?_, ?_, fun z hz => ?_, fun x hx => ?_⟩
  · rw [held_processTag]
    exact hpart
  · have hy : (processTag p j v).yValue =
        p.inNodesPlusOne⁻¹ * (p.yValue + (sums v - Hull.recalled p j).2) :=
      congrArg Prod.snd (held_processTag p j v)
    rw [hy]
    apply mul_pos (inv_pos.mpr hn)
    exact add_pos_of_pos_of_nonneg h.pos (snd_nonneg start hnew)
  · rw [sent_processTag]
    exact (h.sent z hz).add hpart
  · by_cases hxj : x = j
    · subst hxj
      rw [Function.update_self, recalled_processTag_self]
      exact hread
    · rw [Function.update_of_ne hxj, recalled_processTag_ne p j v hxj]
      exact h.recalled x hx

theorem Node.skip (h : Node start numberOfNeighbors pubs i p seen) (k : ℕ) :
    Node start numberOfNeighbors pubs i p (Function.update seen i k) := by
  refine ⟨h.inNodes, h.held, h.pos, h.sent, fun x hx => ?_⟩
  rw [Function.update_of_ne hx]
  exact h.recalled x hx

variable (nbr : ι → ι → Prop) [DecidableRel nbr]

theorem Node.updates (hg : ∀ j, (history (pubs j)).Pairwise (Grows start)) :
    ∀ (fresh : List (ι × ℕ)) {p : PushSumProcessor ι ℚ} {seen : ι → ℕ} {vs : List (ι × ValueType ℚ)}
      {seen' : ι → ℕ}, Node start numberOfNeighbors pubs i p seen →
      fetch nbr pubs i fresh seen = some (vs, seen') →
      Node start numberOfNeighbors pubs i (processUpdate i p vs) seen'
  | [], p, seen, vs, seen', h, hf => by
    cases hf
    exact h
  | (j, k) :: rest, p, seen, vs, seen', h, hf => by
    rw [fetch] at hf
    split at hf
    · rename_i hc
      split at hf
      · rename_i v vs' seen'' hv hrest
        cases hf
        show Node start numberOfNeighbors pubs i
          (processUpdate i (if j = i then p else processTag p j v) vs') _
        by_cases hji : j = i
        · rw [if_pos hji]
          rw [hji] at hrest
          exact Node.updates hg rest (h.skip (k + 1)) hrest
        · rw [if_neg hji]
          exact Node.updates hg rest (h.read hg hji hc.2 hv) hrest
      · cases hf
    · cases hf

/-- A publication leaves what others recall as it is. -/
theorem Node.publish {a : ι} (h : Node start numberOfNeighbors pubs i p seen) {v : ValueType ℚ}
    (hv : a = i → sums v = Hull.sent p) :
    Node start numberOfNeighbors (Function.update pubs a (pubs a ++ [v])) i p seen := by
  refine ⟨h.inNodes, h.held, h.pos, fun z hz => ?_, fun j hj => ?_⟩
  · by_cases hai : a = i
    · subst hai
      rw [Function.update_self, history_concat, List.mem_append, List.mem_singleton] at hz
      rcases hz with hz | rfl
      · exact h.sent z hz
      · rw [hv rfl]
        exact .refl _
    · rw [Function.update_of_ne (Ne.symm hai)] at hz
      exact h.sent z hz
  · have hr := h.recalled j hj
    by_cases hja : j = a
    · subst hja
      rw [Function.update_self, history_concat,
        List.getElem?_append_left (List.getElem?_eq_some_iff.mp hr).1]
      exact hr
    · rw [Function.update_of_ne hja]
      exact hr

omit [DecidableEq ι] in
theorem inv_init : Inv start numberOfNeighbors (init start numberOfNeighbors) :=
  ⟨fun _ => List.pairwise_singleton _ _, create_node⟩

theorem inv_step {s t : Net ι} {l : Lbl ι} (hI : Inv start numberOfNeighbors s) (h : step nbr s l = some t) :
    Inv start numberOfNeighbors t := by
  cases l with
  | publish a =>
    cases h
    refine ⟨fun i => ?_, fun i => (hI.node i).publish fun hai => ?_⟩
    · by_cases hia : i = a
      · subst hia
        show (history (Function.update s.pubs i _ i)).Pairwise _
        rw [Function.update_self, history_concat, List.pairwise_append]
        refine ⟨hI.grows i, List.pairwise_singleton _ _, fun z hz w hw => ?_⟩
        rw [List.mem_singleton.mp hw]
        exact (hI.node i).sent z hz
      · show (history (Function.update s.pubs a _ i)).Pairwise _
        rw [Function.update_of_ne hia]
        exact hI.grows i
    · subst hai
      rfl
  | update a fresh =>
    simp only [step, Option.map_eq_some_iff] at h
    obtain ⟨⟨vs, seen'⟩, hf, rfl⟩ := h
    refine ⟨hI.grows, fun i => ?_⟩
    by_cases hia : i = a
    · subst hia
      show Node start numberOfNeighbors s.pubs i (Function.update s.proc i _ i) (Function.update s.seen i _ i)
      rw [Function.update_self, Function.update_self]
      exact Node.updates nbr hI.grows fresh (hI.node i) hf
    · show Node start numberOfNeighbors s.pubs i (Function.update s.proc a _ i) (Function.update s.seen a _ i)
      rw [Function.update_of_ne hia, Function.update_of_ne hia]
      exact hI.node i

theorem inv_inductive : (lts nbr start numberOfNeighbors).Inductive (Inv start numberOfNeighbors) where
  init := by
    intro s hs
    rw [hs]
    exact inv_init
  step := fun _ _ _ hI h => inv_step nbr hI h

end Invariant

/-! ## The estimates -/

/-- The ratio of a pair in the cone lies between the bounds of the starting
values. -/
theorem ratio_mem {start : ι → ℚ} {lo hi : ℚ} (hlo : ∀ a, lo ≤ start a) (hhi : ∀ a, start a ≤ hi) {z : ℚ × ℚ}
    (hz : z ∈ cone start) (hpos : 0 < z.2) : z.1 / z.2 ∈ Set.Icc lo hi := by
  obtain ⟨-, h₁, h₂⟩ := cone_bounds start hlo hhi hz
  exact ⟨(le_div_iff₀ hpos).mpr h₁, (div_le_iff₀ hpos).mpr h₂⟩

/-- **Estimates stay in the convex hull.** In every reachable state every
agent has a positive `y_value_`, and its `get_value()` lies between the
smallest and the largest starting value. -/
theorem value_between [Fintype ι] [DecidableEq ι] (nbr : ι → ι → Prop) [DecidableRel nbr] (start : ι → ℚ)
    (numberOfNeighbors : ι → ℕ) (s : Net ι) (h : (lts nbr start numberOfNeighbors).Reachable s) (i : ι) :
    0 < (s.proc i).yValue ∧ getValue (s.proc i) ∈
      Set.Icc (Finset.univ.inf' ⟨i, Finset.mem_univ i⟩ start) (Finset.univ.sup' ⟨i, Finset.mem_univ i⟩ start) := by
  have hnode := ((inv_inductive nbr).reachable s h).node i
  refine ⟨hnode.pos, ratio_mem (fun a => ?_) (fun a => ?_) hnode.held hnode.pos⟩
  · exact Finset.inf'_le start (Finset.mem_univ a)
  · exact Finset.le_sup' start (Finset.mem_univ a)

def start2 : Fin 2 → ℚ := fun i => if i = 0 then 0 else 1

/-- The second agent misses the first publication. -/
theorem value_between_pair : ∃ s,
    LTS.exec (step (· ≠ ·)) (init start2 fun _ => 1) [.publish 0, .publish 0, .update 1 [(0, 1)]] = some s ∧
      0 < (s.proc 1).yValue ∧ getValue (s.proc 1) ∈
        Set.Icc (Finset.univ.inf' ⟨1, Finset.mem_univ 1⟩ start2) (Finset.univ.sup' ⟨1, Finset.mem_univ 1⟩ start2) := by
  obtain ⟨s, hx⟩ : ∃ s, LTS.exec (step (· ≠ ·)) (init start2 fun _ => 1)
      [.publish 0, .publish 0, .update 1 [(0, 1)]] = some s := ⟨_, rfl⟩
  exact ⟨s, hx, value_between (· ≠ ·) start2 (fun _ => 1) s (LTS.reachable_of_exec rfl hx) 1⟩

end Skywing.L4.PushSum.Hull
