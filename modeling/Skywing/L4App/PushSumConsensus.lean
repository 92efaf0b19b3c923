import Mathlib.Combinatorics.SimpleGraph.Connectivity.Connected
import Skywing.Core.Windows
import Skywing.L4App.PushSum

/-!
# Push-sum comes to a consensus

`skywing_mid/push_sum_processor.hpp` on the network of `PushSum`: agents
publish, skip publications and read them late. A schedule is looked at tag by
tag (`parts`): an update that processes several neighbours is several steps.

With `hi * y - x` and `x - lo * y` for the two coordinates, an estimate
`x / y` between `lo` and `hi` is one that holds no negative amount of either.
Both are moved about as `x` and `y` are (`combination`), and neither is lost.
What an agent or an edge holds gets to every agent (`everybody_gets`), but for
a factor that only depends on the pace of the schedule and the size of the
network. So after some time every agent holds a fixed part of all there is
(`mixed`), and is away from either bound; the edges follow, once what was sent
before has been read (`nonneg_later`).

* `estimates_converge`: on a connected graph, in a run that publishes and reads
  every edge in every `B` steps and reads nothing older than the newest
  publication of `B` steps before, the distance of every `get_value()` to
  `weightedMean` goes down geometrically. That is the mean of the starting
  values in which an agent of degree `d` has the weight `1 + d / (d + 1)`.
-/
namespace Skywing.L4.PushSum.Consensus

variable {ι : Type*}

/-! ## Combinations of the coordinates -/

def combination (a b : ℚ) : Coord ι ℚ where
  value p := a * p.xValue + b * p.yValue
  sigma p := a * p.sigmaX + b * p.sigmaY
  rho p j := some (a * (p.rhoX j).getD 0 + b * (p.rhoY j).getD 0)
  read v := a * v.1 + b * v.2.1

/-- A coordinate that agents publish, and of which they have read nothing at
first. -/
structure Sent [DecidableEq ι] (c : Coord ι ℚ) : Prop where
  lawful : c.Lawful
  read_publication : ∀ p, c.read (prepareForPublication p) = c.sigma p

theorem combination_sent [DecidableEq ι] (a b : ℚ) : Sent (combination a b : Coord ι ℚ) where
  lawful := by
    refine ⟨fun p tag v => ?_, fun p tag v => ?_, fun p tag v => ?_⟩
    · simp only [combination, processTag, Option.getD_some]
      ring
    · simp only [combination, processTag, Option.getD_some]
      ring
    · funext j
      by_cases hj : j = tag
      · subst hj
        simp [combination, processTag]
      · simp [combination, processTag, hj]
  read_publication _ := rfl

def held (c : Coord ι ℚ) (s : Net ι) (i : ι) : ℚ := c.value (s.proc i)

/-- The sum of all that `i` has split off. -/
def sum (c : Coord ι ℚ) (s : Net ι) (i : ι) : ℚ := c.sigma (s.proc i)

/-- What `i` has read of the sum of `j`. -/
def known (c : Coord ι ℚ) (s : Net ι) (i j : ι) : ℚ := (c.rho (s.proc i) j).getD 0

/-- The sums that `j` has published since a publication, and its sum now. -/
def since (c : Coord ι ℚ) (s : Net ι) (j : ι) (cut : ℕ) : List ℚ := ((s.pubs j).drop cut).map c.read ++ [sum c s j]

section Mass
variable [Fintype ι] (G : SimpleGraph ι) [DecidableRel G.Adj]

theorem mass_eq (c : Coord ι ℚ) (s : Net ι) :
    mass G c s = ∑ i, (held c s i + ∑ j ∈ G.neighborFinset i, (sum c s i - known c s j i)) :=
  Finset.sum_add_distrib.symm

theorem mass_combination (a b : ℚ) (s : Net ι) :
    mass G (combination a b) s = a * mass G coordX s + b * mass G coordY s := by
  simp only [mass, combination, coordX, coordY, Option.getD_some, mul_add, Finset.mul_sum, Finset.sum_add_distrib,
    mul_sub, Finset.sum_sub_distrib]
  ring

end Mass

/-! ## Tag by tag -/

/-- An update is an update for each of its tags. -/
def parts : Lbl ι → List (Lbl ι)
  | .publish i => [.publish i]
  | .update i fresh => fresh.map fun e => .update i [e]

def publication [DecidableEq ι] (s : Net ι) (i : ι) : Net ι :=
  { s with pubs := Function.update s.pubs i (s.pubs i ++ [prepareForPublication (s.proc i)]) }

/-- `i` reads the publication `k` of `j`. -/
def reading [DecidableEq ι] (s : Net ι) (i j : ι) (k : ℕ) (v : ValueType ℚ) : Net ι :=
  { s with
    proc := Function.update s.proc i (processTag (s.proc i) j v)
    seen := Function.update s.seen i (Function.update (s.seen i) j (k + 1)) }

section Parts
variable {G : SimpleGraph ι} [DecidableRel G.Adj]

theorem fetch_congr {s t : Net ι} {i : ι} (hpubs : t.pubs = s.pubs) : ∀ {fresh : List (ι × ℕ)},
    (∀ e ∈ fresh, t.seen i e.1 = s.seen i e.1) → fetch G t i fresh = fetch G s i fresh
  | [], _ => rfl
  | (j, k) :: rest, h => by
    obtain ⟨hj, hrest⟩ := List.forall_mem_cons.mp h
    rw [fetch, fetch, fetch_congr hpubs hrest, hpubs, hj]

theorem fetch_cons {s : Net ι} {i j : ι} {k : ℕ} {rest : List (ι × ℕ)} {vs : List (ι × ValueType ℚ)}
    (h : fetch G s i ((j, k) :: rest) = some vs) : G.Adj i j ∧ s.seen i j ≤ k ∧
      ∃ v vs', (s.pubs j)[k]? = some v ∧ fetch G s i rest = some vs' ∧ vs = (j, v) :: vs' := by
  rw [fetch] at h
  split at h
  · rename_i hc
    split at h
    · rename_i v vs' hv hvs'
      cases h
      exact ⟨hc.1, hc.2, v, vs', hv, hvs', rfl⟩
    · cases h
  · cases h

variable [DecidableEq ι]

theorem step_update {s t : Net ι} {i j : ι} {k : ℕ} (h : step G s (.update i [(j, k)]) = some t) :
    G.Adj i j ∧ s.seen i j ≤ k ∧ ∃ v, (s.pubs j)[k]? = some v ∧ t = reading s i j k v := by
  simp only [step, List.map_cons, List.map_nil] at h
  rw [if_pos (List.nodup_singleton j)] at h
  obtain ⟨vs, hvs, rfl⟩ := Option.map_eq_some_iff.mp h
  obtain ⟨hadj, hseen, v, vs', hv, hvs', rfl⟩ := fetch_cons hvs
  cases hvs'
  have hne : j ≠ i := hadj.ne'
  refine ⟨hadj, hseen, v, hv, ?_⟩
  unfold processUpdate
  rw [List.foldl_cons, List.foldl_nil, if_neg hne]
  rfl

theorem step_of_read {s : Net ι} {i j : ι} {k : ℕ} {v : ValueType ℚ} (hadj : G.Adj i j) (hseen : s.seen i j ≤ k)
    (hv : (s.pubs j)[k]? = some v) : step G s (.update i [(j, k)]) = some (reading s i j k v) := by
  have hne : j ≠ i := hadj.ne'
  simp only [step, List.map_cons, List.map_nil]
  rw [if_pos (List.nodup_singleton j)]
  simp only [fetch]
  rw [if_pos ⟨hadj, hseen⟩, hv]
  simp only [Option.map_some, processUpdate, List.foldl_cons, List.foldl_nil, if_neg hne]
  rfl

theorem exec_updates {i : ι} : ∀ {fresh : List (ι × ℕ)} {s : Net ι} {vs : List (ι × ValueType ℚ)},
    (fresh.map Prod.fst).Nodup → fetch G s i fresh = some vs →
    LTS.exec (step G) s (fresh.map fun e => .update i [e]) = some { s with
      proc := Function.update s.proc i (processUpdate i (s.proc i) vs)
      seen := Function.update s.seen i (fresh.foldl (fun f u => Function.update f u.1 (u.2 + 1)) (s.seen i)) }
  | [], s, vs, _, h => by
    cases h
    simp only [List.map_nil, LTS.exec, processUpdate, List.foldl_nil, Function.update_eq_self]
  | (j, k) :: rest, s, vs, hnodup, h => by
    obtain ⟨hadj, hseen, v, vs', hv, hvs', rfl⟩ := fetch_cons h
    obtain ⟨hj, hnodup⟩ := List.nodup_cons.mp hnodup
    have hne : j ≠ i := hadj.ne'
    have hpubs : (reading s i j k v).pubs = s.pubs := rfl
    have hrest : fetch G (reading s i j k v) i rest = some vs' := by
      rw [← hvs']
      refine fetch_congr hpubs fun e he => ?_
      have hej : e.1 ≠ j := fun hej => hj (List.mem_map.mpr ⟨e, he, hej⟩)
      simp only [reading, Function.update_self, Function.update_of_ne hej]
    rw [List.map_cons, LTS.exec, step_of_read hadj hseen hv, Option.bind_some, exec_updates hnodup hrest]
    simp only [reading, Function.update_self, Function.update_idem, processUpdate, List.foldl_cons, if_neg hne]

/-- A run and its schedule tag by tag come to the same. -/
theorem exec_parts : ∀ (ls : List (Lbl ι)) {s t : Net ι}, LTS.exec (step G) s ls = some t →
    LTS.exec (step G) s (ls.flatMap parts) = some t
  | [], _, _, h => h
  | l :: ls, s, t, h => by
    obtain ⟨u, hu, h⟩ := Option.bind_eq_some_iff.mp h
    have hone : LTS.exec (step G) s (parts l) = some u := by
      cases l with
      | publish i => exact Option.bind_eq_some_iff.mpr ⟨u, hu, rfl⟩
      | update i fresh =>
        simp only [step] at hu
        split at hu
        · rename_i hnodup
          obtain ⟨vs, hvs, rfl⟩ := Option.map_eq_some_iff.mp hu
          exact exec_updates hnodup hvs
        · cases hu
    rw [List.flatMap_cons, LTS.exec_append, hone]
    exact exec_parts ls h

/-- What a step can do, tag by tag. -/
theorem step_cases {ls : List (Lbl ι)} {l : Lbl ι} {s t : Net ι} (hl : l ∈ ls.flatMap parts)
    (h : step G s l = some t) :
    (∃ i, l = .publish i ∧ t = publication s i) ∨
      ∃ i j k v, l = .update i [(j, k)] ∧ G.Adj i j ∧ s.seen i j ≤ k ∧ (s.pubs j)[k]? = some v ∧
        t = reading s i j k v := by
  obtain ⟨l', -, hl⟩ := List.mem_flatMap.mp hl
  cases l' with
  | publish i =>
    obtain rfl := List.mem_singleton.mp hl
    cases h
    exact .inl ⟨i, rfl, rfl⟩
  | update i fresh =>
    obtain ⟨⟨j, k⟩, -, rfl⟩ := List.mem_map.mp hl
    obtain ⟨hadj, hseen, v, hv, rfl⟩ := step_update h
    exact .inr ⟨i, j, k, v, rfl, hadj, hseen, hv, rfl⟩

end Parts

/-! ## What a step does to a coordinate -/

section Coordinates
variable [DecidableEq ι] {c : Coord ι ℚ} {s : Net ι} {i j : ι} {k : ℕ} {v : ValueType ℚ}

theorem proc_reading : (reading s i j k v).proc i = processTag (s.proc i) j v := Function.update_self ..

theorem proc_reading_ne {m : ι} (h : m ≠ i) : (reading s i j k v).proc m = s.proc m := Function.update_of_ne h ..

theorem held_reading (hc : Sent c) : held c (reading s i j k v) i =
    (held c s i + (c.read v - known c s i j)) / (s.proc i).inNodesPlusOne := by
  unfold held known
  rw [proc_reading, hc.lawful.value_tag, add_sub_assoc]

theorem held_reading_ne {m : ι} (h : m ≠ i) : held c (reading s i j k v) m = held c s m := by
  unfold held
  rw [proc_reading_ne h]

theorem sum_reading (hc : Sent c) : sum c (reading s i j k v) i = sum c s i + held c (reading s i j k v) i := by
  unfold sum held
  rw [proc_reading, hc.lawful.sigma_tag, hc.lawful.value_tag]

theorem sum_reading_ne {m : ι} (h : m ≠ i) : sum c (reading s i j k v) m = sum c s m := by
  unfold sum
  rw [proc_reading_ne h]

theorem known_reading (hc : Sent c) : known c (reading s i j k v) i j = c.read v := by
  unfold known
  rw [proc_reading, hc.lawful.rho_tag, Function.update_self, Option.getD_some]

theorem known_reading_ne (hc : Sent c) {m x : ι} (h : m ≠ i ∨ x ≠ j) :
    known c (reading s i j k v) m x = known c s m x := by
  unfold known
  by_cases hm : m = i
  · subst hm
    rw [proc_reading, hc.lawful.rho_tag, Function.update_of_ne (h.resolve_left (absurd rfl))]
  · rw [proc_reading_ne hm]

theorem seen_reading : (reading s i j k v).seen i j = k + 1 := by
  show Function.update s.seen i _ i j = _
  rw [Function.update_self, Function.update_self]

theorem seen_reading_ne {m x : ι} (h : m ≠ i ∨ x ≠ j) : (reading s i j k v).seen m x = s.seen m x := by
  show Function.update s.seen i _ m x = _
  by_cases hm : m = i
  · subst hm
    rw [Function.update_self, Function.update_of_ne (h.resolve_left (absurd rfl))]
  · rw [Function.update_of_ne hm]

omit [DecidableEq ι] in
/-- What has been published since a publication, with it. -/
theorem read_cons {l : List (ValueType ℚ)} (hv : l[k]? = some v) :
    c.read v :: (l.drop (k + 1)).map c.read = (l.drop k).map c.read := by
  obtain ⟨hlt, rfl⟩ := List.getElem?_eq_some_iff.mp hv
  rw [List.drop_eq_getElem_cons hlt, List.map_cons]

theorem since_reading (cut : ℕ) (m : ι) :
    since c (reading s i j k v) m cut = ((s.pubs m).drop cut).map c.read ++ [sum c (reading s i j k v) m] := rfl

theorem pubs_publication : (publication s i).pubs i = s.pubs i ++ [prepareForPublication (s.proc i)] :=
  Function.update_self ..

theorem pubs_publication_ne {m : ι} (h : m ≠ i) : (publication s i).pubs m = s.pubs m := Function.update_of_ne h ..

/-- A publication repeats the sum that is there. -/
theorem since_publication (hc : Sent c) (cut : ℕ) (m : ι) :
    (since c (publication s i) m cut).Sublist (since c s m cut ++ [sum c s m]) := by
  have hsum : sum c (publication s i) m = sum c s m := rfl
  unfold since
  rw [hsum]
  by_cases hm : m = i
  · subst hm
    rw [pubs_publication, List.drop_append, List.map_append]
    refine List.Sublist.append (List.Sublist.append_left ?_ _) (.refl _)
    have hlast : List.Sublist _ (List.map c.read [prepareForPublication (s.proc m)]) :=
      (List.drop_sublist (cut - (s.pubs m).length) _).map c.read
    rw [List.map_singleton, hc.read_publication] at hlast
    exact hlast
  · rw [pubs_publication_ne hm]
    exact List.sublist_append_left _ _

end Coordinates

/-! ## Nothing negative -/

theorem pairwise_raise {l : List ℚ} {x y : ℚ} (h : (l ++ [x]).Pairwise (· ≤ ·)) (hxy : x ≤ y) :
    (l ++ [y]).Pairwise (· ≤ ·) := by
  obtain ⟨hl, -, hx⟩ := List.pairwise_append.mp h
  refine List.pairwise_append.mpr ⟨hl, List.pairwise_singleton _ _, fun a ha b hb => ?_⟩
  rw [List.mem_singleton.mp hb]
  exact (hx a ha x (List.mem_singleton_self x)).trans hxy

theorem pairwise_repeat {l : List ℚ} {x : ℚ} (h : (l ++ [x]).Pairwise (· ≤ ·)) :
    (l ++ [x] ++ [x]).Pairwise (· ≤ ·) := by
  refine List.pairwise_append.mpr ⟨h, List.pairwise_singleton _ _, fun a ha b hb => ?_⟩
  rw [List.mem_singleton.mp hb]
  rcases List.mem_append.mp ha with ha | ha
  · exact (List.pairwise_append.mp h).2.2 a ha x (List.mem_singleton_self x)
  · exact (List.mem_singleton.mp ha).le

section Nonneg
variable [Fintype ι] {G : SimpleGraph ι} [DecidableRel G.Adj]

variable (G) in
/-- Nobody holds a negative amount, and what is still to be read of a sum only
adds to what was. -/
structure Nonneg (c : Coord ι ℚ) (s : Net ι) : Prop where
  splits : ∀ i, (s.proc i).inNodesPlusOne = G.degree i + 1
  amount : ∀ i, 0 ≤ held c s i
  rising : ∀ i j, G.Adj i j → (known c s i j :: since c s j (s.seen i j)).Pairwise (· ≤ ·)

variable (ι) in
/-- The least part that is kept of what is held. -/
def share : ℚ := 1 / Fintype.card ι

theorem share_pos [Nonempty ι] : 0 < share ι := one_div_pos.mpr (Nat.cast_pos.mpr Fintype.card_pos)

theorem share_le_one [Nonempty ι] : share ι ≤ 1 := by
  unfold share
  rw [div_le_one (Nat.cast_pos.mpr Fintype.card_pos)]
  exact Nat.one_le_cast.mpr Fintype.card_pos

theorem share_le (G : SimpleGraph ι) [DecidableRel G.Adj] (i : ι) : share ι ≤ 1 / (G.degree i + 1) := by
  refine one_div_le_one_div_of_le (by positivity) ?_
  exact_mod_cast G.degree_lt_card_verts i

variable {c : Coord ι ℚ} {s t : Net ι}

theorem Nonneg.known_le (h : Nonneg G c s) {i j : ι} (hadj : G.Adj i j) : known c s i j ≤ sum c s j :=
  (List.pairwise_cons.mp (h.rising i j hadj)).1 _ (List.mem_append_right _ (List.mem_singleton_self _))

theorem Nonneg.known_le_read (h : Nonneg G c s) {i j : ι} (hadj : G.Adj i j) {k : ℕ} {v : ValueType ℚ}
    (hk : s.seen i j ≤ k) (hv : (s.pubs j)[k]? = some v) : known c s i j ≤ c.read v := by
  refine (List.pairwise_cons.mp (h.rising i j hadj)).1 _ (List.mem_append_left _ (List.mem_map_of_mem ?_))
  refine List.mem_of_getElem? (i := k - s.seen i j) ?_
  rw [List.getElem?_drop, Nat.add_sub_cancel' hk]
  exact hv

variable [DecidableEq ι]

/-- A part at least of what an agent holds and reads stays with it. -/
theorem Nonneg.share_le_held [Nonempty ι] (hc : Sent c) (h : Nonneg G c s) {i j : ι} (hadj : G.Adj i j) {k : ℕ}
    {v : ValueType ℚ} (hk : s.seen i j ≤ k) (hv : (s.pubs j)[k]? = some v) :
    share ι * (held c s i + (c.read v - known c s i j)) ≤ held c (reading s i j k v) i := by
  have hnew : 0 ≤ held c s i + (c.read v - known c s i j) :=
    add_nonneg (h.amount i) (sub_nonneg.mpr (h.known_le_read hadj hk hv))
  rw [held_reading hc, h.splits, div_eq_mul_one_div, mul_comm]
  exact mul_le_mul_of_nonneg_left (share_le G i) hnew

theorem nonneg_publication (hc : Sent c) (h : Nonneg G c s) (i : ι) : Nonneg G c (publication s i) := by
  refine ⟨h.splits, h.amount, fun m j hadj => ?_⟩
  have hrep : (known c s m j :: ((s.pubs j).drop (s.seen m j)).map c.read ++ [sum c s j] ++ [sum c s j]).Pairwise
      (· ≤ ·) := pairwise_repeat (h.rising m j hadj)
  exact hrep.sublist ((since_publication hc _ j).cons_cons _)

theorem nonneg_reading [Nonempty ι] (hc : Sent c) (h : Nonneg G c s) {i j : ι} (hadj : G.Adj i j) {k : ℕ}
    {v : ValueType ℚ} (hk : s.seen i j ≤ k) (hv : (s.pubs j)[k]? = some v) : Nonneg G c (reading s i j k v) := by
  have hread := h.known_le_read hadj hk hv
  have hheld : 0 ≤ held c (reading s i j k v) i :=
    (mul_nonneg share_pos.le (add_nonneg (h.amount i) (sub_nonneg.mpr hread))).trans (h.share_le_held hc hadj hk hv)
  refine ⟨fun m => ?_, fun m => ?_, fun m x hmx => ?_⟩
  · by_cases hm : m = i
    · subst hm
      show (Function.update s.proc m _ m).inNodesPlusOne = _
      rw [Function.update_self]
      exact h.splits m
    · show (Function.update s.proc i _ m).inNodesPlusOne = _
      rw [Function.update_of_ne hm]
      exact h.splits m
  · by_cases hm : m = i
    · exact hm ▸ hheld
    · rw [held_reading_ne hm]
      exact h.amount m
  · -- what is left to be read of a sum, with the sum as it was
    have hleft : (known c (reading s i j k v) m x ::
        ((s.pubs x).drop ((reading s i j k v).seen m x)).map c.read ++ [sum c s x]).Pairwise
          (· ≤ ·) := by
      by_cases he : m = i ∧ x = j
      · obtain ⟨rfl, rfl⟩ := he
        rw [known_reading hc, seen_reading, read_cons hv]
        refine (List.pairwise_cons.mp (h.rising m x hmx)).2.sublist (List.Sublist.append_right ?_ _)
        exact (List.drop_sublist_drop_left _ hk).map c.read
      · have hne : m ≠ i ∨ x ≠ j := not_and_or.mp he
        rw [known_reading_ne hc hne, seen_reading_ne hne]
        exact h.rising m x hmx
    rw [since_reading]
    refine pairwise_raise hleft ?_
    by_cases hx : x = i
    · subst hx
      rw [sum_reading hc]
      exact le_add_of_nonneg_right hheld
    · rw [sum_reading_ne hx]

end Nonneg

/-! ## Some steps later -/

section Later
variable [Fintype ι] [Nonempty ι] (G : SimpleGraph ι) [DecidableRel G.Adj]

/-- What is left in `t` of what was there in `s`, `m` steps before. -/
structure Later (c : Coord ι ℚ) (s : Net ι) (m : ℕ) (t : Net ι) : Prop where
  nonneg : Nonneg G c t
  held : ∀ i, share ι ^ m * held c s i ≤ held c t i
  got : ∀ i j, G.Adj i j → share ι ^ m * (known c t i j - known c s i j) ≤ Consensus.held c t i
  known : ∀ i j, G.Adj i j → known c s i j ≤ known c t i j
  sum : ∀ i, sum c s i ≤ sum c t i
  fresh : ∀ j k v, (s.pubs j).length ≤ k → (t.pubs j)[k]? = some v → Consensus.sum c s j ≤ c.read v

variable {G} {c : Coord ι ℚ} {s t u : Net ι} {m : ℕ}

omit [Nonempty ι] in
theorem later_refl (h : Nonneg G c s) : Later G c s 0 s := by
  refine ⟨h, fun i => ?_, fun i j _ => ?_, fun _ _ _ => le_rfl, fun _ => le_rfl, fun j k v hk hv => ?_⟩
  · rw [pow_zero, one_mul]
  · rw [sub_self, mul_zero]
    exact h.amount i
  · rw [List.getElem?_eq_none hk] at hv
    cases hv

variable [DecidableEq ι]

/-- A share of what anybody holds is left by a step. -/
theorem share_le_reading (hc : Sent c) (h : Nonneg G c t) {i j : ι} (hadj : G.Adj i j) {k : ℕ} {v : ValueType ℚ}
    (hk : t.seen i j ≤ k) (hv : (t.pubs j)[k]? = some v) (x : ι) :
    share ι * held c t x ≤ held c (reading t i j k v) x := by
  by_cases hx : x = i
  · subst hx
    refine le_trans (mul_le_mul_of_nonneg_left ?_ share_pos.le) (h.share_le_held hc hadj hk hv)
    exact le_add_of_nonneg_right (sub_nonneg.mpr (h.known_le_read hadj hk hv))
  · rw [held_reading_ne hx]
    exact mul_le_of_le_one_left (h.amount x) share_le_one

theorem later_publication (hc : Sent c) (h : Later G c s m t) (i : ι) : Later G c s (m + 1) (publication t i) := by
  have hpow : share ι ^ (m + 1) ≤ share ι ^ m := pow_le_pow_of_le_one share_pos.le share_le_one (Nat.le_succ m)
  refine ⟨nonneg_publication hc h.nonneg i, fun x => ?_, fun x j hadj => ?_, h.known, h.sum, fun j k v hk hv => ?_⟩
  · rw [pow_succ', mul_assoc]
    exact (mul_le_mul_of_nonneg_left (h.held x) share_pos.le).trans
      (mul_le_of_le_one_left (h.nonneg.amount x) share_le_one)
  · exact (mul_le_mul_of_nonneg_right hpow (sub_nonneg.mpr (h.known x j hadj))).trans (h.got x j hadj)
  · by_cases hj : j = i
    · subst hj
      rw [pubs_publication, List.getElem?_append] at hv
      split at hv
      · exact h.fresh j k v hk hv
      · rw [List.getElem?_singleton] at hv
        split at hv
        · obtain rfl := Option.some.inj hv
          rw [hc.read_publication]
          exact h.sum j
        · cases hv
    · rw [pubs_publication_ne hj] at hv
      exact h.fresh j k v hk hv

theorem later_reading (hc : Sent c) (h : Later G c s m t) {i j : ι} (hadj : G.Adj i j) {k : ℕ} {v : ValueType ℚ}
    (hk : t.seen i j ≤ k) (hv : (t.pubs j)[k]? = some v) : Later G c s (m + 1) (reading t i j k v) := by
  have hshare := share_pos (ι := ι)
  have hpow : share ι ^ (m + 1) ≤ share ι := by
    rw [pow_succ]
    exact mul_le_of_le_one_left hshare.le (pow_le_one₀ hshare.le share_le_one)
  have hread : known c t i j ≤ c.read v := h.nonneg.known_le_read hadj hk hv
  have hpart : share ι * (held c t i + (c.read v - known c t i j)) ≤ held c (reading t i j k v) i :=
    h.nonneg.share_le_held hc hadj hk hv
  have hnew := nonneg_reading hc h.nonneg hadj hk hv
  have hheld := share_le_reading hc h.nonneg hadj hk hv
  refine ⟨hnew, fun x => ?_, fun x y hxy => ?_, fun x y hxy => ?_, fun x => ?_, h.fresh⟩
  · rw [pow_succ', mul_assoc]
    exact (mul_le_mul_of_nonneg_left (h.held x) hshare.le).trans (hheld x)
  · by_cases he : x = i ∧ y = j
    · obtain ⟨rfl, rfl⟩ := he
      rw [known_reading hc]
      calc share ι ^ (m + 1) * (c.read v - known c s x y)
          = share ι * (share ι ^ m * (known c t x y - known c s x y)) +
              share ι ^ (m + 1) * (c.read v - known c t x y) := by ring
        _ ≤ share ι * held c t x + share ι * (c.read v - known c t x y) :=
            add_le_add (mul_le_mul_of_nonneg_left (h.got x y hxy) hshare.le)
              (mul_le_mul_of_nonneg_right hpow (sub_nonneg.mpr hread))
        _ = share ι * (held c t x + (c.read v - known c t x y)) := by ring
        _ ≤ held c (reading t x y k v) x := hpart
    · rw [known_reading_ne hc (not_and_or.mp he), pow_succ', mul_assoc]
      exact (mul_le_mul_of_nonneg_left (h.got x y hxy) hshare.le).trans (hheld x)
  · by_cases he : x = i ∧ y = j
    · obtain ⟨rfl, rfl⟩ := he
      rw [known_reading hc]
      exact (h.known x y hxy).trans hread
    · rw [known_reading_ne hc (not_and_or.mp he)]
      exact h.known x y hxy
  · by_cases hx : x = i
    · subst hx
      rw [sum_reading hc]
      exact (h.sum x).trans (le_add_of_nonneg_right (hnew.amount x))
    · rw [sum_reading_ne hx]
      exact h.sum x

end Later

/-! ## The pace of a schedule -/

section Pace
variable [DecidableEq ι]

/-- How often `j` publishes. -/
def published (j : ι) (ls : List (Lbl ι)) : ℕ :=
  ls.countP fun
    | .publish i => decide (i = j)
    | .update _ _ => false

/-- In every `B` steps each agent publishes and reads each neighbour, and no
publication is read that is older than the newest one of `B` steps before: it may
be that one, however long it has been the newest. -/
structure Paced (G : SimpleGraph ι) (B : ℕ) (ls : List (Lbl ι)) : Prop where
  publishes : ∀ i T, T + B ≤ ls.length → ∃ n, T ≤ n ∧ n < T + B ∧ ls[n]? = some (.publish i)
  reads : ∀ i j, G.Adj i j → ∀ T, T + B ≤ ls.length → ∃ n k, T ≤ n ∧ n < T + B ∧ ls[n]? = some (.update i [(j, k)])
  current : ∀ n i j k, ls[n]? = some (.update i [(j, k)]) → published j (ls.take (n - B)) ≤ k + 1

variable {G : SimpleGraph ι} [DecidableRel G.Adj] {s t : Net ι} {j : ι}

theorem length_step {l : Lbl ι} (h : step G s l = some t) :
    (t.pubs j).length = (s.pubs j).length + published j [l] := by
  cases l with
  | publish i =>
    cases h
    by_cases hj : i = j
    · subst hj
      simp [published]
    · simp [published, hj, Function.update_of_ne (Ne.symm hj)]
  | update i fresh =>
    simp only [step] at h
    split at h
    · obtain ⟨vs, -, rfl⟩ := Option.map_eq_some_iff.mp h
      rfl
    · cases h

theorem length_exec : ∀ (ls : List (Lbl ι)) {s t : Net ι}, LTS.exec (step G) s ls = some t →
    (t.pubs j).length = (s.pubs j).length + published j ls
  | [], s, t, h => by
    cases h
    rfl
  | l :: ls, s, t, h => by
    obtain ⟨u, hu, h⟩ := Option.bind_eq_some_iff.mp h
    have hcount : published j (l :: ls) = published j [l] + published j ls := by
      rw [← List.singleton_append, published, published, published, List.countP_append]
    rw [length_exec ls h, length_step hu, hcount, Nat.add_assoc]

theorem published_mono {ls : List (Lbl ι)} {T T' : ℕ} (h : T ≤ T') :
    published j (ls.take T) ≤ published j (ls.take T') :=
  (List.take_sublist_take_left h).countP_le

end Pace

/-! ## Runs -/

section Runs
variable [Fintype ι] [DecidableEq ι] (G : SimpleGraph ι) [DecidableRel G.Adj] (start : ι → ℚ)
  (sched : List (Lbl ι)) (B : ℕ)

/-- After `n` of the tag-by-tag steps of the schedule the network is in `s`. -/
abbrev At (n : ℕ) (s : Net ι) : Prop := LTS.Visits (step G) (init G start) (sched.flatMap parts) n s

variable {G start sched B} {c : Coord ι ℚ} {a n : ℕ} {s t : Net ι}

theorem At.length (h : At G start sched n s) (j : ι) :
    (s.pubs j).length = published j ((sched.flatMap parts).take n) := by
  rw [length_exec _ h]
  exact Nat.zero_add _

/-- What was published before `a`, and more, has been read three windows
later. -/
theorem seen_from (hp : Paced G B (sched.flatMap parts)) (ha : At G start sched a s) {i j : ι} (hadj : G.Adj i j) :
    LTS.HoldsFrom (step G) (init G start) (sched.flatMap parts) (a + 2 * B + B)
      fun t => (s.pubs j).length < t.seen i j := by
  refine LTS.holdsFrom_of_window (fun hlen => ?_) fun n t l u _ _ hl hs hlt => ?_
  · obtain ⟨m, ham, hmB, hm⟩ := hp.publishes j a (by omega)
    obtain ⟨n, k, hTn, hnT, hn⟩ := hp.reads i j hadj (a + 2 * B) hlen
    refine ⟨n, _, hTn, hnT, hn, fun t u ht hs => ?_⟩
    obtain ⟨-, -, v, -, rfl⟩ := step_update hs
    have hmore : published j ((sched.flatMap parts).take (m + 1)) =
        published j ((sched.flatMap parts).take m) + 1 := by
      rw [List.take_add_one, hm, published, List.countP_append]
      simp [published]
    have hcur := hp.current n i j k hn
    have h₁ : published j ((sched.flatMap parts).take a) ≤ published j ((sched.flatMap parts).take m) :=
      published_mono ham
    have h₂ : published j ((sched.flatMap parts).take (m + 1)) ≤ published j ((sched.flatMap parts).take (n - B)) :=
      published_mono (by omega)
    show _ < (reading t i j k v).seen i j
    rw [seen_reading, ha.length]
    omega
  · rcases step_cases (List.mem_of_getElem? hl) hs with ⟨x, -, rfl⟩ | ⟨x, y, k, v, -, -, hk, -, rfl⟩
    · exact hlt
    · by_cases he : i = x ∧ j = y
      · obtain ⟨rfl, rfl⟩ := he
        rw [seen_reading]
        omega
      · rw [seen_reading_ne (not_and_or.mp he)]
        exact hlt

/-- An agent recalls the publication that it has read last. -/
def Recalls (c : Coord ι ℚ) (s : Net ι) : Prop :=
  ∀ i j, 0 < s.seen i j → ∃ v, (s.pubs j)[s.seen i j - 1]? = some v ∧ known c s i j = c.read v

theorem recalls (hc : Sent c) (h : At G start sched n s) : Recalls c s := by
  refine LTS.visits_induction (fun i j hpos => absurd hpos (Nat.lt_irrefl 0)) (fun n t l u _ hl hs hr => ?_) n s h
  rcases step_cases (List.mem_of_getElem? hl) hs with ⟨x, -, rfl⟩ | ⟨x, y, k, v, -, -, hk, hv, rfl⟩
  · intro i j hpos
    obtain ⟨v, hv, hread⟩ := hr i j hpos
    refine ⟨v, ?_, hread⟩
    show ((publication t x).pubs j)[t.seen i j - 1]? = some v
    by_cases hj : j = x
    · subst hj
      rw [pubs_publication, List.getElem?_append_left (List.getElem?_eq_some_iff.mp hv).1]
      exact hv
    · rw [pubs_publication_ne hj]
      exact hv
  · intro i j hpos
    by_cases he : i = x ∧ j = y
    · obtain ⟨rfl, rfl⟩ := he
      refine ⟨v, ?_, known_reading hc⟩
      rw [seen_reading]
      exact hv
    · have hne := not_and_or.mp he
      rw [seen_reading_ne hne] at hpos
      rw [seen_reading_ne hne, known_reading_ne hc hne]
      exact hr i j hpos

variable [Nonempty ι]

theorem later (hc : Sent c) (hs : Nonneg G c s) (ha : At G start sched a s) (han : a ≤ n)
    (hn : n ≤ (sched.flatMap parts).length) (ht : At G start sched n t) : Later G c s (n - a) t := by
  refine LTS.visits_from (P := fun n t => Later G c s (n - a) t) ha ?_ (fun n t l u hn ht hl hs h => ?_) n t han hn ht
  · rw [Nat.sub_self]
    exact later_refl hs
  · rw [Nat.sub_add_comm hn]
    rcases step_cases (List.mem_of_getElem? hl) hs with ⟨i, -, rfl⟩ | ⟨i, j, k, v, -, hadj, hk, hv, rfl⟩
    · exact later_publication hc h i
    · exact later_reading hc h hadj hk hv

/-- The sum of a neighbour has been read three windows later. -/
theorem sum_le_known (hp : Paced G B (sched.flatMap parts)) (hc : Sent c) (hs : Nonneg G c s)
    (ha : At G start sched a s) {i j : ι} (hadj : G.Adj i j) (han : a + 3 * B ≤ n)
    (hn : n ≤ (sched.flatMap parts).length) (ht : At G start sched n t) : sum c s j ≤ known c t i j := by
  have hseen : (s.pubs j).length < t.seen i j := seen_from hp ha hadj n t (by omega) hn ht
  obtain ⟨v, hv, hread⟩ := recalls hc ht i j (by omega)
  rw [hread]
  exact (later hc hs ha (by omega) hn ht).fresh j _ v (by omega) hv

/-- An agent with a neighbour puts a share of what it holds on its edges. -/
theorem sum_grows (hp : Paced G B (sched.flatMap parts)) (hc : Sent c) (hs : Nonneg G c s)
    (ha : At G start sched a s) {i j : ι} (hadj : G.Adj i j) : LTS.HoldsFrom (step G) (init G start)
      (sched.flatMap parts) (a + B) fun t => sum c s i + share ι ^ B * held c s i ≤ sum c t i := by
  have hlater {n : ℕ} {t : Net ι} (han : a ≤ n) (hn : n ≤ (sched.flatMap parts).length) (ht : At G start sched n t) :=
    later hc hs ha han hn ht
  refine LTS.holdsFrom_of_window (fun hlen => ?_) fun n t l u han ht hl hs hsum => ?_
  · obtain ⟨n, k, han, hnB, hn⟩ := hp.reads i j hadj a hlen
    refine ⟨n, _, han, hnB, hn, fun t u ht hst => ?_⟩
    obtain ⟨-, hk, v, hv, rfl⟩ := step_update hst
    have hlt := (List.getElem?_eq_some_iff.mp hn).1
    have ht' := hlater han hlt.le ht
    rw [sum_reading hc]
    refine add_le_add (ht'.sum i) ?_
    calc share ι ^ B * held c s i
        ≤ share ι ^ (n - a + 1) * held c s i :=
          mul_le_mul_of_nonneg_right (pow_le_pow_of_le_one share_pos.le share_le_one (by omega)) (hs.amount i)
      _ = share ι * (share ι ^ (n - a) * held c s i) := by ring
      _ ≤ share ι * held c t i := mul_le_mul_of_nonneg_left (ht'.held i) share_pos.le
      _ ≤ held c (reading t i j k v) i := share_le_reading hc ht'.nonneg hadj hk hv i
  · have hlt := (List.getElem?_eq_some_iff.mp hl).1
    have hu : At G start sched (n + 1) u := (LTS.visits_succ ht hl u).mpr hs
    have ht' := hlater han hlt.le ht
    exact hsum.trans ((later hc ht'.nonneg ht (Nat.le_succ n) hlt hu).sum i)

/-! ## Everything gets everywhere -/

section Spread
variable {m : ι}

/-- From an agent to a neighbour. -/
theorem neighbour_gets (hp : Paced G B (sched.flatMap parts)) (hc : Sent c) (hs : Nonneg G c s)
    (ha : At G start sched a s) {i j : ι} (hadj : G.Adj i j) (han : a + 4 * B ≤ n)
    (hn : n ≤ (sched.flatMap parts).length) (ht : At G start sched n t) :
    share ι ^ (n - a + B) * held c s j ≤ held c t i := by
  obtain ⟨u, hu⟩ : ∃ u, At G start sched (a + B) u := LTS.visits_earlier ht (by omega)
  have hsum := sum_grows hp hc hs ha hadj.symm (a + B) u le_rfl (by omega) hu
  have hmid := (later hc hs ha (Nat.le_add_right a B) (by omega) hu).nonneg
  have hknown := sum_le_known hp hc hmid hu hadj (by omega) hn ht
  have hlater := later hc hs ha (by omega) hn ht
  calc share ι ^ (n - a + B) * held c s j
      = share ι ^ (n - a) * (share ι ^ B * held c s j) := by rw [pow_add, mul_assoc]
    _ ≤ share ι ^ (n - a) * (known c t i j - known c s i j) := by
        refine mul_le_mul_of_nonneg_left ?_ (pow_nonneg share_pos.le _)
        have hold := hs.known_le hadj
        linarith
    _ ≤ held c t i := hlater.got i j hadj

/-- Along a walk. -/
theorem end_gets (hp : Paced G B (sched.flatMap parts)) (hc : Sent c) {i j : ι} (w : G.Walk j i) :
    ∀ {a : ℕ} {s : Net ι}, Nonneg G c s → At G start sched a s → ∀ {n : ℕ} {t : Net ι}, a + 4 * B * w.length ≤ n →
      n ≤ (sched.flatMap parts).length → At G start sched n t →
        share ι ^ (n - a + B * w.length) * held c s j ≤ held c t i := by
  induction w with
  | nil =>
    intro a s hs ha n t han hn ht
    rw [SimpleGraph.Walk.length_nil, Nat.mul_zero, Nat.add_zero] at *
    exact (later hc hs ha han hn ht).held _
  | @cons j k i hjk w ih =>
    intro a s hs ha n t han hn ht
    rw [SimpleGraph.Walk.length_cons] at *
    have hmid : a + 4 * B + 4 * B * w.length ≤ n := by
      rw [Nat.mul_succ] at han
      omega
    obtain ⟨u, hu⟩ : ∃ u, At G start sched (a + 4 * B) u := LTS.visits_earlier ht (by omega)
    have hone := neighbour_gets hp hc hs ha hjk.symm le_rfl (by omega) hu
    have hrest := ih (later hc hs ha (Nat.le_add_right _ _) (by omega) hu).nonneg hu hmid hn ht
    refine le_trans ?_ hrest
    have hexp : n - a + B * (w.length + 1) = n - (a + 4 * B) + B * w.length + (a + 4 * B - a + B) := by
      rw [Nat.mul_succ]
      omega
    rw [hexp, pow_add, mul_assoc]
    exact mul_le_mul_of_nonneg_left hone (pow_nonneg share_pos.le _)

/-- What an agent holds has got to all others. -/
theorem everybody_gets (hconn : G.Connected) (hp : Paced G B (sched.flatMap parts)) (hc : Sent c) (hs : Nonneg G c s)
    (ha : At G start sched a s) (i j : ι) (han : a + 4 * B * Fintype.card ι ≤ n)
    (hn : n ≤ (sched.flatMap parts).length) (ht : At G start sched n t) :
    share ι ^ (n - a + B * Fintype.card ι) * held c s j ≤ held c t i := by
  obtain ⟨w, hw⟩ := hconn.exists_isPath j i
  have hlen : w.length ≤ Fintype.card ι := hw.length_lt.le
  refine le_trans ?_ (end_gets hp hc w hs ha ((Nat.add_le_add_left (Nat.mul_le_mul_left _ hlen) a).trans han) hn ht)
  refine mul_le_mul_of_nonneg_right (pow_le_pow_of_le_one share_pos.le share_le_one ?_) (hs.amount j)
  exact Nat.add_le_add_left (Nat.mul_le_mul_left B hlen) _

/-- What was on an edge has got to all agents. -/
theorem edge_gets (hconn : G.Connected) (hp : Paced G B (sched.flatMap parts)) (hc : Sent c) (hs : Nonneg G c s)
    (ha : At G start sched a s) {i j : ι} (hadj : G.Adj i j) (han : a + 3 * B + 4 * B * Fintype.card ι ≤ n)
    (hn : n ≤ (sched.flatMap parts).length) (ht : At G start sched n t) :
    share ι ^ (n - a + B * Fintype.card ι) * (sum c s j - known c s i j) ≤ held c t m := by
  obtain ⟨u, hu⟩ : ∃ u, At G start sched (a + 3 * B) u := LTS.visits_earlier ht (by omega)
  have hlater := later hc hs ha (Nat.le_add_right a (3 * B)) (by omega) hu
  have hread := sum_le_known hp hc hs ha hadj le_rfl (by omega) hu
  have hone : share ι ^ (a + 3 * B - a) * (sum c s j - known c s i j) ≤ held c u i :=
    (mul_le_mul_of_nonneg_left (sub_le_sub_right hread _) (pow_nonneg share_pos.le _)).trans (hlater.got i j hadj)
  refine le_trans ?_ (everybody_gets hconn hp hc hlater.nonneg hu m i han hn ht)
  have hexp : n - a + B * Fintype.card ι = n - (a + 3 * B) + B * Fintype.card ι + (a + 3 * B - a) := by omega
  rw [hexp, pow_add, mul_assoc]
  exact mul_le_mul_of_nonneg_left hone (pow_nonneg share_pos.le _)

/-- Every agent holds a fixed part of all there is. -/
theorem mixed (hconn : G.Connected) (hp : Paced G B (sched.flatMap parts)) (hc : Sent c) (hs : Nonneg G c s)
    (ha : At G start sched a s) (han : a + 3 * B + 4 * B * Fintype.card ι ≤ n)
    (hn : n ≤ (sched.flatMap parts).length) (ht : At G start sched n t) :
    share ι ^ (n - a + B * Fintype.card ι + 2) * mass G c s ≤ held c t m := by
  generalize hq : share ι ^ (n - a + B * Fintype.card ι) = q
  have hagent (i : ι) : q * (held c s i + ∑ j ∈ G.neighborFinset i, (sum c s i - known c s j i)) ≤
      Fintype.card ι * held c t m := by
    have hown : q * held c s i ≤ held c t m := hq ▸ everybody_gets hconn hp hc hs ha m i (by omega) hn ht
    have hedges : ∑ j ∈ G.neighborFinset i, q * (sum c s i - known c s j i) ≤ G.degree i * held c t m := by
      rw [← nsmul_eq_mul, ← SimpleGraph.card_neighborFinset_eq_degree]
      refine Finset.sum_le_card_nsmul _ _ _ fun j hj => ?_
      exact hq ▸ edge_gets hconn hp hc hs ha ((G.mem_neighborFinset i j).mp hj).symm han hn ht
    have hm : 0 ≤ held c t m := (later hc hs ha (by omega) hn ht).nonneg.amount m
    have hdeg : (G.degree i : ℚ) + 1 ≤ Fintype.card ι := by exact_mod_cast G.degree_lt_card_verts i
    rw [mul_add, Finset.mul_sum]
    calc q * held c s i + ∑ j ∈ G.neighborFinset i, q * (sum c s i - known c s j i)
        ≤ held c t m + G.degree i * held c t m := add_le_add hown hedges
      _ = (G.degree i + 1) * held c t m := by ring
      _ ≤ Fintype.card ι * held c t m := mul_le_mul_of_nonneg_right hdeg hm
  have hall : q * mass G c s ≤ Fintype.card ι * (Fintype.card ι * held c t m) := by
    rw [mass_eq, Finset.mul_sum, ← nsmul_eq_mul, ← Finset.card_univ]
    exact Finset.sum_le_card_nsmul _ _ _ fun i _ => hagent i
  have hcard : share ι * (Fintype.card ι : ℚ) = 1 :=
    one_div_mul_cancel (Nat.cast_ne_zero.mpr Fintype.card_ne_zero)
  calc share ι ^ (n - a + B * Fintype.card ι + 2) * mass G c s
      = share ι ^ 2 * (q * mass G c s) := by rw [pow_add, hq]; ring
    _ ≤ share ι ^ 2 * (Fintype.card ι * (Fintype.card ι * held c t m)) :=
        mul_le_mul_of_nonneg_left hall (pow_nonneg share_pos.le 2)
    _ = (share ι * Fintype.card ι) ^ 2 * held c t m := by ring
    _ = held c t m := by rw [hcard, one_pow, one_mul]

end Spread

/-! ## What was sent before is read -/

section Renewal

omit [Nonempty ι] in
/-- While nobody holds a negative amount the sums rise. -/
theorem since_rising (hc : Sent c) (ha : At G start sched a s) {e : ℕ}
    (hheld : ∀ n t, a ≤ n → n ≤ e → At G start sched n t → ∀ i, 0 ≤ held c t i) (han : a ≤ n) (hne : n ≤ e)
    (hn : n ≤ (sched.flatMap parts).length) (ht : At G start sched n t) :
    ∀ j, (since c t j (s.pubs j).length).Pairwise (· ≤ ·) := by
  refine LTS.visits_from (P := fun n t => n ≤ e → ∀ j, (since c t j (s.pubs j).length).Pairwise (· ≤ ·)) ha
    (fun _ j => ?_) (fun n t l u han ht hl hs ih hne j => ?_) n t han hn ht hne
  · unfold since
    rw [List.drop_length]
    exact List.pairwise_singleton _ _
  · have hrise := ih (Nat.le_of_succ_le hne) j
    have hu := hheld (n + 1) u (Nat.le_succ_of_le han) hne ((LTS.visits_succ ht hl u).mpr hs)
    rcases step_cases (List.mem_of_getElem? hl) hs with ⟨i, -, rfl⟩ | ⟨i, x, k, v, -, -, -, -, rfl⟩
    · exact List.Pairwise.sublist (since_publication hc _ j) (pairwise_repeat hrise)
    · rw [since_reading]
      refine pairwise_raise hrise ?_
      by_cases hj : j = i
      · subst hj
        rw [sum_reading hc]
        exact le_add_of_nonneg_right (hu j)
      · rw [sum_reading_ne hj]

omit [Nonempty ι] in
/-- Where nobody has held a negative amount for three windows, none is under
way. -/
theorem nonneg_later (hp : Paced G B (sched.flatMap parts)) (hc : Sent c) (ha : At G start sched a s)
    (hheld : ∀ n t, a ≤ n → n ≤ a + 3 * B → At G start sched n t → ∀ i, 0 ≤ held c t i)
    (hlen : a + 3 * B ≤ (sched.flatMap parts).length) (ht : At G start sched (a + 3 * B) t)
    (hsplits : ∀ i, (t.proc i).inNodesPlusOne = G.degree i + 1) : Nonneg G c t := by
  refine ⟨hsplits, hheld _ t (Nat.le_add_right _ _) le_rfl ht, fun i j hadj => ?_⟩
  have hseen : (s.pubs j).length < t.seen i j := seen_from hp ha hadj _ t (by omega) hlen ht
  obtain ⟨v, hv, hread⟩ := recalls hc ht i j (by omega)
  have hrise := since_rising hc ha hheld (Nat.le_add_right a (3 * B)) le_rfl hlen ht j
  have hcut : t.seen i j - 1 + 1 = t.seen i j := by omega
  show (known c t i j :: ((t.pubs j).drop (t.seen i j)).map c.read ++ [sum c t j]).Pairwise (· ≤ ·)
  rw [hread, ← hcut, read_cons hv]
  refine hrise.sublist (List.Sublist.append_right (List.Sublist.map c.read ?_) _)
  exact List.drop_sublist_drop_left _ (by omega)

end Renewal

/-! ## The bounds come closer -/

omit [DecidableEq ι] [Nonempty ι] in
theorem held_le_mass (h : Nonneg G c s) (i : ι) : held c s i ≤ mass G c s := by
  have hedge (j : ι) : 0 ≤ ∑ k ∈ G.neighborFinset j, (sum c s j - known c s k j) :=
    Finset.sum_nonneg fun k hk => sub_nonneg.mpr (h.known_le ((G.mem_neighborFinset j k).mp hk).symm)
  rw [mass_eq]
  refine le_trans (le_add_of_nonneg_right (hedge i)) ?_
  exact Finset.single_le_sum (f := fun j => held c s j + ∑ k ∈ G.neighborFinset j, (sum c s j - known c s k j))
    (fun j _ => add_nonneg (h.amount j) (hedge j)) (Finset.mem_univ i)

/-- The steps in which the bounds come closer once. -/
def epoch (N B : ℕ) : ℕ := B * (4 * N + 6)

/-- By how much they do. -/
def gain (N B : ℕ) : ℚ := (1 / N) ^ (B * (5 * N + 6) + 2)

omit [DecidableEq ι] in
theorem gain_pos : 0 < gain (Fintype.card ι) B := pow_pos share_pos _

omit [DecidableEq ι] in
theorem gain_le_one : gain (Fintype.card ι) B ≤ 1 := pow_le_one₀ share_pos.le share_le_one

variable {δ r : ℚ}

/-- Whoever holds a part of all there is is away from the bound. -/
theorem squeezed {x b : ℚ} (hδ : 0 ≤ δ) (hconn : G.Connected) (hp : Paced G B (sched.flatMap parts))
    (hs : Nonneg G (combination x b) s) (hw : Nonneg G (combination 0 1) s)
    (hmass : mass G (combination x b) s = δ * mass G (combination 0 1) s)
    (ha : At G start sched a s) (han : a + 3 * B + 4 * B * Fintype.card ι ≤ n)
    (hne : n ≤ a + epoch (Fintype.card ι) B) (hn : n ≤ (sched.flatMap parts).length) (ht : At G start sched n t)
    (hkept : mass G (combination 0 1) t = mass G (combination 0 1) s) (i : ι) :
    0 ≤ held (combination x (b - gain (Fintype.card ι) B * δ)) t i := by
  have hmix := mixed hconn hp (combination_sent x b) hs ha han hn ht (m := i)
  have hwt := (later (combination_sent 0 1) hw ha (by omega) hn ht).nonneg
  have hle := held_le_mass hwt i
  have hwpos : 0 ≤ mass G (combination 0 1) s := hkept ▸ (hwt.amount i).trans hle
  rw [hkept] at hle
  have hgain : gain (Fintype.card ι) B * mass G (combination x b) s ≤ held (combination x b) t i := by
    refine le_trans (mul_le_mul_of_nonneg_right ?_ (hmass ▸ mul_nonneg hδ hwpos)) hmix
    refine pow_le_pow_of_le_one share_pos.le share_le_one ?_
    unfold epoch at hne
    have hepoch : B * (4 * Fintype.card ι + 6) = 4 * (B * Fintype.card ι) + 6 * B := by ring
    have hexp : B * (5 * Fintype.card ι + 6) = 5 * (B * Fintype.card ι) + 6 * B := by ring
    omega
  have hsplit : held (combination x (b - gain (Fintype.card ι) B * δ)) t i =
      held (combination x b) t i - gain (Fintype.card ι) B * δ * held (combination 0 1) t i := by
    unfold held combination
    ring
  rw [hmass, ← mul_assoc] at hgain
  rw [hsplit, sub_nonneg]
  exact (mul_le_mul_of_nonneg_left hle (mul_nonneg gain_pos.le hδ)).trans hgain

variable (G) in
/-- The estimates are no further than `δ` from `r`, and so is all that is
under way. -/
structure Within (r δ : ℚ) (s : Net ι) : Prop where
  above : Nonneg G (combination (-1) (r + δ)) s
  below : Nonneg G (combination 1 (δ - r)) s
  weight : Nonneg G (combination 0 1) s

theorem within_epoch (hδ : 0 ≤ δ) (hconn : G.Connected) (hp : Paced G B (sched.flatMap parts))
    (hratio : mass G coordX (init G start) = r * mass G coordY (init G start)) (h : Within G r δ s)
    (ha : At G start sched a s) (hn : a + epoch (Fintype.card ι) B ≤ (sched.flatMap parts).length)
    (ht : At G start sched (a + epoch (Fintype.card ι) B) t) :
    Within G r ((1 - gain (Fintype.card ι) B) * δ) t := by
  have hmass {n : ℕ} {u : Net ι} (hu : At G start sched n u) (x b : ℚ) : mass G (combination x b) u =
      x * (r * mass G coordY (init G start)) + b * mass G coordY (init G start) := by
    have hreach : (lts G start).Reachable u := LTS.reachable_of_exec rfl hu
    rw [mass_combination, mass_reachable G start coordX_lawful u hreach, mass_reachable G start coordY_lawful u hreach,
      hratio]
  have hweight := (later (combination_sent 0 1) h.weight ha (Nat.le_add_right a _) hn ht).nonneg
  -- either bound: the amount of it is `δ` times the mass of `y`
  have hbound {x b : ℚ} (hs : Nonneg G (combination x b) s) (hxb : x * r + b = δ) :
      Nonneg G (combination x (b - gain (Fintype.card ι) B * δ)) t := by
    have hepoch : a + epoch (Fintype.card ι) B = a + 3 * B + 4 * B * Fintype.card ι + 3 * B := by
      unfold epoch
      ring
    obtain ⟨u, hu⟩ : ∃ u, At G start sched (a + 3 * B + 4 * B * Fintype.card ι) u :=
      LTS.visits_earlier ht (by omega)
    rw [hepoch] at hn ht
    refine nonneg_later hp (combination_sent _ _) hu (fun n v han hne hv i => ?_) hn ht hweight.splits
    refine squeezed hδ hconn hp hs h.weight ?_ ha han (hepoch ▸ hne) (hne.trans hn) hv ?_ i
    · rw [hmass ha, hmass ha, ← hxb]
      ring
    · rw [hmass hv, hmass ha]
  refine ⟨?_, ?_, hweight⟩
  · have := hbound h.above (by ring)
    rwa [show r + δ - gain (Fintype.card ι) B * δ = r + (1 - gain (Fintype.card ι) B) * δ by ring] at this
  · have := hbound h.below (by ring)
    rwa [show δ - r - gain (Fintype.card ι) B * δ = (1 - gain (Fintype.card ι) B) * δ - r by ring] at this

omit [DecidableEq ι] [Nonempty ι] in
theorem nonneg_init {x b : ℚ} (h : ∀ i, 0 ≤ x * start i + b) : Nonneg G (combination x b) (init G start) := by
  have hsum (i : ι) : sum (combination x b) (init G start) i = (x * start i + b) / (G.degree i + 1) := by
    unfold sum combination init create
    ring
  refine ⟨fun _ => rfl, fun i => ?_, fun i j _ => ?_⟩
  · have hheld : held (combination x b) (init G start) i = x * start i + b := by
      unfold held combination init create
      ring
    exact hheld ▸ h i
  · have hknown : known (combination x b) (init G start) i j = 0 := by
      unfold known combination init create
      simp
    show [known _ _ _ _, sum _ _ _].Pairwise (· ≤ ·)
    rw [hknown, hsum, List.pairwise_pair]
    exact div_nonneg (h j) (by positivity)

omit [DecidableEq ι] [Nonempty ι] in
theorem within_init (hδ : ∀ i, |start i - r| ≤ δ) : Within G r δ (init G start) := by
  refine ⟨nonneg_init fun i => ?_, nonneg_init fun i => ?_, nonneg_init fun i => ?_⟩
  · have := (abs_le.mp (hδ i)).2
    linarith
  · have := (abs_le.mp (hδ i)).1
    linarith
  · rw [zero_mul, zero_add]
    exact zero_le_one

theorem within_epochs (hconn : G.Connected) (hp : Paced G B (sched.flatMap parts))
    (hratio : mass G coordX (init G start) = r * mass G coordY (init G start)) (hδ : ∀ i, |start i - r| ≤ δ) :
    ∀ m t, m * epoch (Fintype.card ι) B ≤ (sched.flatMap parts).length →
      At G start sched (m * epoch (Fintype.card ι) B) t → Within G r ((1 - gain (Fintype.card ι) B) ^ m * δ) t
  | 0, t, _, ht => by
    rw [Nat.zero_mul, At, LTS.Visits, List.take_zero] at ht
    obtain rfl := Option.some.inj ht
    rw [pow_zero, one_mul]
    exact within_init hδ
  | m + 1, t, hn, ht => by
    rw [Nat.succ_mul] at hn ht
    obtain ⟨s, hs⟩ : ∃ s, At G start sched (m * epoch (Fintype.card ι) B) s :=
      LTS.visits_earlier ht (Nat.le_add_right _ _)
    have hpos : 0 ≤ δ := (abs_nonneg _).trans (hδ (Classical.arbitrary ι))
    have hrate : 0 ≤ (1 - gain (Fintype.card ι) B) ^ m := pow_nonneg (sub_nonneg.mpr gain_le_one) m
    have hw := within_epochs hconn hp hratio hδ m s (Nat.le_of_add_right_le hn) hs
    rw [pow_succ', mul_assoc]
    exact within_epoch (mul_nonneg hrate hpos) hconn hp hratio hw hs hn ht

omit [DecidableEq ι] [Nonempty ι] in
theorem Within.getValue_le (h : Within G r δ s) {i : ι} (hy : 0 < (s.proc i).yValue) :
    |getValue (s.proc i) - r| ≤ δ := by
  have habove : 0 ≤ -1 * (s.proc i).xValue + (r + δ) * (s.proc i).yValue := h.above.amount i
  have hbelow : 0 ≤ 1 * (s.proc i).xValue + (δ - r) * (s.proc i).yValue := h.below.amount i
  unfold getValue
  rw [abs_le, le_sub_iff_add_le, sub_le_iff_le_add, le_div_iff₀ hy, div_le_iff₀ hy]
  constructor <;> linarith

end Runs

/-- The mean of the starting values in which an agent of degree `d` has the
weight `1 + d / (d + 1)`. -/
def weightedMean [Fintype ι] (G : SimpleGraph ι) [DecidableRel G.Adj] (start : ι → ℚ) : ℚ :=
  (∑ i, start i * (1 + surplus G i)) / ∑ i, (1 + surplus G i)

/-- **Push-sum comes to a consensus.** In exact arithmetic, with `sigma` starting
from 0, on a connected graph and at a pace of `B`: after `T` steps, an update
counted tag by tag, no `get_value()` is further from the weighted mean
of the starting values than `(1 - gain) ^ (T / epoch)` times the largest
distance of a starting value, with `gain > 0` and `epoch` those of the number
of agents and the pace. -/
theorem estimates_converge [Fintype ι] [DecidableEq ι] (G : SimpleGraph ι) [DecidableRel G.Adj] (hconn : G.Connected)
    (start : ι → ℚ) (B : ℕ) (ls : List (Lbl ι)) (hp : Paced G B (ls.flatMap parts)) (s : Net ι)
    (hs : LTS.exec (step G) (init G start) ls = some s) :
    0 < gain (Fintype.card ι) B ∧ ∀ δ, (∀ i, |start i - weightedMean G start| ≤ δ) → ∀ i,
      |getValue (s.proc i) - weightedMean G start| ≤
        (1 - gain (Fintype.card ι) B) ^ ((ls.flatMap parts).length / epoch (Fintype.card ι) B) * δ := by
  have := hconn.nonempty
  refine ⟨gain_pos, fun δ hδ i => ?_⟩
  have hratio : mass G coordX (init G start) = weightedMean G start * mass G coordY (init G start) := by
    have hpos : 0 < ∑ i, (1 + surplus G i) :=
      Finset.sum_pos (fun i _ => add_pos_of_pos_of_nonneg one_pos (surplus_nonneg G i)) Finset.univ_nonempty
    rw [mass_init_x, mass_init_y]
    exact (div_mul_cancel₀ _ hpos.ne').symm
  have hend : At G start ls (ls.flatMap parts).length s := by
    rw [At, LTS.Visits, List.take_length]
    exact exec_parts ls hs
  obtain ⟨t, ht⟩ : ∃ t,
      At G start ls ((ls.flatMap parts).length / epoch (Fintype.card ι) B * epoch (Fintype.card ι) B) t :=
    LTS.visits_earlier hend (Nat.div_mul_le_self _ _)
  have hw := within_epochs hconn hp hratio hδ _ t (Nat.div_mul_le_self _ _) ht
  have hlater {c : Coord ι ℚ} (hc : Sent c) (h : Nonneg G c t) : Nonneg G c s :=
    (later hc h ht (Nat.div_mul_le_self _ _) le_rfl hend).nonneg
  have hy : 0 < (s.proc i).yValue := by
    have hfirst : Nonneg G (combination 0 1) (init G start) := (within_init hδ).weight
    have hkept := (later (combination_sent 0 1) hfirst (a := 0) rfl (Nat.zero_le _) le_rfl hend).held i
    have hstart : held (combination 0 1) (init G start) i = 1 := by
      unfold held combination init create
      ring
    have hval : held (combination 0 1) s i = (s.proc i).yValue := by
      unfold held combination
      ring
    rw [hstart, mul_one, hval] at hkept
    exact (pow_pos share_pos _).trans_le hkept
  exact Within.getValue_le ⟨hlater (combination_sent _ _) hw.above, hlater (combination_sent _ _) hw.below,
    hlater (combination_sent _ _) hw.weight⟩ hy

/-! ## Two agents -/

/-- Both publish, and both read what has just been published. -/
def round (m : ℕ) : List (Lbl (Fin 2)) := [.publish 0, .publish 1, .update 0 [(1, m)], .update 1 [(0, m)]]

def rounds : List (Lbl (Fin 2)) := (List.range 14).flatMap round

def start2 : Fin 2 → ℚ := fun i => if i = 0 then 0 else 1

deriving instance DecidableEq for Lbl

theorem rounds_paced : Paced ⊤ 4 (rounds.flatMap parts) where
  publishes i T hT := by
    have hall : ∀ i : Fin 2, ∀ T < 53, ∃ n < 56, T ≤ n ∧ n < T + 4 ∧
        (rounds.flatMap parts)[n]? = some (.publish i) := by decide +kernel
    obtain ⟨n, -, h⟩ := hall i T (Nat.lt_succ_of_le (Nat.le_sub_of_add_le hT))
    exact ⟨n, h⟩
  reads i j hij T hT := by
    have hall : ∀ i j : Fin 2, i ≠ j → ∀ T < 53, ∃ n < 56, T ≤ n ∧ n < T + 4 ∧
        (rounds.flatMap parts)[n]? = some (.update i [(j, n / 4)]) := by decide +kernel
    obtain ⟨n, -, hn, hlt, hl⟩ := hall i j hij T (Nat.lt_succ_of_le (Nat.le_sub_of_add_le hT))
    exact ⟨n, _, hn, hlt, hl⟩
  current n i j k hl := by
    have hn : n < 56 := (List.getElem?_eq_some_iff.mp hl).1
    have hall : ∀ n < 56, ∀ i j : Fin 2, ∀ k < 14, (rounds.flatMap parts)[n]? = some (.update i [(j, k)]) →
        published j ((rounds.flatMap parts).take (n - 4)) ≤ k + 1 := by decide +kernel
    have hread : ∀ l ∈ rounds.flatMap parts, (∃ i, l = .publish i) ∨ ∃ i j, ∃ k < 14, l = .update i [(j, k)] := by
      decide +kernel
    rcases hread _ (List.mem_of_getElem? hl) with ⟨x, h⟩ | ⟨x, y, m, hm, h⟩
    · cases h
    · cases h
      exact hall n hn i j k hm hl

theorem estimates_converge_pair : ∃ s, LTS.exec (step ⊤) (init ⊤ start2) rounds = some s ∧
    ∀ i, |getValue (s.proc i) - 1 / 2| ≤ (1 - gain 2 4) ^ 1 * (1 / 2) := by
  obtain ⟨s, hs⟩ : ∃ s, LTS.exec (step ⊤) (init ⊤ start2) rounds = some s :=
    Option.isSome_iff_exists.mp (by decide +kernel)
  have hmean : weightedMean ⊤ start2 = 1 / 2 := by decide +kernel
  have hδ : ∀ i, |start2 i - weightedMean ⊤ start2| ≤ 1 / 2 := by
    rw [hmean]
    decide +kernel
  have h := (estimates_converge ⊤ SimpleGraph.connected_top start2 4 rounds rounds_paced s hs).2 (1 / 2) hδ
  rw [hmean] at h
  exact ⟨s, hs, h⟩

end Skywing.L4.PushSum.Consensus
