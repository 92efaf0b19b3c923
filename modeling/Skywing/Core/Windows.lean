import Mathlib.Data.Nat.Init
import Skywing.Core.LTS

/-!
# What holds from some point of a run on

`HoldsFrom f s ls T Q`: along the run of `ls` from `s`, `Q` holds in the state
after `T` labels and in all later ones. It is shown from a state in which `Q`
holds (`holdsFrom_of_step`), or from a window of the run in which some step
brings `Q` about (`holdsFrom_of_window`), and from steps that keep `Q`; the
steps to look at are those after `T` only. `visits_from` is for what changes
with each step.
-/
namespace Skywing.LTS

variable {S L : Type*} {f : S → L → Option S} {s : S} {ls : List L} {T T' B : ℕ} {Q R : S → Prop}

def HoldsFrom (f : S → L → Option S) (s : S) (ls : List L) (T : ℕ) (Q : S → Prop) : Prop :=
  ∀ n u, T ≤ n → n ≤ ls.length → Visits f s ls n u → Q u

/-- A step of the run after `T` labels keeps `Q`. -/
def KeptFrom (f : S → L → Option S) (s : S) (ls : List L) (T : ℕ) (Q : S → Prop) : Prop :=
  ∀ n t l u, T ≤ n → Visits f s ls n t → ls[n]? = some l → f t l = some u → Q t → Q u

theorem HoldsFrom.mono (h : HoldsFrom f s ls T Q) (hT : T ≤ T') : HoldsFrom f s ls T' Q :=
  fun n u hn hlen hu => h n u (Nat.le_trans hT hn) hlen hu

theorem HoldsFrom.imp (h : HoldsFrom f s ls T Q) (hQ : ∀ u, Q u → R u) : HoldsFrom f s ls T R :=
  fun n u hn hlen hu => hQ u (h n u hn hlen hu)

theorem holdsFrom_forall {ι : Sort*} {P : ι → S → Prop} :
    HoldsFrom f s ls T (fun u => ∀ i, P i u) ↔ ∀ i, HoldsFrom f s ls T (P i) :=
  ⟨fun h i n u hn hlen hu => h n u hn hlen hu i, fun h n u hn hlen hu i => h i n u hn hlen hu⟩

/-- The state before the last label of a run. -/
theorem visits_pred {n : ℕ} {u : S} (hn : n < ls.length) (h : Visits f s ls (n + 1) u) :
    ∃ t, Visits f s ls n t ∧ ls[n]? = some ls[n] ∧ f t ls[n] = some u := by
  have hl : ls[n]? = some ls[n] := List.getElem?_eq_getElem hn
  have hpre : ∃ t, Visits f s ls n t := by
    unfold Visits at h ⊢
    rw [List.take_add_one, exec_append] at h
    obtain ⟨t, ht, -⟩ := Option.bind_eq_some_iff.mp h
    exact ⟨t, ht⟩
  obtain ⟨t, ht⟩ := hpre
  exact ⟨t, ht, hl, (visits_succ ht hl u).mp h⟩

/-- What depends on how far the run has come, from one of its states on. -/
theorem visits_from {P : ℕ → S → Prop} {a : ℕ} {u : S} (ha : Visits f s ls a u) (h0 : P a u)
    (hstep : ∀ n t l v, a ≤ n → Visits f s ls n t → ls[n]? = some l → f t l = some v → P n t → P (n + 1) v) :
    ∀ n t, a ≤ n → n ≤ ls.length → Visits f s ls n t → P n t := by
  intro n t hn
  induction n, hn using Nat.le_induction generalizing t with
  | base => exact fun _ ht => Option.some.inj (ha.symm.trans ht) ▸ h0
  | succ n hn ih =>
    intro hlen ht
    obtain ⟨r, hr, hl, hs⟩ := visits_pred hlen ht
    exact hstep n r _ t hn hr hl hs (ih r (by omega) hr)

/-- A run has gone through a state after each of its labels. -/
theorem visits_earlier {m n : ℕ} {t : S} (h : Visits f s ls n t) (hm : m ≤ n) : ∃ u, Visits f s ls m u := by
  rw [Visits, ← List.take_append_drop m (ls.take n), exec_append, List.take_take, Nat.min_eq_left hm] at h
  obtain ⟨u, hu, -⟩ := Option.bind_eq_some_iff.mp h
  exact ⟨u, hu⟩

theorem holdsFrom_of_step (h0 : T ≤ ls.length → ∀ u, Visits f s ls T u → Q u) (hstep : KeptFrom f s ls T Q) :
    HoldsFrom f s ls T Q := by
  intro n u hn
  induction n, hn using Nat.le_induction generalizing u with
  | base => exact fun hlen => h0 hlen u
  | succ n hn ih =>
    intro hlen hu
    obtain ⟨t, ht, hl, hs⟩ := visits_pred hlen hu
    exact hstep n t _ u hn ht hl hs (ih t (by omega) ht)

/-- Whatever some step of the window brings about. -/
theorem holdsFrom_of_window
    (hwindow : T + B ≤ ls.length → ∃ n l, T ≤ n ∧ n < T + B ∧ ls[n]? = some l ∧
      ∀ t u, Visits f s ls n t → f t l = some u → Q u)
    (hstep : KeptFrom f s ls T Q) : HoldsFrom f s ls (T + B) Q := by
  intro m v hm hlen hv
  obtain ⟨n, l, hn, hlt, hl, hget⟩ := hwindow (Nat.le_trans hm hlen)
  have hfrom : HoldsFrom f s ls (n + 1) Q := by
    refine holdsFrom_of_step (fun _ u hu => ?_) fun k t l u hk => hstep k t l u (by omega)
    obtain ⟨t, ht, hl', hs⟩ := visits_pred (List.getElem?_eq_some_iff.mp hl).1 hu
    rw [hl', Option.some.injEq] at hl
    exact hget t u ht (hl ▸ hs)
  exact hfrom m v (by omega) hlen hv

end Skywing.LTS
