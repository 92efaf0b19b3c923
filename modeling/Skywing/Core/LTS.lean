import Mathlib.Logic.Basic
import Mathlib.Logic.Function.Basic
import Mathlib.Data.List.Basic

/-!
# Labelled transition systems

States, labelled steps, runs, reachability and the invariant rule. A system
given by a partial step function (`ofFn`) has executable runs (`exec`), which
is how the concrete runs of the development are checked. `restrict` keeps
only the steps that meet a condition on the state before the step and on its
label; it states results of the form "in every run whose steps all meet the
condition".
-/
namespace Skywing

structure LTS (S L : Type*) where
  init : S → Prop
  step : S → L → S → Prop

namespace LTS

variable {S L : Type*} {M : LTS S L}

/-- `Run s ls t`: the labels `ls`, taken in order, lead from `s` to `t`. -/
inductive Run (M : LTS S L) : S → List L → S → Prop
  | nil (s : S) : Run M s [] s
  | cons {s t u : S} {l : L} {ls : List L} : M.step s l t → Run M t ls u → Run M s (l :: ls) u

def Reachable (M : LTS S L) (s : S) : Prop := ∃ s₀ ls, M.init s₀ ∧ M.Run s₀ ls s

theorem Run.append {a b c : S} {l₁ l₂ : List L} (h₁ : M.Run a l₁ b) (h₂ : M.Run b l₂ c) :
    M.Run a (l₁ ++ l₂) c := by
  induction h₁ with
  | nil => exact h₂
  | cons hs _ ih => exact .cons hs (ih h₂)

theorem Run.single {s t : S} {l : L} (h : M.step s l t) : M.Run s [l] t := .cons h (.nil t)

theorem Reachable.init {s : S} (h : M.init s) : M.Reachable s := ⟨s, [], h, .nil s⟩

theorem Reachable.run {s t : S} {ls : List L} (h : M.Reachable s) (hr : M.Run s ls t) :
    M.Reachable t := by
  obtain ⟨s₀, l₀, hi, h₀⟩ := h
  exact ⟨s₀, l₀ ++ ls, hi, h₀.append hr⟩

theorem Reachable.step {s t : S} {l : L} (h : M.Reachable s) (hs : M.step s l t) : M.Reachable t :=
  h.run (.single hs)

/-! ## The invariant rule -/

/-- `P` holds initially and every step preserves it. -/
structure Inductive (M : LTS S L) (P : S → Prop) : Prop where
  init : ∀ s, M.init s → P s
  step : ∀ s l t, P s → M.step s l t → P t

theorem Inductive.run {P : S → Prop} (h : M.Inductive P) {s t : S} {ls : List L}
    (hr : M.Run s ls t) (hs : P s) : P t := by
  induction hr with
  | nil => exact hs
  | cons hst _ ih => exact ih (h.step _ _ _ hs hst)

theorem Inductive.reachable {P : S → Prop} (h : M.Inductive P) (s : S) (hr : M.Reachable s) : P s := by
  obtain ⟨s₀, ls, hi, hrun⟩ := hr
  exact h.run hrun (h.init _ hi)

/-! ## Runs whose steps meet a condition -/

def restrict (M : LTS S L) (C : S → L → Prop) : LTS S L where
  init := M.init
  step s l t := M.step s l t ∧ C s l

theorem Run.of_restrict {C : S → L → Prop} {s t : S} {ls : List L} (h : (M.restrict C).Run s ls t) :
    M.Run s ls t := by
  induction h with
  | nil => exact .nil _
  | cons hs _ ih => exact .cons hs.1 ih

theorem Reachable.of_restrict {C : S → L → Prop} {s : S} (h : (M.restrict C).Reachable s) :
    M.Reachable s := by
  obtain ⟨s₀, ls, hi, hr⟩ := h
  exact ⟨s₀, ls, hi, hr.of_restrict⟩

/-- A condition that every step meets restricts nothing. -/
theorem Inductive.of_restrict {C : S → L → Prop} {P : S → Prop} (h : (M.restrict C).Inductive P)
    (hC : ∀ s l, C s l) : M.Inductive P :=
  ⟨h.init, fun s l t hs hst => h.step s l t hs ⟨hst, hC s l⟩⟩

/-! ## Executable systems -/

/-- The system of a partial step function. -/
def ofFn (i : S → Prop) (f : S → L → Option S) : LTS S L where
  init := i
  step s l t := f s l = some t

def exec (f : S → L → Option S) : S → List L → Option S
  | s, [] => some s
  | s, l :: ls => (f s l).bind fun t => exec f t ls

theorem exec_run (i : S → Prop) (f : S → L → Option S) :
    ∀ (s : S) (ls : List L) (t : S), exec f s ls = some t ↔ (ofFn i f).Run s ls t
  | s, [], t => by
    constructor
    · intro h
      simp only [exec, Option.some.injEq] at h
      subst h; exact .nil s
    · intro h; cases h; rfl
  | s, l :: ls, t => by
    simp only [exec, Option.bind_eq_some_iff]
    constructor
    · intro hex
      obtain ⟨u, hu, ht⟩ := hex
      exact .cons hu ((exec_run i f u ls t).mp ht)
    · intro h
      cases h with
      | cons hs hr => exact ⟨_, hs, (exec_run i f _ ls t).mpr hr⟩

theorem reachable_of_exec {i : S → Prop} {f : S → L → Option S} {s t : S} {ls : List L} (hi : i s)
    (h : exec f s ls = some t) : (ofFn i f).Reachable t :=
  ⟨s, ls, hi, (exec_run i f s ls t).mp h⟩

theorem exec_append (f : S → L → Option S) (s : S) (l₁ l₂ : List L) :
    exec f s (l₁ ++ l₂) = (exec f s l₁).bind fun t => exec f t l₂ := by
  induction l₁ generalizing s with
  | nil => rfl
  | cons l l₁ ih =>
    simp only [List.cons_append, exec, Option.bind_assoc]
    congr 1
    funext t
    exact ih t

/-- The steps of `f` that meet a decidable condition. -/
def guarded (f : S → L → Option S) (C : S → L → Prop) [∀ s l, Decidable (C s l)] (s : S) (l : L) : Option S :=
  if C s l then f s l else none

theorem restrict_reachable_of_exec {i : S → Prop} {f : S → L → Option S} {C : S → L → Prop}
    [∀ s l, Decidable (C s l)] {s t : S} {ls : List L} (hi : i s) (h : exec (guarded f C) s ls = some t) :
    ((ofFn i f).restrict C).Reachable t := by
  refine ⟨s, ls, hi, ?_⟩
  clear hi
  induction ls generalizing s with
  | nil =>
    simp only [exec, Option.some.injEq] at h
    subst h; exact .nil s
  | cons l ls ih =>
    simp only [exec, Option.bind_eq_some_iff] at h
    obtain ⟨u, hu, ht⟩ := h
    unfold guarded at hu
    split at hu
    · rename_i hC
      exact .cons ⟨hu, hC⟩ (ih ht)
    · cases hu

/-- The states a run goes through: `Visits f s ls n t` when the first `n` of
the labels lead to `t`. -/
def Visits (f : S → L → Option S) (s : S) (ls : List L) (n : Nat) (t : S) : Prop :=
  exec f s (ls.take n) = some t

theorem visits_succ {f : S → L → Option S} {s t : S} {ls : List L} {n : Nat} {l : L}
    (h : Visits f s ls n t) (hl : ls[n]? = some l) (u : S) : Visits f s ls (n + 1) u ↔ f t l = some u := by
  unfold Visits at h ⊢
  rw [List.take_add_one, hl, exec_append, h]
  simp [exec]

/-- The invariant rule for the states of one run, where a step may use that
the run takes it. -/
theorem visits_induction {f : S → L → Option S} {P : S → Prop} {s : S} {ls : List L} (h0 : P s)
    (hstep : ∀ n t l u, Visits f s ls n t → ls[n]? = some l → f t l = some u → P t → P u) :
    ∀ n t, Visits f s ls n t → P t := by
  intro n
  induction n with
  | zero =>
    intro t h
    simp only [Visits, List.take_zero, exec, Option.some.injEq] at h
    exact h ▸ h0
  | succ n ih =>
    intro u hu
    cases hl : ls[n]? with
    | none =>
      have hlen : ls.length ≤ n := List.getElem?_eq_none_iff.mp hl
      refine ih u ?_
      unfold Visits at hu ⊢
      rwa [List.take_of_length_le (by omega)] at hu ⊢
    | some l =>
      have hpre : ∃ t, Visits f s ls n t := by
        unfold Visits at hu ⊢
        rw [List.take_add_one, exec_append] at hu
        obtain ⟨t, ht, _⟩ := Option.bind_eq_some_iff.mp hu
        exact ⟨t, ht⟩
      obtain ⟨t, ht⟩ := hpre
      exact hstep n t l u ht hl ((visits_succ ht hl u).mp hu) (ih t ht)

end LTS

/-! ## Logs -/

/-- What is so of all that the parties have sent is so after `i` sent `x`. -/
theorem forall_mem_log {ι α : Type*} [DecidableEq ι] {P : ι → α → Prop} {log : ι → List α}
    (h : ∀ j, ∀ y ∈ log j, P j y) {i : ι} {x : α} (hx : P i x) :
    ∀ j, ∀ y ∈ Function.update log i (log i ++ [x]) j, P j y := by
  refine (Function.forall_update_iff log fun j sent => ∀ y ∈ sent, P j y).mpr ⟨?_, fun j _ => h j⟩
  exact List.forall_mem_append.mpr ⟨h i, List.forall_mem_singleton.mpr hx⟩

end Skywing
