import Mathlib.Algebra.GroupWithZero.Nat
import Mathlib.Data.List.Basic
import Mathlib.Data.Sum.Basic
import Mathlib.Logic.Function.Iterate

/-!
# Texts with references

A template is a text in which some places refer to other texts by a key. What
it means is the text with each reference replaced by what its key stands for
(`meaning`). A round replaces, in each template of an environment, one key
after the other by its template of before the round. It keeps what the
templates mean (`meaning_round`), and it doubles the distance in rank between a
template and what it refers to (`far_round`), so that references `n` deep are
gone after the binary logarithm of `n` rounds.
-/
namespace Skywing

abbrev Template (A K : Type*) := List (A ⊕ K)

namespace Template

variable {A K : Type*} {W W' : K → List A} {t q : Template A K} {k k' : K}

def meaning (W : K → List A) (t : Template A K) : List A := t.flatMap (Sum.elim (fun a => [a]) W)

@[simp] theorem meaning_nil : meaning W [] = [] := rfl

@[simp] theorem meaning_text (a : A) : meaning W (.inl a :: t) = a :: meaning W t := rfl

@[simp] theorem meaning_ref : meaning W (.inr k :: t) = W k ++ meaning W t := rfl

theorem meaning_append : meaning W (t ++ q) = meaning W t ++ meaning W q := List.flatMap_append

theorem meaning_congr (h : ∀ k, .inr k ∈ t → W k = W' k) : meaning W t = meaning W' t := by
  refine List.flatMap_congr fun p hp => ?_
  cases p with
  | inl a => rfl
  | inr k => exact h k hp

variable [DecidableEq K]

/-- The references to `k` replaced. -/
def subst (k : K) (q t : Template A K) : Template A K :=
  t.flatMap (Sum.elim (fun a => [.inl a]) fun k' => if k' = k then q else [.inr k'])

@[simp] theorem subst_nil : subst k q [] = [] := rfl

@[simp] theorem subst_text (a : A) : subst k q (.inl a :: t) = .inl a :: subst k q t := rfl

theorem subst_ref : subst k q (.inr k' :: t) = (if k' = k then q else [.inr k']) ++ subst k q t := rfl

theorem subst_singleton (k k' : K) (t : Template A K) :
    subst k [.inr k'] t = t.map (Sum.map id fun j => if j = k then k' else j) := by
  unfold subst
  rw [← List.flatMap_pure_eq_map]
  refine List.flatMap_congr fun p _ => ?_
  cases p with
  | inl a => rfl
  | inr j =>
    simp only [Sum.elim_inr, Function.comp, Sum.map_inr]
    split <;> rfl

theorem meaning_subst (hq : meaning W q = W k) (t : Template A K) : meaning W (subst k q t) = meaning W t := by
  induction t with
  | nil => rfl
  | cons p t ih =>
    cases p with
    | inl a => rw [subst_text, meaning_text, meaning_text, ih]
    | inr k' =>
      rw [subst_ref, meaning_append, ih, meaning_ref]
      split
      · rename_i hk
        rw [hq, hk]
      · rw [meaning_ref, meaning_nil, List.append_nil]

/-- What a template refers to once `k` is replaced. -/
theorem ref_of_mem_subst (h : .inr k' ∈ subst k q t) : (.inr k' ∈ t ∧ k' ≠ k) ∨ (.inr k ∈ t ∧ .inr k' ∈ q) := by
  obtain ⟨p, hp, hmem⟩ := List.mem_flatMap.mp h
  cases p with
  | inl a => cases List.mem_singleton.mp hmem
  | inr j =>
    simp only [Sum.elim_inr] at hmem
    split at hmem
    · rename_i hj
      exact .inr ⟨hj ▸ hp, hmem⟩
    · rename_i hj
      cases List.mem_singleton.mp hmem
      exact .inl ⟨hp, hj⟩

theorem text_of_mem_subst {a : A} (h : .inl a ∈ subst k q t) : .inl a ∈ t ∨ .inl a ∈ q := by
  obtain ⟨p, hp, hmem⟩ := List.mem_flatMap.mp h
  cases p with
  | inl b => exact .inl (List.mem_singleton.mp hmem ▸ hp)
  | inr j =>
    simp only [Sum.elim_inr] at hmem
    split at hmem
    · exact .inr hmem
    · cases List.mem_singleton.mp hmem

/-! ## One key after the other -/

def substAll (E : K → Template A K) (ks : List K) (t : Template A K) : Template A K :=
  ks.foldl (fun t k => subst k (E k) t) t

variable {E : K → Template A K} {ks keys : List K}

theorem meaning_substAll (hE : ∀ k ∈ ks, meaning W (E k) = W k) (t : Template A K) :
    meaning W (substAll E ks t) = meaning W t := by
  induction ks generalizing t with
  | nil => rfl
  | cons k ks ih =>
    obtain ⟨hk, hks⟩ := List.forall_mem_cons.mp hE
    exact (ih hks _).trans (meaning_subst hk t)

/-- What all templates are made of stays so. -/
theorem forall_mem_substAll {P : A ⊕ K → Prop} (hE : ∀ k ∈ ks, ∀ p ∈ E k, P p) (ht : ∀ p ∈ t, P p) :
    ∀ p ∈ substAll E ks t, P p := by
  induction ks generalizing t with
  | nil => exact ht
  | cons k ks ih =>
    obtain ⟨hk, hks⟩ := List.forall_mem_cons.mp hE
    refine ih hks fun p hp => ?_
    cases p with
    | inl a => exact (text_of_mem_subst hp).elim (ht _) (hk _)
    | inr j => exact (ref_of_mem_subst hp).elim (fun h => ht _ h.1) fun h => hk _ h.2

/-- Keys that other keys stand for, none of which is replaced in its turn. -/
theorem substAll_rename {g : K → K} (hE : ∀ k ∈ ks, E k = [.inr (g k)]) (hg : ∀ k ∈ ks, g k ∉ ks) (t : Template A K) :
    substAll E ks t = t.map (Sum.map id fun k => if k ∈ ks then g k else k) := by
  induction ks generalizing t with
  | nil =>
    simp only [List.not_mem_nil, if_false]
    exact ((congrArg (List.map · t) Sum.map_id_id).trans (List.map_id t)).symm
  | cons k ks ih =>
    obtain ⟨hk, hE⟩ := List.forall_mem_cons.mp hE
    have hgk : g k ∉ ks := fun h => hg k List.mem_cons_self (List.mem_cons_of_mem _ h)
    have hks : ∀ j ∈ ks, g j ∉ ks := fun j hj h => hg j (List.mem_cons_of_mem _ hj) (List.mem_cons_of_mem _ h)
    show substAll E ks (subst k (E k) t) = _
    rw [ih hE hks, hk, subst_singleton, List.map_map]
    refine List.map_congr_left fun p _ => ?_
    cases p with
    | inl a => rfl
    | inr j =>
      by_cases hj : j = k
      · subst hj
        simp [hgk]
      · simp [hj]

omit [DecidableEq K] in
theorem meaning_map (f : K → K) (t : Template A K) : meaning W (t.map (Sum.map id f)) = meaning (W ∘ f) t := by
  unfold meaning
  rw [List.flatMap_map]
  refine List.flatMap_congr fun p _ => ?_
  cases p <;> rfl

/-! ## Ranks -/

variable {rank : K → ℕ} {d r : ℕ}

/-- The keys that the template refers to are `d` below `r`. -/
def Far (keys : List K) (rank : K → ℕ) (d r : ℕ) (t : Template A K) : Prop :=
  ∀ k ∈ keys, .inr k ∈ t → rank k + d ≤ r

/-- Each key of `ks` that is left is `d` below, and the others twice as far:
what a key is replaced by is `d` below the key. -/
theorem far_substAll (hks : ks ⊆ keys) (hE : ∀ k ∈ ks, Far keys rank d (rank k) (E k))
    (ht : ∀ k ∈ keys, .inr k ∈ t → rank k + 2 * d ≤ r ∨ (k ∈ ks ∧ rank k + d ≤ r)) :
    Far keys rank (2 * d) r (substAll E ks t) := by
  induction ks generalizing t with
  | nil => exact fun k hk hmem => (ht k hk hmem).resolve_right fun h => List.not_mem_nil h.1
  | cons j ks ih =>
    obtain ⟨hj, hE⟩ := List.forall_mem_cons.mp hE
    obtain ⟨hjkeys, hks⟩ := List.cons_subset.mp hks
    refine ih hks hE fun k hk hmem => ?_
    obtain ⟨hmem, hne⟩ | ⟨hjt, hmem⟩ := ref_of_mem_subst hmem
    · exact (ht k hk hmem).imp id fun h => ⟨(List.mem_cons.mp h.1).resolve_left hne, h.2⟩
    · have hkj : rank k + d ≤ rank j := hj k hk hmem
      obtain hjr | ⟨-, hjr⟩ := ht j hjkeys hjt <;> exact .inl (by omega)

/-! ## Rounds -/

def round (keys : List K) (E : K → Template A K) (k : K) : Template A K := substAll E keys (E k)

theorem meaning_round (hE : ∀ k ∈ keys, meaning W (E k) = W k) : ∀ k ∈ keys, meaning W (round keys E k) = W k :=
  fun k hk => (meaning_substAll hE _).trans (hE k hk)

theorem far_round (hE : ∀ k ∈ keys, Far keys rank d (rank k) (E k)) :
    ∀ k ∈ keys, Far keys rank (2 * d) (rank k) (round keys E k) := fun k hk =>
  far_substAll (List.Subset.refl _) hE fun j hj hmem => .inr ⟨hj, hE k hk j hj hmem⟩

theorem forall_mem_round {P : A ⊕ K → Prop} (hE : ∀ k ∈ keys, ∀ p ∈ E k, P p) :
    ∀ k ∈ keys, ∀ p ∈ round keys E k, P p := fun k hk => forall_mem_substAll hE (hE k hk)

variable {n : ℕ}

theorem meaning_iterate (hE : ∀ k ∈ keys, meaning W (E k) = W k) :
    ∀ k ∈ keys, meaning W ((round keys)^[n] E k) = W k := by
  induction n generalizing E with
  | zero => exact hE
  | succ n ih => exact ih (meaning_round hE)

theorem far_iterate (hE : ∀ k ∈ keys, Far keys rank d (rank k) (E k)) :
    ∀ k ∈ keys, Far keys rank (2 ^ n * d) (rank k) ((round keys)^[n] E k) := by
  induction n generalizing E d with
  | zero => simpa using hE
  | succ n ih =>
    rw [Nat.pow_succ, Nat.mul_assoc]
    exact ih (far_round hE)

/-- After enough rounds nothing is referred to any more that has a template,
and the templates are the texts that they mean. -/
theorem iterate_round {sym : K → List A} (hE : ∀ k ∈ keys, meaning W (E k) = W k) (hW : ∀ k ∉ keys, W k = sym k)
    (hrank : ∀ k ∈ keys, Far keys rank 1 (rank k) (E k)) (hn : ∀ k ∈ keys, rank k < 2 ^ n) :
    ∀ k ∈ keys, meaning sym ((round keys)^[n] E k) = W k := by
  intro k hk
  have hfar := far_iterate hrank (n := n) k hk
  have hnone : ∀ j, .inr j ∈ (round keys)^[n] E k → j ∉ keys := by
    intro j hmem hj
    have hle := hfar j hj hmem
    have hlt := hn k hk
    omega
  rw [← meaning_iterate hE (n := n) k hk]
  exact meaning_congr fun j hmem => (hW j (hnone j hmem)).symm

end Template

end Skywing
