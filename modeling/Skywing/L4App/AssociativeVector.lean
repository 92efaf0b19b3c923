import Mathlib.Algebra.BigOperators.Group.List.Basic
import Mathlib.Tactic.Ring
import Skywing.Core.Maps
import Skywing.Core.Types

/-!
# Associative vectors (`skywing_mid/associative_vector.hpp`)

An `AssociativeVector` is an `std::unordered_map` from indices to values and a
default value. Reading an open one at an index that is not stored gives the
default value. The arithmetic goes over the stored entries of one operand, and
uses the default value of the left one only; the negation drops it.

Results:
* `pointwise_iff`: on a family of open vectors the arithmetic is pointwise
  exactly where each of them has the default value 0 or stores every index.
* `not_pointwise`: vectors with the default value 1.
-/
namespace Skywing.L4

/-- mirrors skywing/skywing_mid/associative_vector.hpp:133-135 -/
structure AssociativeVector (K V : Type*) (isOpen : Bool) where
  defaultValue : V
  data : AList fun _ : K => V

namespace AssociativeVector

variable {K V : Type*} [DecidableEq K] {isOpen : Bool}

/-! ## Access -/

/-- mirrors skywing/skywing_mid/associative_vector.hpp:32-34 -/
def convertFrom {isOpen' : Bool} (other : AssociativeVector K V isOpen') : AssociativeVector K V isOpen :=
  ⟨other.defaultValue, other.data⟩

/-- mirrors skywing/skywing_mid/associative_vector.hpp:54-57 -/
def contains (a : AssociativeVector K V isOpen) (ind : K) : Bool := ind ∈ a.data

/-- The value, and the vector after the access; `none` where a closed vector
throws.
mirrors skywing/skywing_mid/associative_vector.hpp:36-49 -/
def index (a : AssociativeVector K V isOpen) (ind : K) : Option (V × AssociativeVector K V isOpen) :=
  match a.data.lookup ind with
  | some x => some (x, a)
  | none => if isOpen then some (a.defaultValue, { a with data := a.data.insert ind a.defaultValue }) else none

/-- What an open vector has at an index. -/
def value (a : AssociativeVector K V true) (ind : K) : V := (a.data.lookup ind).getD a.defaultValue

/-! ## Arithmetic -/

/-- One entry of the right operand.
mirrors skywing/skywing_mid/associative_vector.hpp:81-91, 100-110 -/
def combineEntry (isOpen : Bool) (defaultValue : V) (op : V → V → V) (data : AList fun _ : K => V)
    (e : Σ _ : K, V) : AList fun _ : K => V :=
  match data.lookup e.1 with
  | some x => data.insert e.1 (op x e.2)
  | none => if isOpen then data.insert e.1 (op defaultValue e.2) else data

/-- The loop of `operator+=` and `operator-=`. -/
def combine (op : V → V → V) (a b : AssociativeVector K V isOpen) : AssociativeVector K V isOpen :=
  { a with data := b.data.entries.foldl (combineEntry isOpen a.defaultValue op) a.data }

section Operators

variable [CommRing V]

/-- mirrors skywing/skywing_mid/associative_vector.hpp:77-94 -/
def addAssign (a b : AssociativeVector K V isOpen) : AssociativeVector K V isOpen := combine (· + ·) a b

/-- mirrors skywing/skywing_mid/associative_vector.hpp:96-113 -/
def subAssign (a b : AssociativeVector K V isOpen) : AssociativeVector K V isOpen := combine (· - ·) a b

/-- mirrors skywing/skywing_mid/associative_vector.hpp:115-121 -/
def mulAssign (a : AssociativeVector K V isOpen) (f : V) : AssociativeVector K V isOpen :=
  { a with data := a.data.mapVal fun _ x => x * f }

/-- The sum is taken in an open vector.
mirrors skywing/skywing_mid/associative_vector.hpp:147-155 -/
def add (a b : AssociativeVector K V isOpen) : AssociativeVector K V isOpen :=
  let c : AssociativeVector K V true := convertFrom a
  convertFrom (c.addAssign (convertFrom b))

/-- mirrors skywing/skywing_mid/associative_vector.hpp:157-165 -/
def sub (a b : AssociativeVector K V isOpen) : AssociativeVector K V isOpen :=
  let c : AssociativeVector K V true := convertFrom a
  convertFrom (c.subAssign (convertFrom b))

/-- The new vector is made of the map alone.
mirrors skywing/skywing_mid/associative_vector.hpp:167-175 -/
def neg (a : AssociativeVector K V isOpen) : AssociativeVector K V isOpen :=
  ⟨0, a.data.mapVal fun _ x => -x⟩

/-- mirrors skywing/skywing_mid/associative_vector.hpp:177-184 -/
def scale (f : V) (b : AssociativeVector K V isOpen) : AssociativeVector K V isOpen := b.mulAssign f

end Operators

/-! ## What is stored -/

theorem index_open (a : AssociativeVector K V true) (ind : K) :
    (a.index ind).map Prod.fst = some (a.value ind) := by
  unfold index value
  cases a.data.lookup ind <;> rfl

/-- Reading leaves an open vector as it is, read at any index. -/
theorem value_index {a a' : AssociativeVector K V true} {ind : K} {x : V} (h : a.index ind = some (x, a')) (k : K) :
    a'.value k = a.value k := by
  unfold index at h
  split at h
  · cases h
    rfl
  · rename_i hnone
    cases h
    by_cases hk : k = ind
    · subst hk
      simp [value, hnone]
    · simp [value, hk]

theorem lookup_combineEntry (d : V) (op : V → V → V) (data : AList fun _ : K => V) (e : Σ _ : K, V) (k : K) :
    (combineEntry true d op data e).lookup k =
      if k = e.1 then some (op ((data.lookup k).getD d) e.2) else data.lookup k := by
  unfold combineEntry
  by_cases hk : k = e.1
  · rw [if_pos hk, ← hk]
    cases data.lookup k <;> simp
  · rw [if_neg hk]
    cases data.lookup e.1 <;> simp [hk]

/-- Each entry of the right operand is met once. -/
theorem lookup_foldl (d : V) (op : V → V → V) : ∀ (entries : List (Σ _ : K, V)) (data : AList fun _ : K => V),
    entries.NodupKeys → ∀ k, (entries.foldl (combineEntry true d op) data).lookup k =
      match entries.dlookup k with
      | some y => some (op ((data.lookup k).getD d) y)
      | none => data.lookup k
  | [], _, _, _ => rfl
  | e :: entries, data, hnd, k => by
    rw [List.nodupKeys_cons] at hnd
    rw [List.foldl_cons, lookup_foldl d op entries _ hnd.2 k, lookup_combineEntry]
    by_cases hk : k = e.1
    · subst hk
      rw [List.dlookup_eq_none.mpr hnd.1, List.dlookup_cons_eq]
      simp
    · rw [List.dlookup_cons_ne _ _ hk, if_neg hk]

theorem lookup_combine (op : V → V → V) (a b : AssociativeVector K V true) (k : K) :
    (combine op a b).data.lookup k =
      match b.data.lookup k with
      | some y => some (op (a.value k) y)
      | none => a.data.lookup k :=
  lookup_foldl a.defaultValue op b.data.entries a.data b.data.nodupKeys k

/-- Read anywhere, the left operand counts in full and the right one where it
is stored. -/
theorem value_combine (op : V → V → V) (a b : AssociativeVector K V true) (k : K) :
    (combine op a b).value k = (b.data.lookup k).elim (a.value k) (op (a.value k)) := by
  unfold value
  rw [lookup_combine]
  cases b.data.lookup k <;> rfl

variable [CommRing V] {a b c : AssociativeVector K V true} {f : V}

theorem value_neg (a : AssociativeVector K V true) (k : K) : a.neg.value k = -(a.data.lookup k).getD 0 := by
  unfold value neg
  rw [AList.lookup_mapVal]
  cases a.data.lookup k <;> simp

theorem value_scale (f : V) (a : AssociativeVector K V true) (k : K) :
    (scale f a).value k = (a.data.lookup k).elim a.defaultValue (f * ·) := by
  unfold value scale mulAssign
  rw [AList.lookup_mapVal]
  cases a.data.lookup k <;> simp [mul_comm]

/-! ## Pointwise arithmetic -/

/-- The arithmetic on a family is that of its values. -/
structure Pointwise (S : Set (AssociativeVector K V true)) : Prop where
  add : ∀ a ∈ S, ∀ b ∈ S, ∀ k, (a.add b).value k = a.value k + b.value k
  sub : ∀ a ∈ S, ∀ b ∈ S, ∀ k, (a.sub b).value k = a.value k - b.value k
  neg : ∀ a ∈ S, ∀ k, a.neg.value k = -a.value k
  scale : ∀ f : V, ∀ a ∈ S, ∀ k, (scale f a).value k = f * a.value k
  comm : ∀ a ∈ S, ∀ b ∈ S, ∀ k, (a.add b).value k = (b.add a).value k
  assoc : ∀ a ∈ S, ∀ b ∈ S, ∀ c ∈ S, ∀ k, ((a.add b).add c).value k = (a.add (b.add c)).value k
  subAsNeg : ∀ a ∈ S, ∀ b ∈ S, ∀ k, (a.sub b).value k = (a.add b.neg).value k
  order : ∀ a ∈ S, ∀ l l' : List (AssociativeVector K V true), (∀ b ∈ l, b ∈ S) → l.Perm l' →
    ∀ k, (l.foldl AssociativeVector.add a).value k = (l'.foldl AssociativeVector.add a).value k

/-- What is not stored is 0. -/
def ZeroElsewhere (a : AssociativeVector K V true) : Prop := a.defaultValue = 0 ∨ ∀ k, k ∈ a.data

theorem ZeroElsewhere.value_eq (h : ZeroElsewhere a) (k : K) : a.value k = (a.data.lookup k).getD 0 := by
  rcases h with h | h
  · rw [value, h]
  · obtain ⟨x, hx⟩ := Option.isSome_iff_exists.mp (AList.lookup_isSome.mpr (h k))
    simp [value, hx]

theorem ZeroElsewhere.add (h : ZeroElsewhere a) (b : AssociativeVector K V true) : ZeroElsewhere (a.add b) := by
  refine h.imp (fun h => h) fun h k => AList.lookup_isSome.mp ?_
  show ((combine (· + ·) a b).data.lookup k).isSome = true
  rw [lookup_combine]
  cases b.data.lookup k with
  | none => exact AList.lookup_isSome.mpr (h k)
  | some y => rfl

theorem value_add (a : AssociativeVector K V true) (h : ZeroElsewhere b) (k : K) :
    (a.add b).value k = a.value k + b.value k := by
  rw [h.value_eq]
  show (combine (· + ·) a b).value k = _
  rw [value_combine]
  cases b.data.lookup k <;> simp

theorem value_sub (a : AssociativeVector K V true) (h : ZeroElsewhere b) (k : K) :
    (a.sub b).value k = a.value k - b.value k := by
  rw [h.value_eq]
  show (combine (· - ·) a b).value k = _
  rw [value_combine]
  cases b.data.lookup k <;> simp

theorem value_foldl_add : ∀ (l : List (AssociativeVector K V true)) (a : AssociativeVector K V true),
    (∀ b ∈ l, ZeroElsewhere b) → ∀ k, (l.foldl AssociativeVector.add a).value k = a.value k + (l.map (·.value k)).sum
  | [], _, _, _ => by simp
  | b :: l, a, h, k => by
    have hb := h b List.mem_cons_self
    have hl : ∀ c ∈ l, ZeroElsewhere c := fun c hc => h c (List.mem_cons_of_mem b hc)
    rw [List.foldl_cons, value_foldl_add l _ hl, value_add a hb, List.map_cons, List.sum_cons]
    ring

/-- **Arithmetic is pointwise exactly on vectors that are 0 where nothing is
stored.** -/
theorem pointwise_iff (S : Set (AssociativeVector K V true)) :
    Pointwise S ↔ ∀ a ∈ S, a.defaultValue = 0 ∨ ∀ k, k ∈ a.data := by
  constructor
  · intro h a ha
    by_contra hno
    obtain ⟨hd, hk⟩ := not_or.mp hno
    obtain ⟨k, hk⟩ := not_forall.mp hk
    have hneg := h.neg a ha k
    rw [value_neg, value, AList.lookup_eq_none.mpr hk, Option.getD_none, Option.getD_none, neg_inj] at hneg
    exact hd hneg.symm
  · intro h
    have hz : ∀ a ∈ S, ZeroElsewhere a := h
    refine ⟨fun a _ b hb => value_add a (hz b hb), fun a _ b hb => value_sub a (hz b hb), fun a ha k => ?_,
      fun f a ha k => ?_, fun a ha b hb k => ?_, fun a _ b hb c hc k => ?_, fun a _ b hb k => ?_,
      fun a _ l l' hl hp k => ?_⟩
    · rw [value_neg, (hz a ha).value_eq]
    · rw [value_scale]
      have hv := (hz a ha).value_eq k
      cases hl : a.data.lookup k with
      | none =>
        have hd : a.defaultValue = 0 := by simpa [value, hl] using hv
        simp [value, hl, hd]
      | some x => simp [value, hl]
    · rw [value_add a (hz b hb), value_add b (hz a ha), add_comm]
    · rw [value_add _ (hz c hc), value_add a (hz b hb), value_add a ((hz b hb).add c), value_add b (hz c hc), add_assoc]
    · rw [value_sub a (hz b hb), value_add a (.inl rfl), value_neg, ← (hz b hb).value_eq, sub_eq_add_neg]
    · rw [value_foldl_add l a fun b hb => hz b (hl b hb),
        value_foldl_add l' a fun b hb => hz b (hl b (hp.mem_iff.mpr hb)), (hp.map _).sum_eq]

/-- The sum and the negation, where nothing is stored. -/
theorem not_pointwise : ¬ Pointwise {(⟨1, ∅⟩ : AssociativeVector UInt32 ℤ true)} := by
  intro h
  have hneg := h.neg ⟨1, ∅⟩ rfl 0
  revert hneg
  decide

end AssociativeVector

end Skywing.L4
