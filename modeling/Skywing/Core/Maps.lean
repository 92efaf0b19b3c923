import Mathlib.Data.List.AList
import Mathlib.Algebra.BigOperators.Group.List.Basic
import Mathlib.Algebra.GroupWithZero.Nat

/-!
# Maps with one type of values

What association lists need to stand for the maps of a program: insertion
that keeps an existing entry, an update of all values, the removal of all
entries with some value, and sums over the entries. A sum splits at any key
(`sumOver_erase`), so the effect of one operation on it is the effect on the
entries it touches.
-/
namespace AList

variable {K V W : Type*}

/-- Every value updated. -/
def mapVal (f : K → V → W) (m : AList fun _ : K => V) : AList fun _ : K => W where
  entries := m.entries.map (.map id f)
  nodupKeys := m.nodupKeys.map₂ f

/-- The sum of the weights of the entries. -/
def sumOver (w : K → V → Nat) (m : AList fun _ : K => V) : Nat := (m.entries.map fun e => w e.1 e.2).sum

variable [DecidableEq K]

/-- Insertion that leaves an existing entry as it is. -/
def insertNew (k : K) (v : V) (m : AList fun _ : K => V) : AList fun _ : K => V :=
  if k ∈ m then m else m.insert k v

/-- Assignment to a key: an existing entry keeps its place, a new one comes
last. -/
def assign (k : K) (v : V) (m : AList fun _ : K => V) : AList fun _ : K => V :=
  if h : k ∈ m then m.replace k v
  else ⟨m.entries ++ [⟨k, v⟩], by
    rw [List.nodupKeys_middle, List.append_nil]
    exact List.nodupKeys_cons.mpr ⟨h, m.nodupKeys⟩⟩

/-- The entries whose value meets `p` removed. -/
def eraseVal (p : V → Bool) (m : AList fun _ : K => V) : AList fun _ : K => V where
  entries := m.entries.filter fun e => !p e.2
  nodupKeys := m.nodupKeys.sublist List.filter_sublist

/-! ## Looking up -/

@[simp] theorem lookup_mapVal (f : K → V → W) (m : AList fun _ : K => V) (k : K) :
    (m.mapVal f).lookup k = (m.lookup k).map (f k) :=
  List.dlookup_map₂ k

omit [DecidableEq K] in
theorem mapVal_mapVal {X : Type*} (f : K → V → W) (g : K → W → X) (m : AList fun _ : K => V) :
    (m.mapVal f).mapVal g = m.mapVal fun k v => g k (f k v) := by
  apply AList.ext
  simp only [mapVal, List.map_map]
  rfl

theorem map_kerase {g : (Σ _ : K, V) → Σ _ : K, W} (hg : ∀ e, (g e).1 = e.1) (k : K) (l : List (Σ _ : K, V)) :
    (l.kerase k).map g = (l.map g).kerase k := by
  induction l with
  | nil => rfl
  | cons e l ih =>
    by_cases he : k = e.1
    · rw [List.kerase_cons_eq he, List.map_cons, List.kerase_cons_eq (he.trans (hg e).symm)]
    · rw [List.kerase_cons_ne he, List.map_cons, List.map_cons,
        List.kerase_cons_ne fun h => he (h.trans (hg e)), ih]

/-- An update of all values after an insertion. -/
theorem mapVal_insert (f : K → V → W) (m : AList fun _ : K => V) (k : K) (v : V) :
    (m.insert k v).mapVal f = (m.mapVal f).insert k (f k v) := by
  let g : (Σ _ : K, V) → Σ _ : K, W := .map id f
  apply AList.ext
  rw [entries_insert]
  show List.map g _ = _
  rw [entries_insert, List.map_cons, map_kerase (g := g) fun _ => rfl]
  rfl

omit [DecidableEq K] in
@[simp] theorem mapVal_id (m : AList fun _ : K => V) : (m.mapVal fun _ v => v) = m := by
  apply AList.ext
  simp only [mapVal]
  exact List.map_id' _

omit [DecidableEq K] in
/-- The values in order, found by a predicate that the update respects. -/
theorem find?_mapVal {p : W → Bool} {q : V → Bool} {f : K → V → W} (h : ∀ k v, p (f k v) = q v)
    (m : AList fun _ : K => V) :
    (m.mapVal f).entries.find? (fun e => p e.2) = (m.entries.find? fun e => q e.2).map (.map id f) := by
  simp only [mapVal, List.find?_map]
  congr 2
  funext e
  exact h e.1 e.2

theorem mem_mapVal {f : K → V → W} {m : AList fun _ : K => V} {k : K} : k ∈ m.mapVal f ↔ k ∈ m := by
  rw [← lookup_isSome, lookup_mapVal, Option.isSome_map, lookup_isSome]

theorem lookup_insertNew {m : AList fun _ : K => V} {k k' : K} {v : V} :
    (m.insertNew k v).lookup k' = if k' = k then some ((m.lookup k).getD v) else m.lookup k' := by
  unfold insertNew
  split
  · rename_i hk
    obtain ⟨x, hx⟩ := Option.isSome_iff_exists.mp (lookup_isSome.mpr hk)
    split
    · rename_i he
      rw [he, hx, Option.getD_some]
    · rfl
  · rename_i hk
    split
    · rename_i he
      rw [he, lookup_insert, lookup_eq_none.mpr hk, Option.getD_none]
    · rename_i he
      exact lookup_insert_ne he

theorem mem_insertNew {m : AList fun _ : K => V} {k k' : K} {v : V} : k' ∈ m.insertNew k v ↔ k' = k ∨ k' ∈ m := by
  unfold insertNew
  split
  · rename_i hk
    exact ⟨.inr, fun h => h.elim (fun he => he ▸ hk) id⟩
  · exact mem_insert m

theorem mem_entries_iff {m : AList fun _ : K => V} {k : K} {v : V} :
    (⟨k, v⟩ : Σ _ : K, V) ∈ m.entries ↔ m.lookup k = some v :=
  ⟨fun h => List.mem_dlookup m.nodupKeys h, fun h => List.of_mem_dlookup h⟩

@[simp] theorem lookup_eraseVal (p : V → Bool) (m : AList fun _ : K => V) (k : K) :
    (m.eraseVal p).lookup k = (m.lookup k).filter (!p ·) := by
  apply Option.ext
  intro v
  rw [← Option.mem_def, Option.mem_def, ← mem_entries_iff]
  unfold eraseVal
  simp only [List.mem_filter, mem_entries_iff, Option.filter_eq_some_iff]

theorem entries_assign_of_notMem {k : K} {v : V} {m : AList fun _ : K => V} (h : k ∉ m) :
    (m.assign k v).entries = m.entries ++ [⟨k, v⟩] := by
  rw [assign, dif_neg h]

/-- An entry that is left after one is erased. -/
theorem lookup_of_erase {k k' : K} {v : V} {m : AList fun _ : K => V} (h : (m.erase k).lookup k' = some v) :
    m.lookup k' = some v := by
  by_cases hk : k' = k
  · subst hk
    rw [lookup_erase] at h
    cases h
  · rwa [lookup_erase_ne hk] at h

/-! ## Sums over the entries -/

theorem sumOver_insert (w : K → V → Nat) (m : AList fun _ : K => V) (k : K) (v : V) :
    (m.insert k v).sumOver w = w k v + (m.erase k).sumOver w := by
  rw [sumOver, entries_insert]
  rfl

theorem sumOver_insert_of_notMem (w : K → V → Nat) {m : AList fun _ : K => V} {k : K} (v : V) (h : k ∉ m) :
    (m.insert k v).sumOver w = w k v + m.sumOver w := by
  rw [sumOver, entries_insert_of_notMem h]
  rfl

/-- A sum splits at a key. -/
theorem sumOver_erase (w : K → V → Nat) {m : AList fun _ : K => V} {k : K} {v : V}
    (h : m.lookup k = some v) : m.sumOver w = w k v + (m.erase k).sumOver w := by
  have hk : k ∈ m.entries.keys := lookup_isSome.mp (by rw [h, Option.isSome_some])
  obtain ⟨b, l₁, l₂, -, h₁, h₂⟩ := List.exists_of_kerase hk
  have hb : m.lookup k = some b := mem_entries_iff.mp (by rw [h₁]; simp)
  replace hb : b = v := Option.some.inj (hb.symm.trans h)
  have he : (m.erase k).entries = l₁ ++ l₂ := h₂
  simp only [sumOver, he, h₁, hb, List.map_append, List.map_cons, List.sum_append, List.sum_cons]
  omega

end AList

/-! ## Ordered maps -/

namespace Std.ExtTreeMap

variable {κ β : Type*} {cmp : κ → κ → Ordering} [TransCmp cmp] [LawfulEqCmp cmp]

/-- A map is the one of its entries. -/
theorem insertMany_toList (m : ExtTreeMap κ β cmp) : (∅ : ExtTreeMap κ β cmp).insertMany m.toList = m := by
  classical
  let instBEq : BEq κ := instBEqOfDecidableEq
  rw [← ofList_eq_insertMany_empty]
  refine ext_getElem? fun k => ?_
  have hself : cmp k k = .eq := ReflCmp.compare_self
  cases hk : m[k]? with
  | some v => exact getElem?_ofList_of_mem hself distinct_keys_toList (mem_toList_iff_getElem?_eq_some.mpr hk)
  | none =>
    refine getElem?_ofList_of_contains_eq_false ?_
    rw [map_fst_toList_eq_keys, contains_keys, contains_eq_isSome_getElem?, hk]
    rfl

omit [LawfulEqCmp cmp] in
theorem nodup_map_fst_toList (m : ExtTreeMap κ β cmp) : (m.toList.map Prod.fst).Nodup := by
  rw [map_fst_toList_eq_keys]
  exact nodup_keys

/-- What holds of all entries still does when one more meets it. -/
theorem forall_mem_insert {P : κ × β → Prop} {m : ExtTreeMap κ β cmp} {k : κ} {v : β} (h : ∀ e ∈ m.toList, P e)
    (hkv : P (k, v)) : ∀ e ∈ (m.insert k v).toList, P e := by
  rintro ⟨k', v'⟩ he
  rw [mem_toList_iff_getElem?_eq_some, getElem?_insert] at he
  split at he
  · rename_i hk
    cases he
    exact LawfulEqCmp.eq_of_compare hk ▸ hkv
  · exact h (k', v') (mem_toList_iff_getElem?_eq_some.mpr he)

omit [LawfulEqCmp cmp] in
theorem forall_mem_map {β' : Type*} {f : κ → β → β'} {P : κ × β' → Prop} {m : ExtTreeMap κ β cmp}
    (h : ∀ e ∈ m.toList, P (e.1, f e.1 e.2)) : ∀ e ∈ (m.map f).toList, P e := by
  rw [toList_map]
  exact List.forall_mem_map.mpr h

theorem map_congr_mem {β' : Type*} {f g : κ → β → β'} {m : ExtTreeMap κ β cmp}
    (h : ∀ e ∈ m.toList, f e.1 e.2 = g e.1 e.2) : m.map f = m.map g := by
  refine ext_getElem? fun k => ?_
  rw [getElem?_map, getElem?_map]
  cases hk : m[k]? with
  | none => rfl
  | some v => exact congrArg some (h (k, v) (mem_toList_iff_getElem?_eq_some.mpr hk))

end Std.ExtTreeMap
