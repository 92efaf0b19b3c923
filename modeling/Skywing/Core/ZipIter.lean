import Mathlib.Data.List.Basic

/-!
# Two lists walked at once

An iterator over two lists is a position in each. It is read and written
where both positions are within their lists, and it is at the end where both
are at their ends. `removeIf` is `std::remove_if` for forward iterators and
`eraseIf` cuts off what it leaves behind; `none` is an access beyond the end
of one of the lists.

Results:
* `removeIf_cut`: from a position that is the same in both lists.
* `eraseIf_eq`: the pairs that are kept where the lists are of one length,
  and an access beyond the end otherwise.
-/
namespace ZipIter

universe u v

variable {α : Type u} {β : Type v}

/-! ## Iterators -/

def next (i : Nat × Nat) : Nat × Nat := (i.1 + 1, i.2 + 1)

def last (xs : List α) (ys : List β) : Nat × Nat := (xs.length, ys.length)

def read (xs : List α) (ys : List β) (i : Nat × Nat) : Option (α × β) :=
  match xs[i.1]?, ys[i.2]? with
  | some x, some y => some (x, y)
  | _, _ => none

def write (xs : List α) (ys : List β) (i : Nat × Nat) (t : α × β) : Option (List α × List β) :=
  if i.1 < xs.length ∧ i.2 < ys.length then some (xs.set i.1 t.1, ys.set i.2 t.2) else none

theorem lt_of_read {xs : List α} {ys : List β} {i : Nat × Nat} {t : α × β} (h : read xs ys i = some t) :
    i.1 < xs.length := by
  by_contra hi
  have hx : xs[i.1]? = none := List.getElem?_eq_none (by omega)
  simp [read, hx] at h

theorem length_of_write {xs xs' : List α} {ys ys' : List β} {i : Nat × Nat} {t : α × β}
    (h : write xs ys i t = some (xs', ys')) : xs'.length = xs.length := by
  unfold write at h
  split at h
  · simp only [Option.some.injEq, Prod.mk.injEq] at h
    simp [← h.1]
  · cases h

/-! ## The walks -/

variable (p : α × β → Bool)

/-- The first pair from `first` on that is to be removed. -/
def findIf (xs : List α) (ys : List β) (first : Nat × Nat) : Option (Nat × Nat) :=
  if first = last xs ys then some first
  else
    match _h : read xs ys first with
    | none => none
    | some t => if p t then some first else findIf xs ys (next first)
termination_by xs.length - first.1
decreasing_by
  have := lt_of_read _h
  simp only [next]
  omega

/-- What is kept of the pairs from `first` on moves to `result`. -/
def removeLoop (xs : List α) (ys : List β) (result first : Nat × Nat) :
    Option ((List α × List β) × (Nat × Nat)) :=
  if first = last xs ys then some ((xs, ys), result)
  else
    match _h : read xs ys first with
    | none => none
    | some t =>
      if p t then removeLoop xs ys result (next first)
      else
        match _h' : write xs ys result t with
        | none => none
        | some l => removeLoop l.1 l.2 (next result) (next first)
termination_by xs.length - first.1
decreasing_by
  all_goals
    have := lt_of_read _h
    simp only [next]
  · omega
  · have := length_of_write _h'
    omega

/-- The lists afterwards and where what is kept ends. -/
def removeIf (xs : List α) (ys : List β) (first : Nat × Nat) : Option ((List α × List β) × (Nat × Nat)) :=
  match findIf p xs ys first with
  | none => none
  | some i => if i = last xs ys then some ((xs, ys), i) else removeLoop p xs ys i (next i)

/-- Both lists up to a position. -/
def cut (r : (List α × List β) × (Nat × Nat)) : List α × List β := (r.1.1.take r.2.1, r.1.2.take r.2.2)

def eraseIf (xs : List α) (ys : List β) : Option (List α × List β) := (removeIf p xs ys (0, 0)).map cut

/-! ## What is kept -/

/-- The pairs that are kept, where the lists end together. -/
def kept : List α → List β → Option (List α × List β)
  | [], [] => some ([], [])
  | x :: xs, y :: ys =>
    if p (x, y) then kept xs ys else (kept xs ys).map fun l => (x :: l.1, y :: l.2)
  | _, _ => none

theorem kept_eq (xs : List α) (ys : List β) :
    kept p xs ys = if xs.length = ys.length then some ((xs.zip ys).filter (!p ·)).unzip else none := by
  induction xs generalizing ys with
  | nil => cases ys <;> simp [kept]
  | cons x xs ih =>
    cases ys with
    | nil => simp [kept]
    | cons y ys =>
      rw [kept, ih ys]
      by_cases hl : xs.length = ys.length <;> by_cases hp : p (x, y) <;> simp [hl, hp]

theorem read_append {A : List α} {A' : List β} (S : List α) (S' : List β) (h : A.length = A'.length) :
    read (A ++ S) (A' ++ S') (A.length, A.length) =
      match S, S' with
      | x :: _, y :: _ => some (x, y)
      | _, _ => none := by
  cases S <;> cases S' <;> simp [read, h]

theorem last_append {A : List α} {A' : List β} (S : List α) (S' : List β) (h : A.length = A'.length) :
    (A.length, A.length) = last (A ++ S) (A' ++ S') ↔ S = [] ∧ S' = [] := by
  simp [last, h, Prod.ext_iff]

theorem ne_last_of_read {xs : List α} {ys : List β} {i : Nat × Nat} {t : α × β} (h : read xs ys i = some t) :
    i ≠ last xs ys := by
  intro hi
  have hlt := lt_of_read h
  rw [hi, last] at hlt
  omega

/-! ## One step -/

section Step

variable {p} {xs : List α} {ys : List β} {result first : Nat × Nat} {t : α × β}

theorem findIf_last : findIf p xs ys (last xs ys) = some (last xs ys) := by
  rw [findIf, if_pos rfl]

theorem findIf_none (h : first ≠ last xs ys) (hr : read xs ys first = none) : findIf p xs ys first = none := by
  rw [findIf, if_neg h]
  split
  · rfl
  · simp_all

theorem findIf_some (hr : read xs ys first = some t) :
    findIf p xs ys first = if p t then some first else findIf p xs ys (next first) := by
  rw [findIf, if_neg (ne_last_of_read hr)]
  split <;> simp_all

theorem removeLoop_last : removeLoop p xs ys result (last xs ys) = some ((xs, ys), result) := by
  rw [removeLoop, if_pos rfl]

theorem removeLoop_none (h : first ≠ last xs ys) (hr : read xs ys first = none) :
    removeLoop p xs ys result first = none := by
  rw [removeLoop, if_neg h]
  split
  · rfl
  · simp_all

theorem removeLoop_removed (hr : read xs ys first = some t) (hp : p t = true) :
    removeLoop p xs ys result first = removeLoop p xs ys result (next first) := by
  rw [removeLoop, if_neg (ne_last_of_read hr)]
  split <;> simp_all

theorem removeLoop_moved {l : List α × List β} (hr : read xs ys first = some t) (hp : p t = false)
    (hw : write xs ys result t = some l) :
    removeLoop p xs ys result first = removeLoop p l.1 l.2 (next result) (next first) := by
  rw [removeLoop, if_neg (ne_last_of_read hr)]
  split
  · simp_all
  · rename_i ht
    cases hr.symm.trans ht
    rw [if_neg (by simp [hp])]
    split <;> simp_all

end Step

/-! ## The lists cut -/

/-- What is kept joins `A`; what lies between it and the rest is of no use. -/
theorem removeLoop_cut (S : List α) (S' : List β) {A G : List α} {A' G' : List β} (hA : A.length = A'.length)
    (hG : G.length = G'.length) (hpos : 0 < G.length) :
    (removeLoop p (A ++ G ++ S) (A' ++ G' ++ S') (A.length, A.length) ((A ++ G).length, (A ++ G).length)).map cut =
      (kept p S S').map fun l => (A ++ l.1, A' ++ l.2) := by
  have hAG : (A ++ G).length = (A' ++ G').length := by simp [hA, hG]
  induction S generalizing S' A G A' G' with
  | nil =>
    cases S' with
    | nil =>
      rw [(last_append [] [] hAG).mpr ⟨rfl, rfl⟩, removeLoop_last]
      simp [kept, cut, hA]
    | cons y S' =>
      rw [removeLoop_none (fun h => nomatch ((last_append [] (y :: S') hAG).mp h).2) (read_append _ _ hAG)]
      rfl
  | cons x S ih =>
    cases S' with
    | nil =>
      rw [removeLoop_none (fun h => nomatch ((last_append (x :: S) [] hAG).mp h).1) (read_append _ _ hAG)]
      rfl
    | cons y S' =>
      have hr := read_append (x :: S) (y :: S') hAG
      cases hp : p (x, y) with
      | true =>
        have hG' : (G ++ [x]).length = (G' ++ [y]).length := by simp [hG]
        have h := ih S' hA hG' (by simp) (by simp [hA, hG])
        rw [removeLoop_removed hr hp, kept, if_pos hp, ← h]
        simp [next, Nat.add_assoc]
      | false =>
        -- the place written is the first of what is of no use
        obtain ⟨g, G, rfl⟩ := List.exists_cons_of_length_pos hpos
        obtain ⟨g', G', rfl⟩ := List.exists_cons_of_length_pos (hG ▸ hpos)
        have hA' : (A ++ [x]).length = (A' ++ [y]).length := by simp [hA]
        have hG' : (G ++ [x]).length = (G' ++ [y]).length := by simpa using hG
        have h := ih S' hA' hG' (by simp) (by simp_all)
        have hw : write (A ++ g :: G ++ x :: S) (A' ++ g' :: G' ++ y :: S') (A.length, A.length) (x, y) =
            some (A ++ x :: (G ++ x :: S), A' ++ y :: (G' ++ y :: S')) := by
          simp [write, hA]
        rw [removeLoop_moved hr hp hw, kept, if_neg (by simp [hp])]
        simp [next, Nat.add_assoc] at h ⊢
        rw [h]
        cases kept p S S' <;> simp

theorem removeIf_cut (S : List α) (S' : List β) {A : List α} {A' : List β} (hA : A.length = A'.length) :
    (removeIf p (A ++ S) (A' ++ S') (A.length, A.length)).map cut =
      (kept p S S').map fun l => (A ++ l.1, A' ++ l.2) := by
  induction S generalizing S' A A' with
  | nil =>
    cases S' with
    | nil =>
      rw [(last_append [] [] hA).mpr ⟨rfl, rfl⟩]
      simp [removeIf, findIf_last, kept, cut]
      simp [last]
    | cons y S' =>
      rw [removeIf, findIf_none (fun h => nomatch ((last_append [] (y :: S') hA).mp h).2) (read_append _ _ hA)]
      rfl
  | cons x S ih =>
    cases S' with
    | nil =>
      rw [removeIf, findIf_none (fun h => nomatch ((last_append (x :: S) [] hA).mp h).1) (read_append _ _ hA)]
      rfl
    | cons y S' =>
      have hr := read_append (x :: S) (y :: S') hA
      cases hp : p (x, y) with
      | true =>
        have h := removeLoop_cut p S S' (G := [x]) hA (show [x].length = [y].length from rfl) (by simp)
        rw [removeIf, findIf_some hr, if_pos hp, kept, if_pos hp, ← h]
        simp [ne_last_of_read hr, next]
      | false =>
        have hA' : (A ++ [x]).length = (A' ++ [y]).length := by simp [hA]
        have h := ih S' hA'
        rw [removeIf, findIf_some hr, if_neg (by simp [hp]), kept, if_neg (by simp [hp])]
        simp [removeIf, next] at h ⊢
        rw [h]
        cases kept p S S' <;> simp

theorem eraseIf_eq (xs : List α) (ys : List β) :
    eraseIf p xs ys = if xs.length = ys.length then some ((xs.zip ys).filter (!p ·)).unzip else none := by
  have h := removeIf_cut p xs ys (show ([] : List α).length = ([] : List β).length from rfl)
  rw [← kept_eq]
  simpa [eraseIf] using h

end ZipIter
