import Mathlib.Algebra.BigOperators.Group.List.Basic
import Mathlib.Algebra.Order.Ring.Nat
import Mathlib.Data.List.SplitLengths
import Skywing.Core.Ends

/-!
# What reading a list comes to

A computation that reads lists returns a value, is stopped by a checked access
or runs beyond the end of a list (`Fault`). A `Verdict` says which, and
whether a list that was read to an end of its own had elements left over; it
can be told from lengths alone. `Verdict.outcome` is the computation that
comes to a verdict, and the rules follow the way a computation is put
together: a sequence (`outcome_bind`), arguments that are evaluated in any
order (`outcome_both`), a loop over a list (`outcome_mapM`), and a list cut
into pieces whose sizes stand in another (`outcome_pieces`).
-/

/-- Why a computation stops. -/
inductive Fault
  | refused
  | overran
  deriving DecidableEq, Repr

inductive Verdict
  | fine
  /-- nothing was read that is not there, and not all was read -/
  | leftOver
  /-- a checked access stops it -/
  | short
  /-- it reads beyond an end -/
  | beyond
  deriving DecidableEq, Repr

namespace Verdict

universe u

variable {α β γ : Type u} {a b : Verdict}

/-! ## Verdicts -/

/-- `b` comes after `a`. -/
def andThen : Verdict → Verdict → Verdict
  | fine, b => b
  | leftOver, fine => leftOver
  | leftOver, b => b
  | short, _ => short
  | beyond, _ => beyond

/-- `a` and `b` in an order that is not specified: the worst that can happen. -/
def both : Verdict → Verdict → Verdict
  | beyond, _ => beyond
  | _, beyond => beyond
  | short, _ => short
  | _, short => short
  | leftOver, _ => leftOver
  | fine, b => b

/-- `read` elements of a list of `there`. -/
def ofSizes (read there : Nat) : Verdict :=
  if there < read then beyond else if read < there then leftOver else fine

/-- One after the other. -/
def all (g : α → Verdict) (l : List α) : Verdict := l.foldr (fun x r => (g x).andThen r) fine

@[simp] theorem fine_andThen (b : Verdict) : fine.andThen b = b := rfl

@[simp] theorem beyond_andThen (b : Verdict) : beyond.andThen b = beyond := rfl

@[simp] theorem andThen_fine (a : Verdict) : a.andThen fine = a := by
  cases a <;> rfl

theorem andThen_assoc (a b c : Verdict) : (a.andThen b).andThen c = a.andThen (b.andThen c) := by
  cases a <;> cases b <;> cases c <;> rfl

@[simp] theorem all_nil (g : α → Verdict) : all g [] = fine := rfl

@[simp] theorem all_cons (g : α → Verdict) (x : α) (l : List α) : all g (x :: l) = (g x).andThen (all g l) := rfl

theorem all_append (g : α → Verdict) (l l' : List α) : all g (l ++ l') = (all g l).andThen (all g l') := by
  induction l with
  | nil => rfl
  | cons x l ih => rw [List.cons_append, all_cons, all_cons, ih, andThen_assoc]

theorem ofSizes_add {n there : Nat} (k : Nat) (h : n ≤ there) : ofSizes (n + k) there = ofSizes k (there - n) := by
  unfold ofSizes
  split_ifs <;> first | rfl | omega

theorem andThen_eq_fine : a.andThen b = fine ↔ a = fine ∧ b = fine := by
  cases a <;> cases b <;> simp [andThen]

theorem both_eq_fine : a.both b = fine ↔ a = fine ∧ b = fine := by
  cases a <;> cases b <;> simp [both]

theorem all_eq_fine {g : α → Verdict} {l : List α} : all g l = fine ↔ ∀ x ∈ l, g x = fine := by
  induction l with
  | nil => simp
  | cons x l ih => simp [andThen_eq_fine, ih]

theorem ofSizes_eq_fine {n there : Nat} : ofSizes n there = fine ↔ n = there := by
  unfold ofSizes
  split_ifs <;> simp <;> omega

/-! ## Verdicts that keep all that was sent -/

/-- All was read, or a checked access stopped the computation. -/
def Clean (a : Verdict) : Prop := a = fine ∨ a = short

theorem Clean.andThen (ha : a.Clean) (hb : b.Clean) : (a.andThen b).Clean := by
  rcases ha with rfl | rfl
  · exact hb
  · exact .inr rfl

theorem Clean.both (ha : a.Clean) (hb : b.Clean) : (a.both b).Clean := by
  rcases ha with rfl | rfl <;> rcases hb with rfl | rfl
  · exact .inl rfl
  · exact .inr rfl
  · exact .inr rfl
  · exact .inr rfl

theorem clean_all {g : α → Verdict} {l : List α} (h : ∀ x ∈ l, (g x).Clean) : (all g l).Clean := by
  induction l with
  | nil => exact .inl rfl
  | cons x l ih => exact (h x List.mem_cons_self).andThen (ih fun y hy => h y (List.mem_cons_of_mem _ hy))

theorem clean_ofSizes {n there : Nat} (h : n = there) : (ofSizes n there).Clean := .inl (ofSizes_eq_fine.mpr h)

/-! ## Computations -/

def outcome (x : β) : Verdict → Except Fault β
  | fine => .ok x
  | leftOver => .ok x
  | short => .error .refused
  | beyond => .error .overran

theorem outcome_bind {x : β} {z : γ} {f : β → Except Fault γ} (h : f x = b.outcome z) :
    (a.outcome x >>= f) = (a.andThen b).outcome z := by
  cases a with
  | fine => exact h
  | leftOver => exact h.trans (by cases b <;> rfl)
  | short => rfl
  | beyond => rfl

theorem outcome_map {x : β} (k : β → γ) : (a.outcome x >>= fun y => pure (k y)) = a.outcome (k x) := by
  cases a <;> rfl

theorem outcome_ne_overran {x : β} : a.outcome x ≠ .error .overran ↔ a ≠ beyond := by
  cases a <;> simp [outcome]

/-- Two arguments of a call. -/
def bothOf (x : Except Fault β) (y : Except Fault γ) : Except Fault (β × γ) :=
  match x, y with
  | .ok x, .ok y => .ok (x, y)
  | .error .overran, _ => .error .overran
  | _, .error .overran => .error .overran
  | _, _ => .error .refused

theorem outcome_both (x : β) (y : γ) : bothOf (a.outcome x) (b.outcome y) = (a.both b).outcome (x, y) := by
  cases a <;> cases b <;> rfl

theorem outcome_mapM {f : α → Except Fault β} {g : α → Verdict} {h : α → β} (hf : ∀ x, f x = (g x).outcome (h x))
    (l : List α) : l.mapM f = (all g l).outcome (l.map h) := by
  induction l with
  | nil => rfl
  | cons x l ih =>
    rw [List.mapM_cons, hf, ih]
    exact outcome_bind (outcome_map _)

/-! ## A list cut into pieces -/

variable (f : α → Except Fault β)

/-- The next `n` elements, each taken through `f`, and the rest. -/
def piece : Nat → List α → Except Fault (List β × List α)
  | 0, l => .ok ([], l)
  | _ + 1, [] => .error .overran
  | n + 1, x :: l => do
    let y ← f x
    let r ← piece n l
    return (y :: r.1, r.2)

def pieces : List Nat → List α → Except Fault (List (List β))
  | [], _ => .ok []
  | n :: sizes, l => do
    let r ← piece f n l
    let rest ← pieces sizes r.2
    return r.1 :: rest

variable {f} {g : α → Verdict} {h : α → β}

theorem outcome_piece (hf : ∀ x, f x = (g x).outcome (h x)) (n : Nat) (l : List α) :
    piece f n l = ((all g (l.take n)).andThen (if l.length < n then beyond else fine)).outcome
      ((l.take n).map h, l.drop n) := by
  induction n generalizing l with
  | zero => rfl
  | succ n ih =>
    cases l with
    | nil => rfl
    | cons x l =>
      rw [piece, hf, ih]
      simp only [List.take_succ_cons, List.drop_succ_cons, List.map_cons, List.length_cons, all_cons,
        Nat.add_lt_add_iff_right, andThen_assoc]
      exact outcome_bind (outcome_map _)

theorem outcome_pieces (hf : ∀ x, f x = (g x).outcome (h x)) (sizes : List Nat) (l : List α) :
    pieces f sizes l =
      ((all g (l.take sizes.sum)).andThen (ofSizes sizes.sum l.length)).outcome (sizes.splitLengths (l.map h)) := by
  induction sizes generalizing l with
  | nil =>
    rw [pieces, List.sum_nil, List.take_zero, all_nil, fine_andThen]
    cases l <;> rfl
  | cons n sizes ih =>
    have hs : (n :: sizes).splitLengths (l.map h) =
        (l.take n).map h :: sizes.splitLengths ((l.drop n).map h) := by
      rw [List.splitLengths, List.splitAt_eq, List.map_take, List.map_drop]
    have hrest : (do
        let rest ← pieces f sizes (l.drop n)
        return (l.take n).map h :: rest) =
        ((all g ((l.drop n).take sizes.sum)).andThen (ofSizes sizes.sum (l.drop n).length)).outcome
          ((l.take n).map h :: sizes.splitLengths ((l.drop n).map h)) := by
      rw [ih]
      exact outcome_map _
    rw [pieces, outcome_piece hf, hs, List.sum_cons]
    refine (outcome_bind
      (f := fun r : List β × List α => pieces f sizes r.2 >>= fun rest => pure (r.1 :: rest)) hrest).trans ?_
    congr 1
    by_cases hn : l.length < n
    · have ht : l.take (n + sizes.sum) = l.take n := by
        rw [List.take_of_length_le (by omega), List.take_of_length_le (by omega)]
      rw [if_pos hn, ht, andThen_assoc, beyond_andThen, ofSizes, if_pos (by omega)]
    · rw [if_neg hn, andThen_fine, List.take_add, all_append, andThen_assoc, List.length_drop,
        ofSizes_add sizes.sum (by omega)]

end Verdict
