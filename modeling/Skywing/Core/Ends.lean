import Mathlib.Data.List.Basic

/-!
# How a computation that may stop ends

`x.Ends P E`: the computation `x` returns a value that meets `P` or stops
with an error that meets `E`. The rules follow the way a computation is put
together: a value, an error, a sequence (`Ends.bind`), a choice and a loop
over a list (`Ends.foldlM`, whose invariant may speak of what is left of the
list).
-/
namespace Except

universe u v

variable {ε : Type u} {α β : Type v} {P : α → Prop} {Q : β → Prop} {E : ε → Prop}

@[simp] theorem ok_bind (a : α) (f : α → Except ε β) : (Except.ok a >>= f) = f a := rfl

@[simp] theorem error_bind (e : ε) (f : α → Except ε β) : ((Except.error e : Except ε α) >>= f) = .error e := rfl

def Ends (x : Except ε α) (P : α → Prop) (E : ε → Prop) : Prop :=
  match x with
  | .ok a => P a
  | .error e => E e

namespace Ends

theorem pure {a : α} (h : P a) : (Pure.pure a : Except ε α).Ends P E := h

theorem ok {a : α} (h : P a) : (Except.ok a : Except ε α).Ends P E := h

theorem error {e : ε} (h : E e) : (Except.error e : Except ε α).Ends P E := h

theorem bind {x : Except ε α} {f : α → Except ε β} (hx : x.Ends P E) (hf : ∀ a, P a → (f a).Ends Q E) :
    (x >>= f).Ends Q E := by
  cases x with
  | ok a => exact hf a hx
  | error e => exact hx

theorem mono {P' : α → Prop} {E' : ε → Prop} {x : Except ε α} (h : x.Ends P E) (hP : ∀ a, P a → P' a)
    (hE : ∀ e, E e → E' e) : x.Ends P' E' := by
  cases x with
  | ok a => exact hP a h
  | error e => exact hE e h

theorem and {P' : α → Prop} {x : Except ε α} (h : x.Ends P E) (h' : x.Ends P' E) :
    x.Ends (fun a => P a ∧ P' a) E := by
  cases x with
  | ok a => exact ⟨h, h'⟩
  | error e => exact h

theorem any (x : Except ε α) : x.Ends (fun _ => True) fun _ => True := by
  cases x <;> trivial

theorem of_ok {x : Except ε α} {a : α} (h : x.Ends P E) (hx : x = .ok a) : P a := by
  subst hx; exact h

theorem of_error {x : Except ε α} {e : ε} (h : x.Ends P E) (hx : x = .error e) : E e := by
  subst hx; exact h

/-- The loop rule: `I` speaks of the elements that are left. -/
theorem foldlM {f : β → α → Except ε β} {I : List α → β → Prop} {l : List α} {b : β} (h0 : I l b)
    (hstep : ∀ a rest b, a ∈ l → I (a :: rest) b → (f b a).Ends (I rest) E) :
    (l.foldlM f b).Ends (I []) E := by
  induction l generalizing b with
  | nil => exact h0
  | cons a rest ih =>
    rw [List.foldlM_cons]
    refine bind (hstep a rest b List.mem_cons_self h0) fun b' hb' => ?_
    exact ih hb' fun a' rest' b'' ha' => hstep a' rest' b'' (List.mem_cons_of_mem _ ha')

end Ends

end Except
