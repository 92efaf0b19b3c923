import Skywing.L1Encoding.PublishValue
import Skywing.L1Encoding.PubSubRoundTrip

/-!
# Components of a published tuple

`std::get` of a tuple and of a concatenation, what becomes of one component
when a tuple is converted, and how the converted tuple is carried:
`Job::publish_tuple` (`skywing_core/job.hpp`) makes a variant of each of its
elements, `make_value` (`skywing_core/internal/tag_buffer.hpp`) takes them out
again.

Results:
* `get_catVals_left`, `get_catVals_right`: a concatenation has the components
  of its parts.
* `get_of_deconvert`: whatever comes back of a tuple, each component is what
  its own converter makes of that component, whatever the others are.
* `makeValue_publishTuple`: the tuple is carried unchanged.
-/
namespace Skywing.PubSub

/-! ## Components -/

/-- `std::get<i>`; `t` is `std::tuple_element_t<i, std::tuple<ts...>>`. -/
def get : (ts : List Ty) → Ty.vals ts → (i : Nat) → {t : Ty} → ts[i]? = some t → t.val
  | [], _, _, _, h => nomatch h
  | _ :: _, v, 0, _, h => Option.some.inj h ▸ v.1
  | _ :: ts, v, i + 1, _, h => get ts v.2 i h

/-- `std::tuple_cat` of two tuples. -/
def catVals : (ts : List Ty) → {us : List Ty} → Ty.vals ts → Ty.vals us → Ty.vals (ts ++ us)
  | [], _, _, w => w
  | _ :: ts, _, v, w => (v.1, catVals ts v.2 w)

theorem get_catVals_left : ∀ (ts : List Ty) {us : List Ty} (v : Ty.vals ts) (w : Ty.vals us) (i : Nat) {t : Ty}
    (h : (ts ++ us)[i]? = some t) (h' : ts[i]? = some t), get (ts ++ us) (catVals ts v w) i h = get ts v i h'
  | [], _, _, _, _, _, _, h' => nomatch h'
  | _ :: _, _, _, _, 0, _, _, _ => rfl
  | _ :: ts, _, v, w, i + 1, _, h, h' => get_catVals_left ts v.2 w i h h'

theorem get_catVals_right : ∀ (ts : List Ty) {us : List Ty} (v : Ty.vals ts) (w : Ty.vals us) {i j : Nat} {t : Ty}
    (_ : j = ts.length + i) (h : (ts ++ us)[j]? = some t) (h' : us[i]? = some t),
    get (ts ++ us) (catVals ts v w) j h = get us w i h'
  | [], us, _, w, i, j, t, hj, h, h' => by
    obtain rfl : j = i := hj.trans (Nat.zero_add i)
    rfl
  | _ :: ts, us, v, w, i, j, t, hj, h, h' => by
    obtain rfl : j = ts.length + i + 1 := hj.trans (Nat.add_right_comm ts.length 1 i)
    exact get_catVals_right ts v.2 w rfl h h'

/-! ## Conversion of one component -/

/-- The converter of the component. -/
def converterAt : {ts : List Ty} → {ps : List PS} → ConvList ts ps → (i : Nat) → {t : Ty} → ts[i]? = some t →
    Σ p : PS, Conv t p
  | _, _, .nil, _, _, h => nomatch h
  | _, _, .cons (p := p) head _, 0, _, h => ⟨p, Option.some.inj h ▸ head⟩
  | _, _, .cons _ tail, i + 1, _, h => converterAt tail i h

/-- What a converter makes of a value. -/
def sentThrough {t : Ty} (D : Σ p : PS, Conv t p) (v : t.val) : Option t.val := deconvert D.2 (convert D.2 v)

theorem get_of_deconvertImpl : ∀ {ts : List Ty} {ps : List PS} (pre : List PS) (Ds : ConvList ts ps)
    (v w : Ty.vals ts) (front back : List NativeVal), front.length = sizeOfFirstN pre →
    deconvertImpl pre Ds (front ++ entriesEach ps (convertEach Ds v) ++ back) = some w →
    ∀ (i : Nat) {t : Ty} (h : ts[i]? = some t), sentThrough (converterAt Ds i h) (get ts v i h) = some (get ts w i h)
  | _, _, _, .nil, _, _, _, _, _, _, _, _, h => nomatch h
  | _, _, pre, @ConvList.cons t' p ts ps head tail, v, w, front, back, hf, hw, i, t, h => by
    let es := p.entries (convert head v.1)
    let rest := entriesEach ps (convertEach tail v.2)
    have hl : (front ++ es).length = sizeOfFirstN (pre ++ [p]) := length_append_entries p _ hf
    have hw' : deconvertImpl pre (.cons head tail) (front ++ (es ++ rest) ++ back) = some w := hw
    rw [deconvertImpl_cons head tail _ rest back hf] at hw'
    obtain ⟨x, hhead, hrest⟩ := Option.bind_eq_some_iff.mp hw'
    obtain ⟨xs, htail, hpair⟩ := Option.bind_eq_some_iff.mp hrest
    obtain rfl : (x, xs) = w := Option.some.inj hpair
    cases i with
    | zero =>
      cases h
      exact hhead
    | succ i => exact get_of_deconvertImpl (pre ++ [p]) tail v.2 xs (front ++ es) back hl htail i h

/-- **A component does not depend on the others.** -/
theorem get_of_deconvert {ts : List Ty} {ps : List PS} (each : ConvList ts ps) {v w : Ty.vals ts}
    (hw : deconvert (.tuple each) (convert (.tuple each) v) = some w) {i : Nat} {t : Ty} (h : ts[i]? = some t) :
    sentThrough (converterAt each i h) (get ts v i h) = some (get ts w i h) := by
  refine get_of_deconvertImpl [] each v w [] [] rfl ?_ i h
  rw [List.append_nil, List.nil_append, ← tupleEntries_tupleCat]
  exact hw

/-! ## Carrying the tuple -/

open L1.Published

/-- mirrors skywing/skywing_core/job.hpp:301-325 -/
def publishTuple : (ns : List Native) → Ty.vals (ns.map Native.ty) → List PublishValueVariant
  | [], _ => []
  | n :: ns, v => toVariant n (cast n.val_ty v.1) :: publishTuple ns v.2

/-- `std::get_if`; reading through the null pointer is `none`. -/
def getIf (t : Native) (variant : PublishValueVariant) : Option t.val :=
  if h : publishValueTypeList.get variant.1 = t then some (cast (congrArg Native.val h) variant.2) else none

/-- The assertions are that there are as many variants as types and that
`get_if` finds each.
mirrors skywing/skywing_core/internal/tag_buffer.hpp:16-51 -/
def makeValue : (ns : List Native) → List PublishValueVariant → Option (Ty.vals (ns.map Native.ty))
  | [], [] => some ()
  | n :: ns, variant :: value => do
    let x ← getIf n variant
    let xs ← makeValue ns value
    some (cast n.val_ty.symm x, xs)
  | _, _ => none

theorem getIf_toVariant (t : Native) (v : t.val) : getIf t (toVariant t v) = some v := by
  unfold getIf
  rw [dif_pos (show publishValueTypeList.get (toVariant t v).1 = t from get_indexOf t)]
  exact congrArg some (cast_cast _ _ v)

theorem makeValue_publishTuple : ∀ (ns : List Native) (v : Ty.vals (ns.map Native.ty)),
    makeValue ns (publishTuple ns v) = some v
  | [], _ => rfl
  | n :: ns, v => by
    have hx : cast n.val_ty.symm (cast n.val_ty v.1) = v.1 := cast_cast _ _ v.1
    show ((getIf n (toVariant n (cast n.val_ty v.1))).bind fun x =>
      (makeValue ns (publishTuple ns v.2)).bind fun xs => some (cast n.val_ty.symm x, xs)) = some v
    rw [getIf_toVariant, Option.bind_some, makeValue_publishTuple ns v.2, Option.bind_some, hx]
    rfl

/-- The alternatives published are the types of the tag. -/
theorem publishTuple_types : ∀ (ns : List Native) (v : Ty.vals (ns.map Native.ty)),
    (publishTuple ns v).map (fun variant => publishValueTypeList.get variant.1) = ns
  | [], _ => rfl
  | n :: ns, v => congrArg₂ List.cons (get_indexOf n) (publishTuple_types ns v.2)

end Skywing.PubSub
