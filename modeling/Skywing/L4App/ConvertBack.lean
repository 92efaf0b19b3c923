import Skywing.L1Encoding.PubSubLanguage
import Skywing.L1Encoding.ReceivedSizes
import Skywing.L4App.AssociativeVector

/-!
# Received data that are converted back

`IterativeMethod::gather_values` (`skywing_mid/iterative_method.hpp`) converts
back what a neighbour published. The network layer has checked the types; the
lengths are whatever was sent. An `AssociativeVector` is published as its
default value and its map.

Results:
* `convertBack_iff`: the received values that are converted back safely.
* `not_convertBack`: one size and no element.
-/
namespace Skywing.L4

open PubSub

/-! ## Associative vectors -/

/-- `PubSubConverter<AssociativeVector<index_t, val_t, isOpen>>`.
mirrors skywing/skywing_mid/associative_vector.hpp:216-239 -/
structure AssociativeConverter (index val : Ty) (q : PS) where
  {value data : PS}
  defaultValue : Conv val value
  map : Conv (.map index val) data
  final : Conv (.tuple [value.ty, data.ty]) q

namespace AssociativeConverter

variable {index val : Ty} {q : PS} {isOpen : Bool} (c : AssociativeConverter index val q)

/-- mirrors skywing/skywing_mid/associative_vector.hpp:232-238 -/
def deconvert (psInput : q.ty.val) : Except Fault (AssociativeVector index.val val.val isOpen) := do
  let bf ← Bounds.deconvert c.final psInput
  let defaultValue ← Bounds.deconvert c.defaultValue bf.1
  let data ← Bounds.deconvert c.map bf.2.1
  return ⟨defaultValue, data⟩

/-- As far as there is one. -/
def glance (psInput : q.ty.val) : AssociativeVector index.val val.val isOpen :=
  let bf := Bounds.glance c.final psInput
  ⟨Bounds.glance c.defaultValue bf.1, Bounds.glance c.map bf.2.1⟩

def verdict (psInput : q.ty.val) : Verdict :=
  let bf := Bounds.glance c.final psInput
  (Bounds.verdict c.final psInput).andThen ((Bounds.verdict c.defaultValue bf.1).andThen
    (Bounds.verdict c.map bf.2.1))

/-- The sizes in the default value and those in the map match. -/
def Consistent (psInput : q.ty.val) : Prop :=
  let bf := Bounds.glance c.final psInput
  Bounds.Consistent c.defaultValue bf.1 ∧ Bounds.Consistent c.map bf.2.1

theorem deconvert_eq (psInput : q.ty.val) :
    (c.deconvert psInput : Except Fault (AssociativeVector index.val val.val isOpen)) =
      (c.verdict psInput).outcome (c.glance psInput) := by
  let bf := Bounds.glance c.final psInput
  refine Bounds.bind_outcome (Bounds.deconvert_eq c.final psInput) ?_
  refine Bounds.bind_outcome (Bounds.deconvert_eq c.defaultValue bf.1) ?_
  rw [Bounds.deconvert_eq c.map bf.2.1]
  exact Verdict.outcome_map _

theorem clean_of_consistent (psInput : q.ty.val) (h : c.Consistent psInput) : (c.verdict psInput).Clean := by
  have hfinal : Bounds.verdict c.final psInput = .fine := Bounds.verdict_tuple_ps [c.value, c.data] c.final psInput
  have hdefault := Bounds.clean_of_consistent c.defaultValue _ h.1
  have hmap := Bounds.clean_of_consistent c.map _ h.2
  exact Verdict.Clean.andThen (.inl hfinal) (hdefault.andThen hmap)

end AssociativeConverter

/-! ## What is safe -/

namespace ConvertBack

open Bounds

/-- **A received value is converted back safely exactly where its sizes are
consistent or a checked access stops the conversion first**: then nothing is
read beyond an end, and what does not match is refused. -/
theorem convertBack_iff {t : Ty} {p : PS} (D : Conv t p) (v : p.ty.val) {index val : Ty} {q : PS}
    (c : AssociativeConverter index val q) (isOpen : Bool) (w : q.ty.val) :
    (Guarded (Bounds.deconvert D v) (Consistent D v) ↔ Consistent D v ∨ verdict D v = .short) ∧
    (Guarded (c.deconvert w : Except Fault (AssociativeVector index.val val.val isOpen)) (c.Consistent w) ↔
      c.Consistent w ∨ c.verdict w = .short) := by
  refine ⟨guarded_deconvert_iff D v, ?_⟩
  rw [c.deconvert_eq]
  exact guarded_iff (c.clean_of_consistent w)

/-- One size and no element: the flat vector is read beyond its end. -/
theorem not_convertBack : ¬ ∀ {t : Ty} {p : PS} (D : Conv t p) (v : p.ty.val),
    Guarded (Bounds.deconvert D v) (Consistent D v) := by
  intro h
  have hread : Bounds.deconvert (nestedOnce .uint8) ([(1 : UInt32)], ([] : List UInt8), ()) = .error .overran := rfl
  exact (h (nestedOnce .uint8) ([(1 : UInt32)], ([] : List UInt8), ())).1 hread

end ConvertBack

end Skywing.L4
