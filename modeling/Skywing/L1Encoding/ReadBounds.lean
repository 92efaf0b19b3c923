import Skywing.Core.Verdict
import Skywing.L1Encoding.PubSubRoundTrip

/-!
# What is read when a value is converted back

`deconvert` of `skywing_mid/pubsub_converter.hpp` with the two ways in which
it can go wrong kept apart: `vals_vec[i]` and `*flat_iter` are read without a
look at the length (`Fault.overran`), `at(i)` throws (`Fault.refused`). The
arguments of `std::make_tuple` are evaluated in any order (`bothOf`).

Results:
* `entriesEach_tupleParts`: a flat tuple is cut into the parts it is made of.
* `toOption_deconvert`: what is returned is what `PubSub.deconvert` returns.
-/
namespace Skywing.PubSub

/-! ## The parts of a flat tuple -/

def tupleSplit : (ns : List Native) → {ms : List Native} → Ty.vals ((ns ++ ms).map Native.ty) →
    Ty.vals (ns.map Native.ty) × Ty.vals (ms.map Native.ty)
  | [], _, v => ((), v)
  | _ :: ns, _, v => ((v.1, (tupleSplit ns v.2).1), (tupleSplit ns v.2).2)

def PS.ofTuple : (p : PS) → Ty.vals (p.natives.map Native.ty) → p.ty.val
  | single _, v => v.1
  | tuple _, v => v

/-- Each component of the concatenation. -/
def tupleParts : (ps : List PS) → Ty.vals ((catNatives ps).map Native.ty) → Ty.vals (ps.map PS.ty)
  | [], _ => ()
  | p :: ps, v => (p.ofTuple (tupleSplit p.natives v).1, tupleParts ps (tupleSplit p.natives v).2)

theorem tupleEntries_split : ∀ (ns : List Native) {ms : List Native} (v : Ty.vals ((ns ++ ms).map Native.ty)),
    tupleEntries (ns ++ ms) v = tupleEntries ns (tupleSplit ns v).1 ++ tupleEntries ms (tupleSplit ns v).2
  | [], _, _ => rfl
  | _ :: ns, _, v => congrArg (_ :: ·) (tupleEntries_split ns v.2)

theorem entries_ofTuple (p : PS) (v : Ty.vals (p.natives.map Native.ty)) :
    p.entries (p.ofTuple v) = tupleEntries p.natives v := by
  cases p with
  | single n => rfl
  | tuple ns => rfl

theorem entriesEach_tupleParts : ∀ (ps : List PS) (v : Ty.vals ((catNatives ps).map Native.ty)),
    entriesEach ps (tupleParts ps v) = tupleEntries (catNatives ps) v
  | [], _ => rfl
  | p :: ps, v => by
    have h := @tupleEntries_split p.natives (catNatives ps) v
    rw [← entries_ofTuple, ← entriesEach_tupleParts ps] at h
    exact h.symm

/-- The offsets computed from the published types cut out the parts. -/
theorem deconvertImpl_entriesEach : {ts : List Ty} → {ps : List PS} → (pre : List PS) → (each : ConvList ts ps) →
    (v : Ty.vals (ps.map PS.ty)) → (front : List NativeVal) → front.length = sizeOfFirstN pre →
    deconvertImpl pre each (front ++ entriesEach ps v) = deconvertEach each v
  | _, _, _, .nil, _, _, _ => rfl
  | _, _, pre, @ConvList.cons _ p _ ps head tail, v, front, h => by
    let rest := entriesEach ps v.2
    have hl : (front ++ p.entries v.1).length = sizeOfFirstN (pre ++ [p]) := by
      simp [sizeOfFirstN, h]
    have hx : extractNthTuple pre p (front ++ p.entries v.1 ++ rest) = p.entries v.1 :=
      extractNthTuple_entries p v.1 h
    have ih := deconvertImpl_entriesEach (pre ++ [p]) tail v.2 (front ++ p.entries v.1) hl
    show ((removeTupleIfSingle p (extractNthTuple pre p (front ++ (p.entries v.1 ++ rest)))).bind fun arg =>
      (PubSub.deconvert head arg).bind fun x =>
        (deconvertImpl (pre ++ [p]) tail (front ++ (p.entries v.1 ++ rest))).bind fun xs => some (x, xs)) = _
    rw [← List.append_assoc, hx, removeTupleIfSingle_entries, ih]
    rfl

theorem deconvert_tuple {ts : List Ty} {ps : List PS} (each : ConvList ts ps)
    (tup : Ty.vals ((catNatives ps).map Native.ty)) :
    PubSub.deconvert (.tuple each) tup = deconvertEach each (tupleParts ps tup) := by
  have h := deconvertImpl_entriesEach [] each (tupleParts ps tup) [] rfl
  rw [entriesEach_tupleParts] at h
  exact h

/-! ## Reads that go wrong -/

namespace Bounds

/-- mirrors skywing/skywing_mid/pubsub_converter.hpp:211-212 -/
def assignAll {α β : Type} [DecidableEq α] : List α → List β → AList (fun _ : α => β) →
    Except Fault (AList fun _ : α => β)
  | [], _, m => .ok m
  | _ :: _, [], _ => .error .overran
  | k :: ks, v :: vs, m => assignAll ks vs (m.assign k v)

/-- mirrors skywing/skywing_mid/pubsub_converter.hpp:285-290 -/
def rows (ts : List Ty) (swapped : Ty.vals (ts.map Ty.vector)) (n : Nat) : Except Fault (List (Ty.vals ts)) :=
  (List.range n).mapM fun i => (rowAt ts swapped i).elim (.error .refused) .ok

mutual

/-- `PubSubConverter<t>::deconvert` -/
def deconvert : {t : Ty} → {p : PS} → Conv t p → p.ty.val → Except Fault t.val
  | _, _, .scalar _, v => .ok v
  | _, _, .vectorScalar _, v => .ok v
  | _, _, .bytes, v => .ok v
  | _, _, .user c, v => .ok (c.deconvert v)
  | _, _, @Conv.tuple _ ps each, tup => deconvertEach each (tupleParts ps tup)
  | _, _, .map (k := k) keys vals final, out => do
    let bf ← deconvert final out
    let keysVec ← deconvert keys bf.1
    let valsVec ← deconvert vals bf.2.1
    let _ := k.decEq
    assignAll keysVec valsVec ∅
  | _, q, @Conv.vectorTuple t ts _ _ each final, tup => do
    let bf ← deconvert final tup
    let swapped ← deconvertEach each bf
    match headSize q tup with
    | none => .error .refused
    | some n => rows (t :: ts) swapped n
  | _, _, .nested elem flat final, input => do
    let bf ← deconvert final input
    let flatVec ← deconvert flat bf.2.1
    Verdict.pieces (deconvert elem) (List.map UInt32.toNat bf.1) flatVec
  | _, _, .vectorUser elem final, input => do
    let bf ← deconvert final input
    List.mapM (deconvert elem) bf
  | _, _, .vectorMap elem final, input => do
    let bf ← deconvert final input
    List.mapM (deconvert elem) bf

/-- The arguments of `std::make_tuple`. -/
def deconvertEach : {ts : List Ty} → {ps : List PS} → ConvList ts ps → Ty.vals (ps.map PS.ty) →
    Except Fault (Ty.vals ts)
  | _, _, .nil, _ => .ok ()
  | _, _, .cons head tail, v => Verdict.bothOf (deconvert head v.1) (deconvertEach tail v.2)

end

/-! ## What is returned -/

section Option

variable {α β : Type}

theorem toOption_bind {x : Except Fault α} {f : α → Except Fault β} {o : Option α} {g : α → Option β}
    (hx : x.toOption = o) (hf : ∀ a, (f a).toOption = g a) : (x >>= f).toOption = o.bind g := by
  subst hx
  cases x with
  | ok a => exact hf a
  | error e => rfl

theorem toOption_both {x : Except Fault α} {y : Except Fault β} {o : Option α} {o' : Option β}
    (hx : x.toOption = o) (hy : y.toOption = o') :
    (Verdict.bothOf x y).toOption = o.bind fun a => o'.bind fun b => some (a, b) := by
  subst hx hy
  cases x with
  | ok a =>
    cases y with
    | ok b => rfl
    | error e => cases e <;> rfl
  | error e =>
    cases e
    · cases y with
      | ok b => rfl
      | error e => cases e <;> rfl
    · rfl

section Loops

variable {f : α → Except Fault β} {g : α → Option β}

theorem toOption_mapM (hf : ∀ x, (f x).toOption = g x) (l : List α) : (l.mapM f).toOption = l.mapM g := by
  induction l with
  | nil => rfl
  | cons x l ih =>
    rw [List.mapM_cons, List.mapM_cons]
    exact toOption_bind (hf x) fun y => toOption_bind ih fun ys => rfl

theorem toOption_piece (hf : ∀ x, (f x).toOption = g x) (n : Nat) (l : List α) :
    (Verdict.piece f n l).toOption = subvec g n l := by
  induction n generalizing l with
  | zero => rfl
  | succ n ih =>
    cases l with
    | nil => rfl
    | cons x l => exact toOption_bind (hf x) fun y => toOption_bind (ih l) fun r => rfl

theorem toOption_pieces (hf : ∀ x, (f x).toOption = g x) (sizes : List UInt32) (l : List α) :
    (Verdict.pieces f (sizes.map UInt32.toNat) l).toOption = unflatten g sizes l := by
  induction sizes generalizing l with
  | nil => rfl
  | cons n sizes ih => exact toOption_bind (toOption_piece hf n.toNat l) fun r => toOption_bind (ih r.2) fun rest => rfl

end Loops

theorem toOption_assignAll [DecidableEq α] : ∀ (ks : List α) (vs : List β) (m : AList fun _ : α => β),
    (assignAll ks vs m).toOption = PubSub.assignAll ks vs m
  | [], _, _ => rfl
  | _ :: _, [], _ => rfl
  | k :: ks, v :: vs, m => toOption_assignAll ks vs (m.assign k v)

theorem toOption_rows (ts : List Ty) (swapped : Ty.vals (ts.map Ty.vector)) (n : Nat) :
    (rows ts swapped n).toOption = (List.range n).mapM (rowAt ts swapped) := by
  refine toOption_mapM (fun i => ?_) _
  cases rowAt ts swapped i <;> rfl

end Option

mutual

/-- The value is that of `PubSub.deconvert`, which does not say how a
conversion goes wrong. -/
theorem toOption_deconvert : {t : Ty} → {p : PS} → (D : Conv t p) → (v : p.ty.val) →
    (deconvert D v).toOption = PubSub.deconvert D v
  | _, _, .scalar _, _ => rfl
  | _, _, .vectorScalar _, _ => rfl
  | _, _, .bytes, _ => rfl
  | _, _, .user _, _ => rfl
  | _, _, @Conv.tuple _ ps each, tup =>
    (toOption_deconvertEach each (tupleParts ps tup)).trans (deconvert_tuple each tup).symm
  | _, _, .map (k := k) keys vals final, out =>
    let _ := k.decEq
    toOption_bind (toOption_deconvert final out) fun bf => toOption_bind (toOption_deconvert keys bf.1) fun ks =>
      toOption_bind (toOption_deconvert vals bf.2.1) fun vs => toOption_assignAll ks vs ∅
  | _, q, @Conv.vectorTuple t ts _ _ each final, tup => by
    refine toOption_bind (toOption_deconvert final tup) fun bf =>
      toOption_bind (toOption_deconvertEach each bf) fun swapped => ?_
    cases headSize q tup with
    | none => rfl
    | some n => exact toOption_rows (t :: ts) swapped n
  | _, _, .nested elem flat final, input =>
    toOption_bind (toOption_deconvert final input) fun bf => toOption_bind (toOption_deconvert flat bf.2.1)
      fun flatVec => toOption_pieces (toOption_deconvert elem) bf.1 flatVec
  | _, _, .vectorUser elem final, input =>
    toOption_bind (toOption_deconvert final input) fun bf => toOption_mapM (toOption_deconvert elem) bf
  | _, _, .vectorMap elem final, input =>
    toOption_bind (toOption_deconvert final input) fun bf => toOption_mapM (toOption_deconvert elem) bf

theorem toOption_deconvertEach : {ts : List Ty} → {ps : List PS} → (Ds : ConvList ts ps) →
    (v : Ty.vals (ps.map PS.ty)) → (deconvertEach Ds v).toOption = PubSub.deconvertEach Ds v
  | _, _, .nil, _ => rfl
  | _, _, .cons head tail, v => toOption_both (toOption_deconvert head v.1) (toOption_deconvertEach tail v.2)

end

end Bounds

end Skywing.PubSub
