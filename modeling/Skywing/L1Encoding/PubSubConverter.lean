import Skywing.Core.Maps
import Skywing.Core.Types

/-!
# Conversion to publishable types (`skywing_mid/pubsub_converter.hpp`)

`PubSubConverter<T>` turns a value of a user's type into one native value or
one flat tuple of native values, and back. It is a family of template
specialisations that call each other: a tuple is flattened and cut again at
computed offsets, a map becomes two parallel vectors, a vector of tuples is
transposed, a vector of vectors is flattened beside a vector of 32-bit sizes.

A type expression is a `Ty`, a published type a `PS`. `Conv t p` is the tree
of instantiations the compiler builds for `PubSubConverter<t>` with
`pubsub_type = p`: one constructor for each specialisation, its premises the
converters that specialisation uses. `convert` and `deconvert` recurse over
the tree. Reads that are undefined in C++ (past the end of a vector) or that
throw (`at`) are `none`.

An `std::unordered_map` is its entries in the order in which the code
iterates over it, so what holds of every map holds of every iteration order.
A rebuilt map lists its entries as they were assigned; equal lists of entries
are equal maps.
-/
namespace Skywing.PubSub

/-! ## Published types -/

/-- A `pubsub_type`: one native type or a flat tuple of them. -/
inductive PS
  | single (n : Native)
  | tuple (ns : List Native)

/-- `TupleIfNotAlready<PS>::tuple_type`.
mirrors skywing/skywing_mid/internal/iterative_helpers.hpp:32-45 -/
def PS.natives : PS → List Native
  | single n => [n]
  | tuple ns => ns

/-! ## Types and their values -/

/-- The type language: native types, user types, `std::tuple`,
`std::unordered_map` and `std::vector`. -/
inductive Ty : Type 1
  | scalar (s : Scalar)
  | bytes
  | user (α : Type) (dec : DecidableEq α)
  | tuple (ts : List Ty)
  | map (k v : Ty)
  | vector (t : Ty)

mutual

def Ty.val : Ty → Type
  | .scalar s => s.val
  | .bytes => List UInt8
  | .user α _ => α
  | .tuple ts => Ty.vals ts
  | .map k v => AList fun _ : k.val => v.val
  | .vector t => List t.val

def Ty.vals : List Ty → Type
  | [] => Unit
  | t :: ts => t.val × Ty.vals ts

end

mutual

/-- `operator==`, for the keys of a map. -/
def Ty.decEq : (t : Ty) → DecidableEq t.val
  | .scalar s => s.decEq
  | .bytes => inferInstanceAs (DecidableEq (List UInt8))
  | .user _ dec => dec
  | .tuple ts => Ty.decEqs ts
  | .map k v =>
    let _ := k.decEq
    let _ := v.decEq
    fun m m' => decidable_of_iff (m.entries = m'.entries) AList.ext_iff.symm
  | .vector t =>
    let _ := t.decEq
    inferInstanceAs (DecidableEq (List t.val))

def Ty.decEqs : (ts : List Ty) → DecidableEq (Ty.vals ts)
  | [] => inferInstanceAs (DecidableEq Unit)
  | t :: ts =>
    let _ := t.decEq
    let _ := Ty.decEqs ts
    inferInstanceAs (DecidableEq (t.val × Ty.vals ts))

end

end Skywing.PubSub

namespace Skywing

def Native.ty : Native → PubSub.Ty
  | scalar s => .scalar s
  | vec s => .vector (.scalar s)
  | bytes => .bytes

theorem Native.val_ty (n : Native) : n.ty.val = n.val := by cases n <;> rfl

end Skywing

namespace Skywing.PubSub

def PS.ty : PS → Ty
  | single n => n.ty
  | tuple ns => .tuple (ns.map Native.ty)

/-- A native value with its type. -/
abbrev NativeVal := Σ n : Native, n.ty.val

/-- A user's specialisation, faithful: it takes back what it gives. -/
structure UserConverter (α : Type) where
  pubsub : PS
  convert : α → pubsub.ty.val
  deconvert : pubsub.ty.val → α
  deconvert_convert : ∀ a, deconvert (convert a) = a

/-! ## Tuples

`tupleEntries` reads a flat tuple as the list of its components, so that the
index arithmetic of the source is list arithmetic. -/

/-- `std::get<0>`, `std::get<1>`, … of a flat tuple. -/
def tupleEntries : (ns : List Native) → Ty.vals (ns.map Native.ty) → List NativeVal
  | [], _ => []
  | n :: ns, v => ⟨n, v.1⟩ :: tupleEntries ns v.2

/-- `TupleIfNotAlready<PS>::to_tuple`.
mirrors skywing/skywing_mid/internal/iterative_helpers.hpp:32-45 -/
def PS.entries : (p : PS) → p.ty.val → List NativeVal
  | single n, v => [⟨n, v⟩]
  | tuple ns, v => tupleEntries ns v

/-- The native types of the concatenation. -/
def catNatives : List PS → List Native
  | [] => []
  | p :: ps => p.natives ++ catNatives ps

def tupleAppend : (ns : List Native) → {ms : List Native} → Ty.vals (ns.map Native.ty) →
    Ty.vals (ms.map Native.ty) → Ty.vals ((ns ++ ms).map Native.ty)
  | [], _, _, w => w
  | _ :: ns, _, v, w => (v.1, tupleAppend ns v.2 w)

def PS.toTuple : (p : PS) → p.ty.val → Ty.vals (p.natives.map Native.ty)
  | single _, v => (v, ())
  | tuple _, v => v

/-- `std::tuple_cat` of the converted components, each made a tuple first.
mirrors skywing/skywing_mid/internal/pubsub_converter_helpers.hpp:91-96 -/
def tupleCat : (ps : List PS) → Ty.vals (ps.map PS.ty) → Ty.vals ((catNatives ps).map Native.ty)
  | [], _ => ()
  | p :: ps, v => tupleAppend p.natives (p.toTuple v.1) (tupleCat ps v.2)

/-- mirrors skywing/skywing_mid/internal/pubsub_converter_helpers.hpp:53-60 -/
def sizeOfConverted (p : PS) : Nat := p.natives.length

/-- mirrors skywing/skywing_mid/internal/pubsub_converter_helpers.hpp:70-80 -/
def sizeOfFirstN (ps : List PS) : Nat := (ps.map sizeOfConverted).sum

/-- The components of the `N`th original element, `pre` being the published
types of the elements before it.
mirrors skywing/skywing_mid/internal/pubsub_converter_helpers.hpp:101-143 -/
def extractNthTuple (pre : List PS) (p : PS) (tup : List NativeVal) : List NativeVal :=
  (tup.drop (sizeOfFirstN pre)).take (sizeOfConverted p)

/-- The cut components as a tuple of the types they have in C++. -/
def tupleOf : (ns : List Native) → List NativeVal → Option (Ty.vals (ns.map Native.ty))
  | [], [] => some ()
  | n :: ns, e :: es =>
    if h : e.1 = n then (tupleOf ns es).map fun vs => (h ▸ e.2, vs) else none
  | _, _ => none

/-- mirrors skywing/skywing_mid/internal/pubsub_converter_helpers.hpp:157-162;
where the converter takes a tuple of one element, the element taken out is
made a tuple again in the call. -/
def removeTupleIfSingle : (p : PS) → List NativeVal → Option p.ty.val
  | .single n, es => (tupleOf [n] es).map Prod.fst
  | .tuple ns, es => tupleOf ns es

/-- `.size()` of a native value. -/
def NativeVal.size? : NativeVal → Option Nat
  | ⟨.vec s, xs⟩ => some (List.length (α := s.val) xs)
  | ⟨.bytes, xs⟩ => some (List.length (α := UInt8) xs)
  | ⟨.scalar .string, xs⟩ => some (List.length (α := Char) xs)
  | _ => none

/-- `std::get<0>(tup).size()` -/
def headSize (p : PS) (v : p.ty.val) : Option Nat := (p.entries v).head?.bind NativeVal.size?

/-! ## Loops over vectors -/

/-- The vectors of the elements of a vector of tuples.
mirrors skywing/skywing_mid/pubsub_converter.hpp:244-250 -/
def columns : (ts : List Ty) → List (Ty.vals ts) → Ty.vals (ts.map Ty.vector)
  | [], _ => ()
  | _ :: ts, rows => (rows.map Prod.fst, columns ts (rows.map Prod.snd))

/-- `std::make_tuple(std::get<I>(swapped_to_ret).at(i)...)` -/
def rowAt : (ts : List Ty) → Ty.vals (ts.map Ty.vector) → Nat → Option (Ty.vals ts)
  | [], _, _ => some ()
  | t :: ts, cols, i => do
    let column : List t.val := cols.1
    let x ← column[i]?
    let xs ← rowAt ts cols.2 i
    some (x, xs)

section Loops

variable {α β : Type} (f : α → Option β)

/-- One sub-vector read off the flat vector.
mirrors skywing/skywing_mid/pubsub_converter.hpp:344-350 -/
def subvec : Nat → List α → Option (List β × List α)
  | 0, flat => some ([], flat)
  | _ + 1, [] => none
  | j + 1, a :: flat => do
    let b ← f a
    let r ← subvec j flat
    some (b :: r.1, r.2)

/-- mirrors skywing/skywing_mid/pubsub_converter.hpp:340-352 -/
def unflatten : List UInt32 → List α → Option (List (List β))
  | [], _ => some []
  | i :: sizes, flat => do
    let r ← subvec f i.toNat flat
    let rest ← unflatten sizes r.2
    some (r.1 :: rest)

/-- `map_to_ret[keys_vec[i]] = vals_vec[i]` for every key.
mirrors skywing/skywing_mid/pubsub_converter.hpp:210-213 -/
def assignAll [DecidableEq α] : List α → List β → AList (fun _ : α => β) → Option (AList fun _ : α => β)
  | [], _, m => some m
  | _ :: _, [], _ => none
  | k :: ks, v :: vs, m => assignAll ks vs (m.assign k v)

end Loops

/-! ## Specialisations -/

mutual

/-- `PubSubConverter<t>` with `pubsub_type = p`. -/
inductive Conv : Ty → PS → Type 1
  /-- mirrors skywing/skywing_mid/pubsub_converter.hpp:24-52 -/
  | scalar (s : Scalar) : Conv (.scalar s) (.single (.scalar s))
  | vectorScalar (s : Scalar) : Conv (.vector (.scalar s)) (.single (.vec s))
  | bytes : Conv .bytes (.single .bytes)
  | user {α : Type} {dec : DecidableEq α} (c : UserConverter α) : Conv (.user α dec) c.pubsub
  /-- mirrors skywing/skywing_mid/pubsub_converter.hpp:84-170 -/
  | tuple {ts : List Ty} {ps : List PS} (each : ConvList ts ps) : Conv (.tuple ts) (.tuple (catNatives ps))
  /-- mirrors skywing/skywing_mid/pubsub_converter.hpp:178-216 -/
  | map {k v : Ty} {pk pv q : PS} (keys : Conv (.vector k) pk) (vals : Conv (.vector v) pv)
      (final : Conv (.tuple [pk.ty, pv.ty]) q) : Conv (.map k v) q
  /-- `deconvert` reads `std::get<0>`: there is a first component.
  mirrors skywing/skywing_mid/pubsub_converter.hpp:222-302 -/
  | vectorTuple {t : Ty} {ts : List Ty} {ps : List PS} {q : PS}
      (each : ConvList (.vector t :: ts.map Ty.vector) ps)
      (final : Conv (.tuple (ps.map PS.ty)) q) : Conv (.vector (.tuple (t :: ts))) q
  /-- mirrors skywing/skywing_mid/pubsub_converter.hpp:310-354 -/
  | nested {t : Ty} {p pv q : PS} (elem : Conv t p) (flat : Conv (.vector p.ty) pv)
      (final : Conv (.tuple [.vector (.scalar .uint32), pv.ty]) q) : Conv (.vector (.vector t)) q
  /-- `IsNativeToSkywing_v<std::vector<T>>` fails for user types and maps.
  mirrors skywing/skywing_mid/pubsub_converter.hpp:359-386 -/
  | vectorUser {α : Type} {dec : DecidableEq α} {p q : PS} (elem : Conv (.user α dec) p)
      (final : Conv (.vector p.ty) q) : Conv (.vector (.user α dec)) q
  | vectorMap {k v : Ty} {p q : PS} (elem : Conv (.map k v) p)
      (final : Conv (.vector p.ty) q) : Conv (.vector (.map k v)) q

inductive ConvList : List Ty → List PS → Type 1
  | nil : ConvList [] []
  | cons {t : Ty} {p : PS} {ts : List Ty} {ps : List PS} (head : Conv t p) (tail : ConvList ts ps) :
      ConvList (t :: ts) (p :: ps)

end

mutual

/-- `PubSubConverter<t>::convert` -/
def convert : {t : Ty} → {p : PS} → Conv t p → t.val → p.ty.val
  | _, _, .scalar _, v => v
  | _, _, .vectorScalar _, v => v
  | _, _, .bytes, v => v
  | _, _, .user c, v => c.convert v
  | _, _, .tuple each, v => tupleCat _ (convertEach each v)
  | _, _, .map keys vals final, (m : AList _) =>
    convert final (convert keys (m.entries.map Sigma.fst), convert vals (m.entries.map Sigma.snd), ())
  | _, _, @Conv.vectorTuple t ts _ _ each final, rows =>
    convert final (convertEach each (columns (t :: ts) rows))
  | _, _, .nested (t := t) elem flat final, (v : List (List t.val)) =>
    convert final (v.map fun inner => UInt32.ofNat inner.length,
      convert flat (v.flatMap fun inner => inner.map (convert elem)), ())
  | _, _, .vectorUser elem final, v => convert final (v.map (convert elem))
  | _, _, .vectorMap (k := k) (v := w) elem final, (v : List (Ty.map k w).val) =>
    convert final (v.map (convert elem))

def convertEach : {ts : List Ty} → {ps : List PS} → ConvList ts ps → Ty.vals ts → Ty.vals (ps.map PS.ty)
  | _, _, .nil, _ => ()
  | _, _, .cons head tail, v => (convert head v.1, convertEach tail v.2)

end

mutual

/-- `PubSubConverter<t>::deconvert` -/
def deconvert : {t : Ty} → {p : PS} → Conv t p → p.ty.val → Option t.val
  | _, _, .scalar _, v => some v
  | _, _, .vectorScalar _, v => some v
  | _, _, .bytes, v => some v
  | _, _, .user c, v => some (c.deconvert v)
  | _, _, @Conv.tuple _ ps each, tup => deconvertImpl [] each (tupleEntries (catNatives ps) tup)
  | _, _, .map (k := k) keys vals final, out => do
    let bf ← deconvert final out
    let keysVec ← deconvert keys bf.1
    let valsVec ← deconvert vals bf.2.1
    let _ := k.decEq
    assignAll keysVec valsVec ∅
  | _, q, @Conv.vectorTuple t ts _ _ each final, tup => do
    let bf ← deconvert final tup
    let swapped ← deconvertEach each bf
    let n ← headSize q tup
    (List.range n).mapM (rowAt (t :: ts) swapped)
  | _, _, .nested elem flat final, input => do
    let bf ← deconvert final input
    let flatVec ← deconvert flat bf.2.1
    unflatten (deconvert elem) bf.1 flatVec
  | _, _, .vectorUser elem final, input => do
    let bf ← deconvert final input
    List.mapM (deconvert elem) bf
  | _, _, .vectorMap elem final, input => do
    let bf ← deconvert final input
    List.mapM (deconvert elem) bf

/-- `deconvert_impl` of a tuple. -/
def deconvertImpl : {ts : List Ty} → {ps : List PS} → (pre : List PS) → ConvList ts ps →
    List NativeVal → Option (Ty.vals ts)
  | _, _, _, .nil, _ => some ()
  | _, _, pre, .cons (p := p) head tail, tup => do
    let arg ← removeTupleIfSingle p (extractNthTuple pre p tup)
    let v ← deconvert head arg
    let vs ← deconvertImpl (pre ++ [p]) tail tup
    some (v, vs)

/-- `deconvert_vec` of every column. -/
def deconvertEach : {ts : List Ty} → {ps : List PS} → ConvList ts ps → Ty.vals (ps.map PS.ty) →
    Option (Ty.vals ts)
  | _, _, .nil, _ => some ()
  | _, _, .cons head tail, v => do
    let x ← deconvert head v.1
    let xs ← deconvertEach tail v.2
    some (x, xs)

end

end Skywing.PubSub
