import Mathlib.Data.List.Basic
import Skywing.Core.Types

/-!
# Published values

`PublishValueVariant` (`skywing_core/types.hpp`), the union that carries it
(`generated_files/generated/message_format.capnp`), and the code between the
two: `include/publish_value_handler.hpp`, `internal/message_creators.cpp`,
`internal/capn_proto_wrapper.cpp`.

Four tables list the 25 alternatives: the type list (`publishValueTypeList`),
the handlers (`Scalar.suffix`), the union (`Field`) and the switch of the
decoder (`handlerOf`). Cap'n Proto is taken to return what was set in the same
field: a value of the union is a field with a value of the field's type.
`float`, `double` and their wire types stand for their bits, which are only
copied.

* `indexOf_get`: `index_of` is the index of the alternative in the variant.
* `decodeValue_set`, `values_setPublishData`: what was encoded is decoded.
-/
namespace Skywing.L1.Published

/-! ## Types -/

/-- mirrors skywing/skywing_core/types.hpp:35-61 -/
def publishValueTypeList : List Native :=
  [.scalar .float, .vec .float, .scalar .double, .vec .double,
    .scalar .int8, .vec .int8, .scalar .int16, .vec .int16,
    .scalar .int32, .vec .int32, .scalar .int64, .vec .int64,
    .scalar .uint8, .vec .uint8, .scalar .uint16, .vec .uint16,
    .scalar .uint32, .vec .uint32, .scalar .uint64, .vec .uint64,
    .scalar .string, .vec .string, .bytes, .scalar .bool, .vec .bool]

/-- mirrors skywing/skywing_core/internal/utility/type_list.hpp:11-31 -/
def indexOf (searchFor : Native) : List Native → Nat
  | [] => 0
  | first :: rest => if searchFor = first then 0 else 1 + indexOf searchFor rest

/-- `std::variant`: the index of an alternative and a value of its type.
mirrors skywing/skywing_core/types.hpp:64 -/
abbrev PublishValueVariant := Σ i : Fin publishValueTypeList.length, (publishValueTypeList.get i).val

def PublishValueVariant.index (v : PublishValueVariant) : Nat := v.1

/-- mirrors skywing/skywing_core/internal/tag_buffer.hpp:101-103 -/
def expectedTypeFor (ts : List Native) : List UInt8 := ts.map fun t => UInt8.ofNat (indexOf t publishValueTypeList)

/-- The first alternative. -/
instance : Inhabited PublishValueVariant := ⟨⟨⟨0, by decide⟩, (0 : UInt32)⟩⟩

/-! ## The union -/

/-- The fields of the union are `x`, `rX` for each suffix, and `bytes`. -/
inductive Suffix
  | d | f | i8 | i16 | i32 | i64 | u8 | u16 | u32 | u64 | str | bool
  deriving DecidableEq, Repr

def Suffix.Val : Suffix → Type
  | .d => UInt64
  | .f => UInt32
  | .i8 => Int8
  | .i16 => Int16
  | .i32 => Int32
  | .i64 => Int64
  | .u8 => UInt8
  | .u16 => UInt16
  | .u32 => UInt32
  | .u64 => UInt64
  | .str => Str
  | .bool => Bool

/-- A fresh list is filled with these. -/
instance : (s : Suffix) → Inhabited s.Val
  | .d => inferInstanceAs (Inhabited UInt64)
  | .f => inferInstanceAs (Inhabited UInt32)
  | .i8 => inferInstanceAs (Inhabited Int8)
  | .i16 => inferInstanceAs (Inhabited Int16)
  | .i32 => inferInstanceAs (Inhabited Int32)
  | .i64 => inferInstanceAs (Inhabited Int64)
  | .u8 => inferInstanceAs (Inhabited UInt8)
  | .u16 => inferInstanceAs (Inhabited UInt16)
  | .u32 => inferInstanceAs (Inhabited UInt32)
  | .u64 => inferInstanceAs (Inhabited UInt64)
  | .str => inferInstanceAs (Inhabited Str)
  | .bool => inferInstanceAs (Inhabited Bool)

inductive Field
  | plain (s : Suffix)
  | list (s : Suffix)
  | bytes
  deriving DecidableEq, Repr

def Field.Val : Field → Type
  | .plain s => s.Val
  | .list s => List s.Val
  | .bytes => List UInt8

/-- `which()` and the value of that field.
mirrors generated_files/generated/message_format.capnp:8-37 -/
abbrev PublishValue := Σ f : Field, f.Val

instance : Inhabited PublishValue := ⟨⟨.plain .d, (0 : UInt64)⟩⟩

/-- mirrors generated_files/generated/message_format.capnp:39-43 -/
structure PublishData where
  value : List PublishValue
  version : VersionID
  tagID : Str

/-! ## Handlers -/

section Lists
variable {α β : Type}

/-- A list of the size of `values` is set element by element.
mirrors skywing/skywing_core/include/publish_value_handler.hpp:55-61 -/
def setList [Inhabited β] (set : α → β) (values : List α) : List β :=
  values.zipIdx.foldl (fun out v => out.set v.2 (set v.1)) (List.replicate values.length default)

/-- mirrors skywing/skywing_core/include/publish_value_handler.hpp:19-31 -/
def listToVector (get : β → α) (values : List β) : List α := values.foldl (fun toRet v => toRet ++ [get v]) []

theorem setList_loop [Inhabited β] (set : α → β) : ∀ (values : List α) (done : List β),
    (values.zipIdx done.length).foldl (fun out v => out.set v.2 (set v.1))
      (done ++ List.replicate values.length default) = done ++ values.map set
  | [], done => rfl
  | v :: values, done => by
    have ih := setList_loop set values (done ++ [set v])
    rw [List.length_append, List.length_singleton] at ih
    rw [List.zipIdx_cons, List.foldl_cons, List.length_cons, List.replicate_succ,
      List.set_append_right _ _ le_rfl, Nat.sub_self, List.set_cons_zero]
    rwa [List.append_assoc, List.append_assoc] at ih

theorem setList_eq [Inhabited β] (set : α → β) (values : List α) : setList set values = values.map set :=
  setList_loop set values []

theorem listToVector_loop (get : β → α) : ∀ (values : List β) (done : List α),
    values.foldl (fun toRet v => toRet ++ [get v]) done = done ++ values.map get
  | [], done => (List.append_nil done).symm
  | v :: values, done => by
    rw [List.foldl_cons, listToVector_loop get values, List.append_assoc]
    rfl

theorem listToVector_eq (get : β → α) (values : List β) : listToVector get values = values.map get :=
  listToVector_loop get values []

end Lists

end Skywing.L1.Published

namespace Skywing

/-- The arguments of the macro, and the handlers of strings.
mirrors skywing/skywing_core/include/publish_value_handler.hpp:64-74,79-104 -/
def Scalar.suffix : Scalar → L1.Published.Suffix
  | .double => .d
  | .float => .f
  | .int8 => .i8
  | .int16 => .i16
  | .int32 => .i32
  | .int64 => .i64
  | .uint8 => .u8
  | .uint16 => .u16
  | .uint32 => .u32
  | .uint64 => .u64
  | .bool => .bool
  | .string => .str

/-- The C++ type and the type of its field are the same. -/
def Scalar.set : (e : Scalar) → e.val → e.suffix.Val
  | .double, v => v
  | .float, v => v
  | .int8, v => v
  | .int16, v => v
  | .int32, v => v
  | .int64, v => v
  | .uint8, v => v
  | .uint16, v => v
  | .uint32, v => v
  | .uint64, v => v
  | .bool, v => v
  | .string, v => v

def Scalar.get : (e : Scalar) → e.suffix.Val → e.val
  | .double, v => v
  | .float, v => v
  | .int8, v => v
  | .int16, v => v
  | .int32, v => v
  | .int64, v => v
  | .uint8, v => v
  | .uint16, v => v
  | .uint32, v => v
  | .uint64, v => v
  | .bool, v => v
  | .string, v => v

theorem Scalar.get_set (e : Scalar) (v : e.val) : e.get (e.set v) = v := by cases e <;> rfl

end Skywing

namespace Skywing.L1.Published

theorem listToVector_setList (e : Scalar) (vs : List e.val) : listToVector e.get (setList e.set vs) = vs := by
  rw [setList_eq, listToVector_eq, List.map_map]
  exact (List.map_congr_left fun v _ => e.get_set v).trans (List.map_id _)

namespace PublishValueHandler

/-- The field that the handler of a type uses.
mirrors skywing/skywing_core/include/publish_value_handler.hpp:38-122 -/
def field : Native → Field
  | .scalar e => .plain e.suffix
  | .vec e => .list e.suffix
  | .bytes => .bytes

def toField : (t : Native) → t.val → (field t).Val
  | .scalar e, v => e.set v
  | .vec e, vs => setList e.set vs
  | .bytes, bs => bs

def ofField : (t : Native) → (field t).Val → t.val
  | .scalar e, v => e.get v
  | .vec e, vs => listToVector e.get vs
  | .bytes, bs => bs

def set (t : Native) (value : t.val) : PublishValue := ⟨field t, toField t value⟩

/-- Another field than the handler's own is not read. -/
def get (t : Native) (r : PublishValue) : Option t.val :=
  if h : r.1 = field t then some (ofField t (h ▸ r.2)) else none

theorem ofField_toField (t : Native) (v : t.val) : ofField t (toField t v) = v := by
  cases t with
  | scalar e => exact e.get_set v
  | vec e => exact listToVector_setList e v
  | bytes => rfl

theorem get_set (t : Native) (v : t.val) : get t (set t v) = some v := by
  unfold get set
  rw [dif_pos rfl]
  exact congrArg some (ofField_toField t v)

end PublishValueHandler

/-! ## Variants -/

theorem indexOf_lt (t : Native) : indexOf t publishValueTypeList < publishValueTypeList.length := by
  cases t with
  | scalar e => cases e <;> decide
  | vec e => cases e <;> decide
  | bytes => decide

theorem get_indexOf (t : Native) :
    publishValueTypeList.get ⟨indexOf t publishValueTypeList, indexOf_lt t⟩ = t := by
  cases t with
  | scalar e => cases e <;> rfl
  | vec e => cases e <;> rfl
  | bytes => rfl

theorem indexOf_get : ∀ i : Fin publishValueTypeList.length,
    indexOf (publishValueTypeList.get i) publishValueTypeList = i := by decide

/-- The converting constructor of the variant: the alternative of the value's
own type. -/
def toVariant (t : Native) (v : t.val) : PublishValueVariant :=
  ⟨⟨indexOf t publishValueTypeList, indexOf_lt t⟩, cast (congrArg Native.val (get_indexOf t).symm) v⟩

theorem toVariant_get (v : PublishValueVariant) : toVariant (publishValueTypeList.get v.1) v.2 = v :=
  Sigma.ext (Fin.ext (indexOf_get v.1)) (cast_heq _ v.2)

/-! ## Messages -/

/-- mirrors skywing/skywing_core/internal/message_creators.cpp:41-60 -/
def setPublishData (version : VersionID) (tagId : TagID) (value : List PublishValueVariant) : PublishData where
  version := version
  tagID := tagId
  value := setList (fun v => PublishValueHandler.set (publishValueTypeList.get v.1) v.2) value

/-- The switch: the type whose handler reads a field.
mirrors skywing/skywing_core/internal/capn_proto_wrapper.cpp:49-105 -/
def handlerOf : Field → Native
  | .plain .d => .scalar .double
  | .list .d => .vec .double
  | .plain .f => .scalar .float
  | .list .f => .vec .float
  | .plain .str => .scalar .string
  | .list .str => .vec .string
  | .plain .i8 => .scalar .int8
  | .plain .i16 => .scalar .int16
  | .plain .i32 => .scalar .int32
  | .plain .i64 => .scalar .int64
  | .plain .u8 => .scalar .uint8
  | .plain .u16 => .scalar .uint16
  | .plain .u32 => .scalar .uint32
  | .plain .u64 => .scalar .uint64
  | .list .i8 => .vec .int8
  | .list .i16 => .vec .int16
  | .list .i32 => .vec .int32
  | .list .i64 => .vec .int64
  | .list .u8 => .vec .uint8
  | .list .u16 => .vec .uint16
  | .list .u32 => .vec .uint32
  | .list .u64 => .vec .uint64
  | .bytes => .bytes
  | .plain .bool => .scalar .bool
  | .list .bool => .vec .bool

def decodeValue (r : PublishValue) : Option PublishValueVariant :=
  (PublishValueHandler.get (handlerOf r.1) r).map (toVariant (handlerOf r.1))

/-- Decoding stops at the first value that is none.
mirrors skywing/skywing_core/internal/capn_proto_wrapper.cpp:106-115 -/
def PublishData.values (r : PublishData) : Option (List PublishValueVariant) :=
  r.value.zipIdx.foldlM (fun toRet v => (decodeValue v.1).map fun add => toRet.set v.2 add)
    (List.replicate r.value.length default)

/-! ## Round trip -/

theorem handlerOf_field (t : Native) : handlerOf (PublishValueHandler.field t) = t := by
  cases t with
  | scalar e => cases e <;> rfl
  | vec e => cases e <;> rfl
  | bytes => rfl

theorem decodeValue_set (t : Native) (v : t.val) :
    decodeValue (PublishValueHandler.set t v) = some (toVariant t v) := by
  have hsame : ∀ u, u = t →
      (PublishValueHandler.get u (PublishValueHandler.set t v)).map (toVariant u) = some (toVariant t v) := by
    rintro u rfl
    rw [PublishValueHandler.get_set]
    rfl
  exact hsame _ (handlerOf_field t)

theorem decode_loop : ∀ (values : List PublishValueVariant) (done : List PublishValueVariant),
    ((values.map fun v => PublishValueHandler.set (publishValueTypeList.get v.1) v.2).zipIdx done.length).foldlM
      (fun toRet v => (decodeValue v.1).map fun add => toRet.set v.2 add)
      (done ++ List.replicate values.length default) = some (done ++ values)
  | [], done => rfl
  | v :: values, done => by
    have ih := decode_loop values (done ++ [v])
    rw [List.length_append, List.length_singleton] at ih
    rw [List.map_cons, List.zipIdx_cons, List.foldlM_cons, decodeValue_set, toVariant_get]
    show List.foldlM _ ((done ++ List.replicate (values.length + 1) default).set done.length v) _ = _
    rw [List.replicate_succ, List.set_append_right _ _ le_rfl, Nat.sub_self, List.set_cons_zero]
    rwa [List.append_assoc, List.append_assoc] at ih

/-- **What was encoded is decoded.** -/
theorem values_setPublishData (version : VersionID) (tagId : TagID) (value : List PublishValueVariant) :
    (setPublishData version tagId value).values = some value := by
  unfold setPublishData PublishData.values
  dsimp only
  rw [setList_eq, List.length_map]
  exact decode_loop value []

end Skywing.L1.Published
