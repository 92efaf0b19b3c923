import Mathlib.Algebra.GroupWithZero.Nat
import Mathlib.Data.Char
import Mathlib.Data.List.Lex
import Mathlib.Data.List.Sort

/-!
# Basic types

`skywing_core/types.hpp`: ids, version numbers, the types that are published,
tag markers and the parent / children record of a reduce group. A
`std::string` is the list of its characters, so that first characters, NUL
separators and the lexicographic order are all at hand.
-/
namespace Skywing

/-- `std::string`. -/
abbrev Str := List Char

instance (priority := high) str_lawfulBEq : LawfulBEq Str := inferInstanceAs (LawfulBEq (List Char))

/-- `std::isspace` in the locale "C". -/
def isSpace (ch : Char) : Bool := ch ∈ [' ', '\t', '\n', '\x0b', '\x0c', '\r']

abbrev MachineID := Str
abbrev TagID := Str
abbrev JobID := Str

/-- mirrors skywing/skywing_core/types.hpp:23 -/
abbrev VersionID := UInt32

/-- mirrors skywing/skywing_core/types.hpp:32 -/
abbrev ReductionDisconnectID := UInt64

/-- `AddrPortPair`: host and port. -/
abbrev AddrPort := Str × UInt16

/-- `tag_no_data = -1`.
mirrors skywing/skywing_core/internal/tag_buffer.hpp:113 -/
def tagNoData : VersionID := 0xFFFFFFFF

theorem tagNoData_toNat : tagNoData.toNat = 2 ^ 32 - 1 := rfl

/-! ## Published types

mirrors skywing/skywing_core/types.hpp:35-61 -/

/-- The types of the list that have a vector of themselves beside them. -/
inductive Scalar
  | float | double | int8 | int16 | int32 | int64 | uint8 | uint16 | uint32 | uint64 | string | bool
  deriving DecidableEq, Repr

/-- Floating point values are their bit patterns: they are only copied. -/
def Scalar.val : Scalar → Type
  | float => UInt32
  | double => UInt64
  | int8 => Int8
  | int16 => Int16
  | int32 => Int32
  | int64 => Int64
  | uint8 => UInt8
  | uint16 => UInt16
  | uint32 => UInt32
  | uint64 => UInt64
  | string => Str
  | bool => Bool

instance Scalar.decEq : (s : Scalar) → DecidableEq s.val
  | float => inferInstanceAs (DecidableEq UInt32)
  | double => inferInstanceAs (DecidableEq UInt64)
  | int8 => inferInstanceAs (DecidableEq Int8)
  | int16 => inferInstanceAs (DecidableEq Int16)
  | int32 => inferInstanceAs (DecidableEq Int32)
  | int64 => inferInstanceAs (DecidableEq Int64)
  | uint8 => inferInstanceAs (DecidableEq UInt8)
  | uint16 => inferInstanceAs (DecidableEq UInt16)
  | uint32 => inferInstanceAs (DecidableEq UInt32)
  | uint64 => inferInstanceAs (DecidableEq UInt64)
  | string => inferInstanceAs (DecidableEq Str)
  | bool => inferInstanceAs (DecidableEq Bool)

/-- `bytes` is `std::vector<std::byte>`; `std::byte` itself is not in the
list. -/
inductive Native
  | scalar (s : Scalar)
  | vec (s : Scalar)
  | bytes
  deriving DecidableEq, Repr

def Native.val : Native → Type
  | scalar s => s.val
  | vec s => List s.val
  | bytes => List UInt8

/-! ## Tag markers

mirrors skywing/skywing_core/types.hpp:178-188 -/

def publishTagMarker : Char := 'p'
def reduceValueMarker : Char := 'r'
def reduceGroupMarker : Char := 'g'
def privateTagMarker : Char := 'x'

/-- `tag[0]`; a `std::string` reads as NUL at its end. -/
def marker (t : TagID) : Char := t.headD '\x00'

/-- mirrors skywing/skywing_core/types.hpp:207-211 -/
def tagNameOkay (t : TagID) : Bool :=
  !t.isEmpty && (marker t == publishTagMarker || marker t == reduceValueMarker ||
    marker t == reduceGroupMarker || marker t == privateTagMarker)

/-! ## Reduce groups -/

instance (priority := high) two_neZero : NeZero 2 := ⟨Nat.succ_ne_zero 1⟩

instance (priority := high) three_neZero : NeZero 3 := ⟨Nat.succ_ne_zero 2⟩

/-- The parent tag, the left child's and the right child's; absent ones are
empty.
mirrors skywing/skywing_core/types.hpp:165-176 -/
structure ReduceGroupNeighbors where
  tags : Fin 3 → TagID

namespace ReduceGroupNeighbors

def parent (n : ReduceGroupNeighbors) : TagID := n.tags 0
def leftChild (n : ReduceGroupNeighbors) : TagID := n.tags 1
def rightChild (n : ReduceGroupNeighbors) : TagID := n.tags 2

end ReduceGroupNeighbors

end Skywing
