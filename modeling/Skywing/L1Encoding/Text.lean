import Mathlib.Data.Nat.Digits.Defs
import Skywing.Core.Types

/-!
# Tag lists and addresses as strings

`split` (`skywing_core/internal/utility/algorithms.hpp`) takes a string apart
at a character, `split_address`
(`skywing_core/internal/devices/socket_communicator.cpp`) reads `host:port`.

* `split_eq_splitOn`: without a limit, `split` is the splitting of lists at
  an element, so what is known of that applies.
* `split_appendTag`, `split_joinAfter`: tags without NUL, one appended after the
  other with NULs between them, are what splitting at NUL gives back.
* `split_two`: with the limit 2, only the first separator counts.
-/
namespace Skywing.L1.Text

def nul : Char := '\x00'

/-! ## Splitting -/

/-- `cur` is what has been read of the current piece, `made` the number of
pieces before it. -/
def splitLoop (splitChar : Char) (maxCount : Nat) : Str → Str → Nat → List Str
  | [], cur, _ => [cur]
  | x :: rest, cur, made =>
    if x = splitChar then
      if made + 1 = maxCount then [cur ++ x :: rest]
      else cur :: splitLoop splitChar maxCount rest [] (made + 1)
    else splitLoop splitChar maxCount rest (cur ++ [x]) made

/-- A `max_count` of 0, the default, is no limit.
mirrors skywing/skywing_core/internal/utility/algorithms.hpp:76-93 -/
def split (toSplit : Str) (splitChar : Char) (maxCount : Nat) : List Str :=
  splitLoop splitChar maxCount toSplit [] 0

theorem splitLoop_zero (c : Char) (s cur : Str) (made : Nat) (h : c ∉ cur) :
    splitLoop c 0 s cur made = (cur ++ s).splitOn c := by
  induction s generalizing cur made with
  | nil => rw [List.append_nil, List.splitOn_eq_singleton h, splitLoop]
  | cons x rest ih =>
    unfold splitLoop
    by_cases hx : x = c
    · subst hx
      rw [if_pos rfl, if_neg (by omega), ih [] _ List.not_mem_nil, List.nil_append,
        List.splitOn_append_cons_self_of_not_mem h]
    · have hcur : c ∉ cur ++ [x] := by
        rw [List.mem_append, List.mem_singleton]
        exact fun hc => hc.elim h fun he => hx he.symm
      rw [if_neg hx, ih _ _ hcur, List.append_assoc, List.singleton_append]

theorem split_eq_splitOn (s : Str) (c : Char) : split s c 0 = s.splitOn c := by
  rw [split, splitLoop_zero c s [] 0 List.not_mem_nil, List.nil_append]

theorem split_append (s t : Str) (c : Char) : split (s ++ c :: t) c 0 = split s c 0 ++ split t c 0 := by
  rw [split_eq_splitOn, split_eq_splitOn, split_eq_splitOn, List.splitOn_append_cons_self]

theorem split_of_notMem {s : Str} {c : Char} (h : c ∉ s) : split s c 0 = [s] := by
  rw [split_eq_splitOn, List.splitOn_eq_singleton h]

theorem split_snoc (s : Str) {t : Str} {c : Char} (h : c ∉ t) : split (s ++ c :: t) c 0 = split s c 0 ++ [t] := by
  rw [split_append, split_of_notMem h]

theorem splitLoop_two (c : Char) (s t cur : Str) (hs : c ∉ s) :
    splitLoop c 2 (s ++ c :: t) cur 0 = [cur ++ s, t] := by
  induction s generalizing cur with
  | nil =>
    have hlast : ∀ u v : Str, splitLoop c 2 u v 1 = [v ++ u] := by
      intro u
      induction u with
      | nil => intro v; rw [splitLoop, List.append_nil]
      | cons x u ih =>
        intro v
        rw [splitLoop]
        split
        · rfl
        · rw [ih, List.append_assoc, List.singleton_append]
    rw [List.nil_append, splitLoop, if_pos rfl, if_neg (by decide), hlast, List.nil_append, List.append_nil]
  | cons x s ih =>
    obtain ⟨hx, hrest⟩ := not_or.mp (List.mem_cons.not.mp hs)
    rw [List.cons_append, splitLoop, if_neg (Ne.symm hx), ih _ hrest, List.append_assoc, List.singleton_append]

/-- The part before the first separator, and all the rest. -/
theorem split_two {s : Str} {c : Char} (t : Str) (h : c ∉ s) : split (s ++ c :: t) c 2 = [s, t] :=
  splitLoop_two c s t [] h

/-! ## Lists of tags -/

/-- `tag` added to the tags for an address.
mirrors skywing/skywing_core/manager.cpp:1298-1300 -/
def appendTag (tagList tag : Str) : Str := (if tagList.isEmpty then tagList else tagList ++ [nul]) ++ tag

theorem split_appendTag {tagList tag : Str} (hne : tagList ≠ []) (h : nul ∉ tag) :
    split (appendTag tagList tag) nul 0 = split tagList nul 0 ++ [tag] := by
  rw [appendTag, if_neg (by simpa using hne), List.append_assoc, List.singleton_append, split_snoc _ h]

/-- `so_far + '\0' + next` over a list of tags.
mirrors skywing/skywing_core/manager.cpp:737-741 -/
def joinAfter (first : Str) (tags : List TagID) : Str := tags.foldl (fun soFar next => soFar ++ nul :: next) first

theorem split_joinAfter (first : Str) {tags : List TagID} (h : ∀ t ∈ tags, nul ∉ t) :
    split (joinAfter first tags) nul 0 = split first nul 0 ++ tags := by
  induction tags generalizing first with
  | nil => rw [joinAfter, List.foldl_nil, List.append_nil]
  | cons t tags ih =>
    obtain ⟨ht, hts⟩ := List.forall_mem_cons.mp h
    rw [joinAfter, List.foldl_cons, ← joinAfter, ih _ hts, split_snoc _ ht, List.append_assoc,
      List.singleton_append]

/-! ## Addresses -/

/-- `std::to_string` of a port. -/
def portString (port : UInt16) : Str := Nat.toDigits 10 port.toNat

/-- `strtol` with base 10: the value and what is left of the string; without
a digit nothing is read. -/
def strtol (str : Str) : Int × Str :=
  let unsigned (s : Str) (sign : Int) : Int × Str :=
    let digits := s.takeWhile Char.isDigit
    if digits.isEmpty then (0, str)
    else
      let value := sign * Nat.ofDigits 10 (digits.map fun c => c.toNat - '0'.toNat).reverse
      (max (-2 ^ 63) (min (2 ^ 63 - 1) value), s.dropWhile Char.isDigit)
  match str.dropWhile isSpace with
  | '-' :: s => unsigned s (-1)
  | '+' :: s => unsigned s 1
  | s => unsigned s 1

/-- mirrors skywing/skywing_core/internal/devices/socket_communicator.cpp:282-297 -/
def splitAddress (address : Str) : AddrPort :=
  if ':' ∉ address then ([], 0)
  else
    let (port, unread) := strtol ((address.dropWhile (· ≠ ':')).drop 1)
    if !unread.isEmpty || port < 0 || port > 0xFFFF then ([], 0)
    else (address.takeWhile (· ≠ ':'), UInt16.ofNat port.toNat)

/-- mirrors skywing/skywing_core/manager.cpp:128-133 -/
def addressString (addr : AddrPort) : Str := addr.1 ++ ':' :: portString addr.2

example : splitAddress ['1', '.', '2', ':', '8', '0'] = (['1', '.', '2'], 80) := by decide

end Skywing.L1.Text
