import Mathlib.Algebra.BigOperators.Group.List.Basic
import Mathlib.Data.List.Induction
import Skywing.L1Encoding.Text

/-!
# Splitting by positions

`split` (`skywing_core/internal/utility/algorithms.hpp`) keeps two positions in
the string: `pos` is a `std::size_t`, and `last_pos`, declared as `auto
last_pos = 0`, is an `int`. A piece that begins at 2^31 or beyond begins
somewhere else, or before the string. `splitViews` is the loop with its
positions; `Text.split`, which takes the string apart character by character,
is what it comes to while the cuts lie below 2^31 (`splitViews_eq`).

Results:
* `intercalate_split`, `length_split`, `notMem_split`: the pieces of
  `Text.split`.
* `splitsWell_iff`: a split by positions is inverted by joining exactly while
  the cuts lie below 2^31.
* `split_iff`: so are the lists of tags, with or without an address in front.
-/
namespace Skywing.L1.Text

/-! ## The loop -/

/-- `last_pos = position` -/
def lastPos (position : Nat) : Int := (position : Int).bmod (2 ^ 32)

/-- The view from `first` up to `last`; there is none before the string. -/
def view (toSplit : Str) (first : Int) (last : Nat) : Option Str :=
  if first < 0 then none else some ((toSplit.drop first.toNat).take (last - first.toNat))

/-- `rest` is what `find` has to go through, from `pos` on; `toRet` and `last`
are the pieces so far and `last_pos`. -/
def splitViewsLoop (toSplit : Str) (splitChar : Char) (maxCount : Nat) :
    Str → Nat → List Str → Int → Option (List Str)
  | [], _, toRet, last => (view toSplit last toSplit.length).map fun piece => toRet ++ [piece]
  | x :: rest, pos, toRet, last =>
    if x = splitChar then
      if toRet.length + 1 = maxCount then (view toSplit last toSplit.length).map fun piece => toRet ++ [piece]
      else (view toSplit last pos).bind fun piece =>
        splitViewsLoop toSplit splitChar maxCount rest (pos + 1) (toRet ++ [piece]) (lastPos (pos + 1))
    else splitViewsLoop toSplit splitChar maxCount rest (pos + 1) toRet last

/-- The pieces, unless one begins before the string.
mirrors skywing/skywing_core/internal/utility/algorithms.hpp:76-93 -/
def splitViews (toSplit : Str) (splitChar : Char) (maxCount : Nat) : Option (List Str) :=
  splitViewsLoop toSplit splitChar maxCount toSplit 0 [] 0

/-- The separators at which the string is cut lie below 2^31. -/
def CutsBelow (s : Str) (c : Char) (m : Nat) : Prop :=
  ∀ pos, s[pos]? = some c → (m = 0 ∨ (s.take pos).count c + 1 < m) → pos + 1 < 2 ^ 31

/-! ## The pieces of `split` -/

theorem splitLoop_ne_nil (c : Char) (m : Nat) (rest cur : Str) (made : Nat) : splitLoop c m rest cur made ≠ [] := by
  induction rest generalizing cur made with
  | nil => exact List.cons_ne_nil _ _
  | cons x rest ih =>
    unfold splitLoop
    split
    · split <;> exact List.cons_ne_nil _ _
    · exact ih _ _

theorem intercalate_splitLoop (c : Char) (m : Nat) (rest cur : Str) (made : Nat) :
    [c].intercalate (splitLoop c m rest cur made) = cur ++ rest := by
  induction rest generalizing cur made with
  | nil => simp [splitLoop]
  | cons x rest ih =>
    unfold splitLoop
    split
    · rename_i hx
      subst hx
      split
      · exact List.intercalate_singleton
      · rw [List.intercalate_cons_of_ne_nil (splitLoop_ne_nil x m rest [] (made + 1)), ih]
        simp
    · rw [ih, List.append_assoc, List.singleton_append]

theorem intercalate_split (s : Str) (c : Char) (m : Nat) : [c].intercalate (split s c m) = s :=
  intercalate_splitLoop c m s [] 0

theorem length_splitLoop (c : Char) {m : Nat} (rest cur : Str) {made : Nat} (h : m = 0 ∨ made < m) :
    (splitLoop c m rest cur made).length =
      if m = 0 then rest.count c + 1 else min (m - made) (rest.count c + 1) := by
  induction rest generalizing cur made with
  | nil =>
    simp only [splitLoop, List.length_singleton, List.count_nil]
    split <;> omega
  | cons x rest ih =>
    unfold splitLoop
    by_cases hx : x = c
    · subst hx
      rw [if_pos rfl, List.count_cons_self]
      split
      · rw [List.length_singleton]
        split <;> omega
      · rw [List.length_cons, ih [] (by omega)]
        split <;> omega
    · rw [if_neg hx, ih _ h, List.count_cons_of_ne hx]

theorem length_split (s : Str) (c : Char) (m : Nat) :
    (split s c m).length = if m = 0 then s.count c + 1 else min m (s.count c + 1) :=
  length_splitLoop c s [] (Nat.eq_zero_or_pos m)

theorem notMem_splitLoop (c : Char) (m : Nat) (rest : Str) {cur : Str} (made : Nat) (h : c ∉ cur) :
    ∀ piece ∈ (splitLoop c m rest cur made).dropLast, c ∉ piece := by
  induction rest generalizing cur made with
  | nil => exact List.forall_mem_nil _
  | cons x rest ih =>
    unfold splitLoop
    split
    · split
      · exact List.forall_mem_nil _
      · rw [List.dropLast_cons_of_ne_nil (splitLoop_ne_nil c m rest [] (made + 1))]
        exact List.forall_mem_cons.mpr ⟨h, ih _ List.not_mem_nil⟩
    · rename_i hx
      refine ih _ ?_
      rw [List.mem_append, List.mem_singleton]
      exact fun hc => hc.elim h fun he => hx he.symm

theorem notMem_split (s : Str) (c : Char) (m : Nat) : ∀ piece ∈ (split s c m).dropLast, c ∉ piece :=
  notMem_splitLoop c m s 0 List.not_mem_nil

/-! ## While the cuts lie below 2^31 -/

theorem lastPos_of_lt {n : Nat} (h : n < 2 ^ 31) : lastPos n = n := by
  unfold lastPos Int.bmod
  dsimp only
  split <;> omega

theorem lastPos_le (n : Nat) : lastPos n ≤ n := by
  unfold lastPos Int.bmod
  dsimp only
  split <;> omega

theorem lastPos_lt {n : Nat} (h : 2 ^ 31 ≤ n) : lastPos n < n := by
  unfold lastPos Int.bmod
  dsimp only
  split <;> omega

theorem view_eq {s : Str} (before piece after : Str) (hs : s = before ++ piece ++ after) {last : Nat}
    (hlast : last = before.length + piece.length) : view s before.length last = some piece := by
  subst hs hlast
  rw [view, if_neg (by omega), Int.toNat_natCast, Nat.add_sub_cancel_left, List.append_assoc, List.drop_left,
    List.take_left]

/-- The positions say what the characters read since `last_pos` say. -/
theorem splitViewsLoop_eq {s : Str} (before cur rest : Str) {c : Char} {m pos : Nat} (toRet : List Str)
    (hs : s = before ++ cur ++ rest) (hpos : pos = before.length + cur.length) (hm : m = 0 ∨ toRet.length < m)
    (h : ∀ i, rest[i]? = some c → (m = 0 ∨ toRet.length + (rest.take i).count c + 1 < m) → pos + i + 1 < 2 ^ 31) :
    splitViewsLoop s c m rest pos toRet before.length = some (toRet ++ splitLoop c m rest cur toRet.length) := by
  induction rest generalizing before cur pos toRet with
  | nil =>
    have hview : view s before.length s.length = some cur := view_eq before cur [] hs (by simp [hs])
    rw [splitViewsLoop, splitLoop, hview, Option.map_some]
  | cons x rest ih =>
    unfold splitViewsLoop splitLoop
    by_cases hx : x = c
    · subst hx
      rw [if_pos rfl, if_pos rfl]
      by_cases hlast : toRet.length + 1 = m
      · have hview : view s before.length s.length = some (cur ++ x :: rest) :=
          view_eq before (cur ++ x :: rest) [] (by simp [hs]) (by simp [hs])
        rw [if_pos hlast, if_pos hlast, hview, Option.map_some]
      · have hview : view s before.length pos = some cur := view_eq before cur (x :: rest) hs hpos
        have hmore : m = 0 ∨ toRet.length + 1 < m := by omega
        have hnext : pos + 1 = (before ++ cur ++ [x]).length := by simp [hpos, Nat.add_assoc]
        have hstart : lastPos (pos + 1) = (before ++ cur ++ [x]).length := by
          rw [lastPos_of_lt (h 0 rfl (by simpa using hmore)), hnext]
        have hlen : (toRet ++ [cur]).length = toRet.length + 1 := by simp
        rw [if_neg hlast, if_neg hlast, hview, Option.bind_some, hstart,
          ih (before ++ cur ++ [x]) [] (toRet ++ [cur]) (by simp [hs]) hnext (by omega)]
        · simp
        · intro i hi hcut
          rw [hlen] at hcut
          have hbelow := h (i + 1) hi (by rw [List.take_succ_cons, List.count_cons_self]; omega)
          omega
    · rw [if_neg hx, if_neg hx]
      refine ih before (cur ++ [x]) toRet (by simp [hs]) (by simp [hpos, Nat.add_assoc]) hm fun i hi hcut => ?_
      have hbelow := h (i + 1) hi (by rwa [List.take_succ_cons, List.count_cons_of_ne hx])
      omega

theorem splitViews_eq {s : Str} {c : Char} {m : Nat} (h : CutsBelow s c m) : splitViews s c m = some (split s c m) := by
  refine splitViewsLoop_eq [] [] s [] rfl rfl (Nat.eq_zero_or_pos m) fun i hi hcut => ?_
  rw [Nat.zero_add]
  exact h i hi (by simpa using hcut)

/-! ## Beyond -/

/-- The lengths of the pieces, each with one separator. -/
def weight (pieces : List Str) : Nat := (pieces.map fun piece => piece.length + 1).sum

theorem weight_concat (pieces : List Str) (piece : Str) :
    weight (pieces ++ [piece]) = weight pieces + piece.length + 1 := by
  simp [weight, Nat.add_assoc]

theorem weight_cons (piece : Str) (pieces : List Str) :
    weight (piece :: pieces) = piece.length + 1 + weight pieces := by
  simp [weight]

theorem weight_eq (c : Char) {pieces : List Str} (h : pieces ≠ []) :
    weight pieces = ([c].intercalate pieces).length + 1 := by
  induction pieces with
  | nil => exact absurd rfl h
  | cons piece pieces ih =>
    rw [weight_cons]
    by_cases hp : pieces = []
    · subst hp
      simp [weight]
    · rw [ih hp, List.intercalate_cons_of_ne_nil hp]
      simp only [List.length_append, List.length_singleton]
      omega

theorem length_view {s piece : Str} {first : Int} {last : Nat} (h : view s first last = some piece)
    (hfirst : first ≤ last)
    (hlast : last ≤ s.length) : first + piece.length = last := by
  unfold view at h
  split at h
  · cases h
  · cases h
    rw [List.length_take, List.length_drop]
    omega

theorem weight_last {s piece : Str} {first : Int} (toRet : List Str) (h : view s first s.length = some piece)
    (hfirst : first ≤ s.length) : (weight toRet + s.length + 1 : Int) = weight (toRet ++ [piece]) + first := by
  have hlen := length_view h hfirst (le_refl _)
  rw [weight_concat]
  omega

/-- A piece that begins too early is too long. -/
theorem weight_splitViewsLoop {s rest : Str} {c : Char} {m pos : Nat} {toRet pieces : List Str} {last : Int}
    (h : splitViewsLoop s c m rest pos toRet last = some pieces) (hpos : pos + rest.length = s.length)
    (hlast : last ≤ pos) (hm : m = 0 ∨ toRet.length < m) :
    (weight toRet + s.length + 1 : Int) ≤ weight pieces + last ∧
      ∀ i, rest[i]? = some c → (m = 0 ∨ toRet.length + (rest.take i).count c + 1 < m) → 2 ^ 31 ≤ pos + i + 1 →
        (weight toRet + s.length + 1 : Int) < weight pieces + last := by
  induction rest generalizing pos toRet last with
  | nil =>
    obtain ⟨piece, hview, rfl⟩ := Option.map_eq_some_iff.mp h
    exact ⟨(weight_last toRet hview (by omega)).le, fun i hi => nomatch hi⟩
  | cons x rest ih =>
    rw [List.length_cons] at hpos
    unfold splitViewsLoop at h
    by_cases hx : x = c
    · subst hx
      rw [if_pos rfl] at h
      by_cases hstop : toRet.length + 1 = m
      · rw [if_pos hstop] at h
        obtain ⟨piece, hview, rfl⟩ := Option.map_eq_some_iff.mp h
        refine ⟨(weight_last toRet hview (by omega)).le, fun i hi hcut => ?_⟩
        omega
      · rw [if_neg hstop] at h
        obtain ⟨piece, hview, hloop⟩ := Option.bind_eq_some_iff.mp h
        have hlen := length_view hview hlast (by omega)
        have hle := lastPos_le (pos + 1)
        have hnext : (toRet ++ [piece]).length = toRet.length + 1 := by simp
        obtain ⟨ihle, ihlt⟩ := ih hloop (by omega) hle (by omega)
        rw [weight_concat] at ihle ihlt
        refine ⟨by omega, fun i hi hcut hfar => ?_⟩
        cases i with
        | zero =>
          rw [Nat.add_zero] at hfar
          have hlt := lastPos_lt hfar
          omega
        | succ i =>
          rw [List.take_succ_cons, List.count_cons_self] at hcut
          have hlt := ihlt i hi (by omega) (by omega)
          omega
    · rw [if_neg hx] at h
      obtain ⟨ihle, ihlt⟩ := ih h (by omega) (by omega) hm
      refine ⟨ihle, fun i hi hcut hfar => ?_⟩
      cases i with
      | zero => exact absurd (Option.some.inj hi) hx
      | succ i =>
        rw [List.take_succ_cons, List.count_cons_of_ne hx] at hcut
        exact ihlt i hi hcut (by omega)

/-- Where a piece begins does not change how many there are. -/
theorem length_splitViewsLoop {s rest : Str} {c : Char} {m pos : Nat} {toRet pieces : List Str} {last : Int}
    (h : splitViewsLoop s c m rest pos toRet last = some pieces) (cur : Str) :
    pieces.length = toRet.length + (splitLoop c m rest cur toRet.length).length := by
  induction rest generalizing pos toRet last cur with
  | nil =>
    obtain ⟨piece, -, rfl⟩ := Option.map_eq_some_iff.mp h
    simp [splitLoop]
  | cons x rest ih =>
    unfold splitViewsLoop at h
    unfold splitLoop
    by_cases hx : x = c
    · rw [if_pos hx] at h ⊢
      by_cases hstop : toRet.length + 1 = m
      · rw [if_pos hstop] at h ⊢
        obtain ⟨piece, -, rfl⟩ := Option.map_eq_some_iff.mp h
        simp
      · rw [if_neg hstop] at h ⊢
        obtain ⟨piece, -, hloop⟩ := Option.bind_eq_some_iff.mp h
        have hnext : (toRet ++ [piece]).length = toRet.length + 1 := by simp
        have ih' := ih hloop []
        rw [hnext] at ih'
        rw [ih', List.length_cons]
        omega
    · rw [if_neg hx] at h ⊢
      exact ih h _

theorem length_splitViews {s : Str} {c : Char} {m : Nat} {pieces : List Str} (h : splitViews s c m = some pieces) :
    pieces.length = (split s c m).length := by
  rw [length_splitViewsLoop h [], List.length_nil, Nat.zero_add]
  rfl

theorem weight_splitViews {s : Str} {c : Char} {m : Nat} {pieces : List Str} (h : splitViews s c m = some pieces) :
    s.length + 1 ≤ weight pieces ∧ (weight pieces = s.length + 1 → CutsBelow s c m) := by
  obtain ⟨hle, hlt⟩ := weight_splitViewsLoop h (Nat.zero_add _) (le_refl _) (Nat.eq_zero_or_pos m)
  have hnil : weight [] = 0 := rfl
  rw [hnil] at hle hlt
  refine ⟨by omega, fun heq pos hpos hcut => ?_⟩
  by_contra hfar
  have := hlt pos hpos (by simpa using hcut) (by omega)
  omega

/-! ## What joining gives back -/

/-- The pieces joined are the string, they are as many as the limit allows and
only the last one may have a separator. -/
def SplitsWell (s : Str) (c : Char) (m : Nat) : Prop :=
  ∃ pieces, splitViews s c m = some pieces ∧ [c].intercalate pieces = s ∧
    pieces.length = (if m = 0 then s.count c + 1 else min m (s.count c + 1)) ∧ ∀ piece ∈ pieces.dropLast, c ∉ piece

theorem splitsWell_iff (s : Str) (c : Char) (m : Nat) : SplitsWell s c m ↔ CutsBelow s c m := by
  constructor
  · intro h
    obtain ⟨pieces, hsplit, hjoin, -, -⟩ := h
    have hne : pieces ≠ [] := by
      rintro rfl
      have hlen := length_splitViews hsplit
      exact splitLoop_ne_nil c m s [] 0 (List.length_eq_zero_iff.mp hlen.symm)
    refine (weight_splitViews hsplit).2 ?_
    rw [weight_eq c hne, hjoin]
  · intro h
    exact ⟨split s c m, splitViews_eq h, intercalate_split s c m, length_split s c m, notMem_split s c m⟩

example : splitViews [' ', 'a', ' ', 'b', ' '] ' ' 2 = some [[], ['a', ' ', 'b', ' ']] := by decide

/-! ## Lists of tags -/

theorem joinAfter_append (a b : Str) (tags : List TagID) : joinAfter (a ++ b) tags = a ++ joinAfter b tags := by
  induction tags generalizing b with
  | nil => rfl
  | cons t tags ih =>
    have hb : a ++ b ++ nul :: t = a ++ (b ++ nul :: t) := List.append_assoc ..
    rw [joinAfter, List.foldl_cons, ← joinAfter, hb, ih]
    rfl

theorem joinAfter_cons (first t : Str) (tags : List TagID) :
    joinAfter first (t :: tags) = first ++ nul :: joinAfter t tags := by
  have hcons : first ++ nul :: t = (first ++ [nul]) ++ t := by simp
  rw [joinAfter, List.foldl_cons, ← joinAfter, hcons, joinAfter_append]
  simp

theorem joinAfter_concat (first t : Str) (tags : List TagID) :
    joinAfter first (tags ++ [t]) = joinAfter first tags ++ nul :: t := List.foldl_concat ..

theorem weight_tags (first : TagID) (more : List TagID) :
    weight (first :: more) = (joinAfter first more).length + 1 := by
  induction more generalizing first with
  | nil => simp [weight, joinAfter]
  | cons t more ih =>
    rw [weight_cons, ih, joinAfter_cons]
    simp only [List.length_append, List.length_cons]
    omega

/-- The tags for an address, as the search for publishers puts them together.
mirrors skywing/skywing_core/manager.cpp:1295-1301 -/
def tagList (first : TagID) (more : List TagID) : Str := more.foldl appendTag first

theorem tagList_eq {first : TagID} {more : List TagID} (h : more = [] ∨ first ≠ []) :
    tagList first more = joinAfter first more := by
  induction more generalizing first with
  | nil => rfl
  | cons t more ih =>
    have hne : first ≠ [] := h.resolve_left (List.cons_ne_nil t more)
    have happend : appendTag first t = first ++ nul :: t := by
      rw [appendTag, if_neg (by simpa using hne), List.append_assoc, List.singleton_append]
    rw [tagList, List.foldl_cons, ← tagList, happend, ih (.inr (by simp))]
    rfl

/-- An empty tag in front is lost. -/
theorem tagList_nil_cons (t : TagID) (more : List TagID) : tagList [] (t :: more) = tagList t more := rfl

theorem count_tagList_le {first : TagID} {more : List TagID} (h : ∀ t ∈ first :: more, nul ∉ t) :
    (tagList first more).count nul ≤ more.length := by
  induction more using List.reverseRecOn with
  | nil => exact (List.count_eq_zero.mpr (h first List.mem_cons_self)).le
  | append_singleton more t ih =>
    have hconcat : tagList first (more ++ [t]) = appendTag (tagList first more) t := List.foldl_concat ..
    obtain ⟨hf, hm⟩ := List.forall_mem_cons.mp h
    obtain ⟨hmore, ht⟩ := List.forall_mem_append.mp hm
    have ih' := ih (List.forall_mem_cons.mpr ⟨hf, hmore⟩)
    have ht' : t.count nul = 0 := List.count_eq_zero.mpr (ht t (List.mem_singleton_self t))
    rw [hconcat, appendTag, List.length_append, List.length_singleton, List.count_append, ht']
    split
    · omega
    · rw [List.count_append, List.count_singleton_self]
      omega

/-! ## Where a list is cut -/

theorem cutsBelow_of_notMem {s : Str} {c : Char} {m : Nat} (h : c ∉ s) : CutsBelow s c m :=
  fun _ hpos => absurd (List.mem_of_getElem? hpos) h

theorem cutsBelow_last {a b : Str} {c : Char} (hb : c ∉ b) : CutsBelow (a ++ c :: b) c 0 ↔ a.length + 1 < 2 ^ 31 := by
  constructor
  · intro h
    exact h a.length (by simp) (.inl rfl)
  · intro h pos hpos _
    by_contra hfar
    rw [List.getElem?_append_right (by omega)] at hpos
    obtain ⟨i, hi⟩ := Nat.exists_eq_add_of_lt (show a.length < pos by omega)
    have hget : (c :: b)[pos - a.length]? = b[i]? := by
      rw [hi, show a.length + i + 1 - a.length = i + 1 by omega, List.getElem?_cons_succ]
    rw [hget] at hpos
    exact hb (List.mem_of_getElem? hpos)

theorem cutsBelow_two {a b : Str} {c : Char} (ha : c ∉ a) : CutsBelow (a ++ c :: b) c 2 ↔ a.length + 1 < 2 ^ 31 := by
  constructor
  · intro h
    refine h a.length (by simp) (.inr ?_)
    rw [List.take_left, List.count_eq_zero.mpr ha]
    omega
  · intro h pos _ hcut
    by_contra hfar
    obtain ⟨i, hi⟩ := Nat.exists_eq_add_of_lt (show a.length < pos by omega)
    have htake : (a ++ c :: b).take pos = a ++ c :: b.take i := by
      rw [hi, Nat.add_assoc, List.take_length_add_append, List.take_succ_cons]
    rw [htake, List.count_append, List.count_cons_self] at hcut
    omega

theorem cutsBelow_tags {first : TagID} {more : List TagID} (h : ∀ t ∈ first :: more, nul ∉ t) :
    CutsBelow (joinAfter first more) nul 0 ↔ weight (first :: more).dropLast < 2 ^ 31 := by
  induction more using List.reverseRecOn with
  | nil =>
    have hcuts : CutsBelow (joinAfter first []) nul 0 := cutsBelow_of_notMem (h first List.mem_cons_self)
    exact ⟨fun _ => Nat.two_pow_pos 31, fun _ => hcuts⟩
  | append_singleton more t _ =>
    have ht : nul ∉ t := h t (by simp)
    rw [joinAfter_concat, cutsBelow_last ht, ← List.cons_append, List.dropLast_concat, weight_tags]

/-! ## The tags back -/

/-- What a pending connection stores for the tags is split into them. -/
def TagsBack (first : TagID) (more : List TagID) : Prop :=
  splitViews (tagList first more) nul 0 = some (first :: more)

/-- With the address in front, the string is split at its first NUL, and the
second piece again.
mirrors skywing/skywing_core/manager.cpp:1523-1526 and 1619 -/
def TagsBackAfter (addr : AddrPort) (first : TagID) (more : List TagID) : Prop :=
  ∃ rest, splitViews (joinAfter (addressString addr) (first :: more)) nul 2 = some [addressString addr, rest] ∧
    splitViews rest nul 0 = some (first :: more)

theorem split_tags {first : TagID} {more : List TagID} (h : ∀ t ∈ first :: more, nul ∉ t) :
    split (joinAfter first more) nul 0 = first :: more := by
  obtain ⟨hf, hm⟩ := List.forall_mem_cons.mp h
  rw [split_joinAfter first hm, split_of_notMem hf, List.singleton_append]

theorem tags_cutsBelow {first : TagID} {more : List TagID} {s : Str} (h : splitViews s nul 0 = some (first :: more))
    (hlen : (joinAfter first more).length ≤ s.length) : CutsBelow s nul 0 := by
  obtain ⟨hle, hcuts⟩ := weight_splitViews h
  rw [weight_tags] at hle hcuts
  exact hcuts (by omega)

theorem tagsBack_iff {first : TagID} {more : List TagID} (h : ∀ t ∈ first :: more, nul ∉ t) :
    TagsBack first more ↔ (more = [] ∨ first ≠ []) ∧ weight (first :: more).dropLast < 2 ^ 31 := by
  constructor
  · intro hback
    have hfirst : more = [] ∨ first ≠ [] := by
      by_contra hlost
      obtain ⟨hmore, hnil⟩ := not_or.mp hlost
      rw [not_not] at hnil
      subst hnil
      obtain ⟨t, more, rfl⟩ := List.exists_cons_of_ne_nil hmore
      -- the string is that of the other tags, so there is one piece too few
      have hlen := length_splitViews hback
      have hcount := count_tagList_le (List.forall_mem_cons.mp h).2
      rw [tagList_nil_cons, length_split, if_pos rfl, List.length_cons, List.length_cons] at hlen
      omega
    rw [TagsBack, tagList_eq hfirst] at hback
    exact ⟨hfirst, (cutsBelow_tags h).mp (tags_cutsBelow hback (le_refl _))⟩
  · intro hwhen
    obtain ⟨hfirst, hweight⟩ := hwhen
    rw [TagsBack, tagList_eq hfirst, splitViews_eq ((cutsBelow_tags h).mpr hweight), split_tags h]

theorem nul_notMem_addressString {addr : AddrPort} : nul ∉ addressString addr ↔ nul ∉ addr.1 := by
  have hport : nul ∉ ':' :: portString addr.2 := by
    intro hmem
    obtain hcolon | hdigit := List.mem_cons.mp hmem
    · exact absurd hcolon (by decide)
    · exact absurd (Nat.isDigit_of_mem_toDigits (by decide) (by decide) hdigit) (by decide)
  rw [addressString, List.mem_append]
  exact not_congr (or_iff_left hport)

theorem tagsBackAfter_iff (addr : AddrPort) {first : TagID} {more : List TagID} (h : ∀ t ∈ first :: more, nul ∉ t) :
    TagsBackAfter addr first more ↔
      nul ∉ addr.1 ∧ (addressString addr).length + 1 < 2 ^ 31 ∧ weight (first :: more).dropLast < 2 ^ 31 := by
  rw [← nul_notMem_addressString, TagsBackAfter, joinAfter_cons]
  constructor
  · intro hback
    obtain ⟨rest, htwo, htags⟩ := hback
    have hshort := (weight_splitViews htwo).1
    have hlong := (weight_splitViews htags).1
    have htwoWeight : weight [addressString addr, rest] = (addressString addr).length + rest.length + 2 := by
      simp [weight]
      omega
    rw [htwoWeight, List.length_append, List.length_cons] at hshort
    rw [weight_tags] at hlong
    -- a piece that begins too early is too long, in either split
    have hcuts : CutsBelow (addressString addr ++ nul :: joinAfter first more) nul 2 := by
      refine (weight_splitViews htwo).2 ?_
      rw [htwoWeight, List.length_append, List.length_cons]
      omega
    rw [splitViews_eq hcuts] at htwo
    have hpieces := notMem_split (addressString addr ++ nul :: joinAfter first more) nul 2
    have hjoin := intercalate_split (addressString addr ++ nul :: joinAfter first more) nul 2
    rw [Option.some.inj htwo] at hpieces hjoin
    have hnul : nul ∉ addressString addr := hpieces _ (by simp)
    have hrest : rest = joinAfter first more := by simpa using hjoin
    rw [hrest] at htags
    exact ⟨hnul, (cutsBelow_two hnul).mp hcuts, (cutsBelow_tags h).mp (tags_cutsBelow htags (le_refl _))⟩
  · intro hwhen
    obtain ⟨hnul, haddr, hweight⟩ := hwhen
    refine ⟨joinAfter first more, ?_, ?_⟩
    · rw [splitViews_eq ((cutsBelow_two hnul).mpr haddr), split_two _ hnul]
    · rw [splitViews_eq ((cutsBelow_tags h).mpr hweight), split_tags h]

/-- What joining and splitting give back, and for which strings, limits and
tags. -/
theorem split_iff (s : Str) (c : Char) (m : Nat) (addr : AddrPort) (first : TagID) (more : List TagID) :
    (SplitsWell s c m ↔ CutsBelow s c m) ∧
      ((∀ t ∈ first :: more, nul ∉ t) →
        (TagsBack first more ↔ (more = [] ∨ first ≠ []) ∧ weight (first :: more).dropLast < 2 ^ 31) ∧
          (TagsBackAfter addr first more ↔
            nul ∉ addr.1 ∧ (addressString addr).length + 1 < 2 ^ 31 ∧ weight (first :: more).dropLast < 2 ^ 31)) :=
  ⟨splitsWell_iff s c m, fun h => ⟨tagsBack_iff h, tagsBackAfter_iff addr h⟩⟩

/-- Two tags, the limit 2 and an address. -/
theorem split_two_tags : SplitsWell ['a', nul, 'b'] nul 2 ∧ TagsBack ['1', 'a'] [['1', 'b']] ∧
    TagsBackAfter (['h'], 80) ['1', 'a'] [['1', 'b']] := by
  obtain ⟨hsplit, htags⟩ := split_iff ['a', nul, 'b'] nul 2 (['h'], 80) ['1', 'a'] [['1', 'b']]
  obtain ⟨hback, hafter⟩ := htags (by decide)
  exact ⟨hsplit.mpr ((cutsBelow_two (a := ['a']) (by decide)).mpr (by decide)), hback.mpr (by decide),
    hafter.mpr (by decide)⟩

/-- The separator stands at 2^31 - 1, and the piece after it would begin 2^31
before the string. -/
theorem not_splitsWell : ¬ SplitsWell (List.replicate (2 ^ 31 - 1) 'a' ++ [nul]) nul 0 := by
  rw [splitsWell_iff, cutsBelow_last List.not_mem_nil, List.length_replicate]
  omega

end Skywing.L1.Text
