import Mathlib.Data.List.DropRight
import Skywing.Core.Maps
import Skywing.Core.Types

/-!
# Configuration files

`skywing_mid/helpers/skynet_config.hpp`: sections in brackets, a variable and
its value to a line. `parse` reads the lines of a file, trimmed; a variable
that is given twice in its section is an error, as is a line that is none of
these. `generate` writes the sections in the order of their names.

A `std::map` is an ordered map of the standard library. Files are texts; one
that cannot be opened reads as empty.
-/
namespace Skywing.L1.ConfigFile

open Std (ExtTreeMap)

/-! ## Trimming -/

/-- mirrors skywing/skywing_mid/helpers/skynet_config.hpp:67-71 -/
def ltrim (s : Str) : Str := s.dropWhile isSpace

/-- mirrors skywing/skywing_mid/helpers/skynet_config.hpp:77-81 -/
def rtrim (s : Str) : Str := s.rdropWhile isSpace

/-- mirrors skywing/skywing_mid/helpers/skynet_config.hpp:84-86 -/
def rtrim2 (s : Str) (pred : Char → Bool) : Str := s.takeWhile fun ch => !pred ch

def trim (s : Str) : Str := rtrim (ltrim s)

/-! ## The format -/

/-- mirrors skywing/skywing_mid/helpers/skynet_config.hpp:103-134 -/
structure Format where
  charSectionStart : Char := '['
  charSectionEnd : Char := ']'
  charAssign : Char := '='
  charComment : Char := ';'
  charInterpol : Char := '$'
  charInterpolStart : Char := '\x7b'
  charInterpolSep : Char := ':'
  charInterpolEnd : Char := '\x7d'

namespace Format

/-- mirrors skywing/skywing_mid/helpers/skynet_config.hpp:136-138 -/
def localSymbol (f : Format) (name : Str) : Str :=
  f.charInterpol :: f.charInterpolStart :: (name ++ [f.charInterpolEnd])

/-- mirrors skywing/skywing_mid/helpers/skynet_config.hpp:140-142 -/
def globalSymbol (f : Format) (secName name : Str) : Str := f.localSymbol (secName ++ f.charInterpolSep :: name)

end Format

/-! ## Reading -/

abbrev Section := ExtTreeMap Str Str

abbrev Sections := ExtTreeMap Str Section

/-- `format` is the one of the constructor, `Format()`.
mirrors skywing/skywing_mid/helpers/skynet_config.hpp:221-229 -/
structure Config where
  sections : Sections
  errors : List Str

def format : Format := {}

/-- The lines that `std::getline` returns; `cur` is what it has of the next. -/
def getlines : Str → Str → List Str
  | cur, [] => if cur.isEmpty then [] else [cur]
  | cur, ch :: rest => if ch = '\n' then cur :: getlines [] rest else getlines (cur ++ [ch]) rest

/-- The second half of a line with an `=` in it: a new variable of the section
at hand, or one that is there.
mirrors skywing/skywing_mid/helpers/skynet_config.hpp:384-391 -/
def parseValue (s : Config × Str) (line : Str) (pos : Nat) : Config × Str :=
  let var := rtrim (line.take pos)
  let value := ltrim (line.drop (pos + 1))
  let sec := s.1.sections.getD s.2 ∅
  if sec.contains var then ({ s.1 with errors := s.1.errors ++ [line] }, s.2)
  else ({ s.1 with sections := s.1.sections.insert s.2 (sec.insert var value) }, s.2)

/-- A line without the spaces around it; next to what has been read goes the
name of the section at hand.
mirrors skywing/skywing_mid/helpers/skynet_config.hpp:371-395 -/
def parseTrimmed (s : Config × Str) : Str → Config × Str
  | [] => s
  | front :: rest =>
    let line := front :: rest
    let pos := line.findIdx (· == format.charAssign)
    if front = format.charComment then s
    else if front = format.charSectionStart then
      if line.getLast? = some format.charSectionEnd then (s.1, rest.take (line.length - 2))
      else ({ s.1 with errors := s.1.errors ++ [line] }, s.2)
    else if pos ≠ 0 ∧ pos ≠ line.length then parseValue s line pos
    else ({ s.1 with errors := s.1.errors ++ [line] }, s.2)

def parseLine (s : Config × Str) (line : Str) : Config × Str := parseTrimmed s (trim line)

/-- mirrors skywing/skywing_mid/helpers/skynet_config.hpp:362-398 -/
def parse (text : Str) : Config := ((getlines [] text).foldl parseLine (⟨∅, []⟩, [])).1

/-- mirrors skywing/skywing_mid/helpers/skynet_config.hpp:421-428 -/
def stripTrailingComments (c : Config) : Config :=
  { c with sections := c.sections.map fun _ sec => sec.map fun _ v => rtrim (rtrim2 v (· == format.charComment)) }

/-! ## Writing -/

def generateValue (val : Str × Str) : Str := val.1 ++ format.charAssign :: val.2

def generateHeader (name : Str) : Str := format.charSectionStart :: (name ++ [format.charSectionEnd])

/-- The lines of a section, which `generate` ends with `std::endl`. -/
def generateSection (sec : Str × Section) : List Str :=
  generateHeader sec.1 :: sec.2.toList.map generateValue ++ [[]]

/-- mirrors skywing/skywing_mid/helpers/skynet_config.hpp:352-360 -/
def generate (c : Config) : Str := (c.sections.toList.flatMap generateSection).flatMap (· ++ ['\n'])

/-! ## What trimming leaves -/

theorem rtrim_append (s t : Str) : rtrim (s ++ t) = if rtrim t = [] then rtrim s else s ++ rtrim t := by
  unfold rtrim List.rdropWhile
  rw [List.reverse_append, List.dropWhile_append]
  by_cases ht : t.reverse.dropWhile isSpace = []
  · simp [ht]
  · simp [ht]

theorem rtrim_append_cons {ch : Char} (hch : isSpace ch = false) (s t : Str) :
    rtrim (s ++ ch :: t) = s ++ ch :: rtrim t := by
  rw [List.append_cons, rtrim_append]
  split
  · rename_i ht
    rw [ht]
    exact List.rdropWhile_concat_neg _ _ _ (by rw [hch]; exact Bool.false_ne_true)
  · rw [← List.append_cons]

theorem rtrim_cons (ch : Char) (s : Str) :
    rtrim (ch :: s) = if rtrim s = [] then (if isSpace ch then [] else [ch]) else ch :: rtrim s := by
  rw [← List.singleton_append, rtrim_append]
  split
  · exact List.rdropWhile_singleton _ _
  · rfl

/-- Both ends may be trimmed in either order. -/
theorem ltrim_rtrim (s : Str) : ltrim (rtrim s) = trim s := by
  unfold trim
  induction s with
  | nil => rfl
  | cons ch s ih =>
    by_cases hch : isSpace ch = true
    · have hl : ltrim (ch :: s) = ltrim s := List.dropWhile_cons_of_pos hch
      rw [hl, rtrim_cons, if_pos hch, ← ih]
      split
      · rename_i hs
        rw [hs]
      · exact List.dropWhile_cons_of_pos hch
    · have hl (t : Str) : ltrim (ch :: t) = ch :: t := List.dropWhile_cons_of_neg hch
      rw [hl, rtrim_cons, if_neg hch]
      split
      · exact hl []
      · exact hl _

theorem ltrim_ltrim (s : Str) : ltrim (ltrim s) = ltrim s := List.dropWhile_idempotent _ _

theorem rtrim_rtrim (s : Str) : rtrim (rtrim s) = rtrim s := List.rdropWhile_idempotent _ _

theorem ltrim_trim (s : Str) : ltrim (trim s) = trim s := by rw [← ltrim_rtrim, ltrim_ltrim]

theorem rtrim_trim (s : Str) : rtrim (trim s) = trim s := rtrim_rtrim _

theorem trim_trim (s : Str) : trim (trim s) = trim s := by rw [trim, ltrim_trim, rtrim_trim]

theorem mem_of_mem_ltrim {ch : Char} {s : Str} (h : ch ∈ ltrim s) : ch ∈ s := (List.dropWhile_sublist _).mem h

theorem mem_of_mem_rtrim {ch : Char} {s : Str} (h : ch ∈ rtrim s) : ch ∈ s := (List.rdropWhile_prefix _ _).mem h

theorem mem_of_mem_trim {ch : Char} {s : Str} (h : ch ∈ trim s) : ch ∈ s := mem_of_mem_ltrim (mem_of_mem_rtrim h)

theorem head_ltrim {s : Str} (h : ltrim s = s) : ∀ ch ∈ s.head?, isSpace ch = false := by
  cases s with
  | nil => exact nofun
  | cons ch s =>
    intro c hc
    cases hc
    have := List.dropWhile_eq_self_iff.mp h (Nat.succ_pos _)
    simpa using this

theorem head_trim {s : Str} (h : trim s = s) : ∀ ch ∈ s.head?, isSpace ch = false :=
  head_ltrim (by rw [← h, ltrim_trim])

theorem ltrim_cons {ch : Char} (hch : isSpace ch = false) (s : Str) : ltrim (ch :: s) = ch :: s :=
  List.dropWhile_cons_of_neg (by rw [hch]; exact Bool.false_ne_true)

/-! ## Lines -/

theorem getlines_append {line : Str} (h : '\n' ∉ line) (cur rest : Str) :
    getlines cur (line ++ '\n' :: rest) = (cur ++ line) :: getlines [] rest := by
  induction line generalizing cur with
  | nil => simp [getlines]
  | cons ch line ih =>
    obtain ⟨hch, hline⟩ := not_or.mp (mt List.mem_cons.mpr h)
    rw [List.cons_append, getlines, if_neg (Ne.symm hch), ih hline, List.append_assoc, List.singleton_append]

/-- Lines that are ended are read back. -/
theorem getlines_flatMap {ls : List Str} (h : ∀ line ∈ ls, '\n' ∉ line) :
    getlines [] (ls.flatMap (· ++ ['\n'])) = ls := by
  induction ls with
  | nil => rfl
  | cons line ls ih =>
    obtain ⟨hline, hls⟩ := List.forall_mem_cons.mp h
    rw [List.flatMap_cons, List.append_assoc, List.singleton_append, getlines_append hline, ih hls, List.nil_append]

theorem notMem_getlines {text cur : Str} (hcur : '\n' ∉ cur) : ∀ line ∈ getlines cur text, '\n' ∉ line := by
  induction text generalizing cur with
  | nil =>
    unfold getlines
    split
    · exact nofun
    · exact List.forall_mem_singleton.mpr hcur
  | cons ch text ih =>
    unfold getlines
    split
    · exact List.forall_mem_cons.mpr ⟨hcur, ih List.not_mem_nil⟩
    · rename_i hch
      refine ih ?_
      simp only [List.mem_append, List.mem_singleton, not_or]
      exact ⟨hcur, Ne.symm hch⟩

/-! ## One line -/

/-- What can stand before the first `=` of a line. -/
structure Variable (name : Str) : Prop where
  ne_nil : name ≠ []
  ltrim : ltrim name = name
  rtrim : rtrim name = name
  assign : '=' ∉ name
  newline : '\n' ∉ name
  comment : name.head? ≠ some ';'
  section_start : name.head? ≠ some '['

variable {c : Config} {name : Str} {k v : Str}

/-- `k=v`, whatever the spaces about `v`. -/
theorem parseLine_value (hk : Variable k) (v : Str) : parseLine (c, name) (generateValue (k, v)) =
    if (c.sections.getD name ∅).contains k then ({ c with errors := c.errors ++ [generateValue (k, rtrim v)] }, name)
    else ({ c with sections := c.sections.insert name ((c.sections.getD name ∅).insert k (trim v)) }, name) := by
  have hline : trim (generateValue (k, v)) = generateValue (k, rtrim v) := by
    have hl : ltrim (generateValue (k, v)) = generateValue (k, v) := by
      obtain ⟨ch, k', rfl⟩ := List.exists_cons_of_ne_nil hk.ne_nil
      exact ltrim_cons (head_ltrim hk.ltrim ch rfl) _
    rw [trim, hl]
    exact rtrim_append_cons rfl k v
  have hpos : (generateValue (k, rtrim v)).findIdx (· == format.charAssign) = k.length := by
    have hnot : ¬ k.findIdx (· == format.charAssign) < k.length := by
      rw [List.findIdx_lt_length]
      rintro ⟨ch, hch, he⟩
      exact hk.assign ((beq_iff_eq.mp he : ch = '=') ▸ hch)
    show (k ++ format.charAssign :: rtrim v).findIdx _ = _
    rw [List.findIdx_append, if_neg hnot, List.findIdx_cons]
    simp
  have hparts : (generateValue (k, rtrim v)).take k.length = k ∧
      (generateValue (k, rtrim v)).drop (k.length + 1) = rtrim v := by
    constructor
    · exact List.take_left
    · show (k ++ _ :: rtrim v).drop (k.length + 1) = _
      rw [← List.drop_drop, List.drop_left]
      rfl
  have hlen : k.length ≠ (generateValue (k, rtrim v)).length := by
    show k.length ≠ (k ++ _ :: rtrim v).length
    rw [List.length_append, List.length_cons]
    omega
  have hvalue : parseTrimmed (c, name) (generateValue (k, rtrim v)) =
      parseValue (c, name) (generateValue (k, rtrim v)) k.length := by
    obtain ⟨ch, k', rfl⟩ := List.exists_cons_of_ne_nil hk.ne_nil
    show parseTrimmed (c, name) (ch :: (k' ++ format.charAssign :: rtrim v)) = _
    have hcomment : ch ≠ format.charComment := fun he => hk.comment (congrArg some he)
    have hstart : ch ≠ format.charSectionStart := fun he => hk.section_start (congrArg some he)
    simp only [parseTrimmed, if_neg hcomment, if_neg hstart]
    rw [if_pos]
    · exact congrArg _ hpos
    · exact ⟨fun h0 => Nat.succ_ne_zero _ (hpos.symm.trans h0), fun hl => hlen (hpos.symm.trans hl)⟩
  rw [parseLine, hline, hvalue, parseValue, hparts.1, hparts.2, hk.rtrim, ltrim_rtrim]

theorem parseLine_header (name' : Str) : parseLine (c, name') (generateHeader name) = (c, name) := by
  have hline : trim (generateHeader name) = generateHeader name := by
    rw [trim, generateHeader, ltrim_cons rfl]
    exact rtrim_append_cons rfl (format.charSectionStart :: name) []
  have hlast : (format.charSectionStart :: (name ++ [format.charSectionEnd])).getLast? =
    some format.charSectionEnd := by
    rw [← List.cons_append, List.getLast?_concat]
  have hname : (name ++ [format.charSectionEnd]).take
      ((format.charSectionStart :: (name ++ [format.charSectionEnd])).length - 2) = name := by
    rw [List.length_cons, List.length_append]
    exact List.take_left
  rw [parseLine, hline, generateHeader, parseTrimmed, if_neg (by decide), if_pos rfl, if_pos hlast, hname]

/-! ## The lines of a section -/

/-- Values of distinct variables that are new to the section at hand. -/
theorem foldl_values : ∀ {kvs : List (Str × Str)} {c : Config}, (∀ kv ∈ kvs, Variable kv.1) →
    (kvs.map Prod.fst).Nodup → (∀ kv ∈ kvs, (c.sections.getD name ∅).contains kv.1 = false) → kvs ≠ [] →
    (kvs.map generateValue).foldl parseLine (c, name) =
      ({ c with
          sections := c.sections.insert name
            ((c.sections.getD name ∅).insertMany (kvs.map fun kv => (kv.1, trim kv.2))) }, name)
  | [], _, _, _, _, h => absurd rfl h
  | (k, v) :: kvs, c, hvar, hnodup, hnew, _ => by
    obtain ⟨hk, hkvs⟩ := List.forall_mem_cons.mp hvar
    obtain ⟨hknew, hnew⟩ := List.forall_mem_cons.mp hnew
    obtain ⟨hknot, hnodup⟩ := List.nodup_cons.mp hnodup
    rw [List.map_cons, List.foldl_cons, parseLine_value hk, if_neg (by rw [hknew]; exact Bool.false_ne_true),
      List.map_cons, ExtTreeMap.insertMany_cons]
    by_cases hnil : kvs = []
    · subst hnil
      rfl
    · have hsec : (c.sections.insert name ((c.sections.getD name ∅).insert k (trim v))).getD name ∅ =
          (c.sections.getD name ∅).insert k (trim v) := ExtTreeMap.getD_insert_self
      rw [foldl_values hkvs hnodup (fun kv hkv => ?_) hnil, hsec]
      · congr 2
        refine ExtTreeMap.ext_getElem? fun s => ?_
        rw [ExtTreeMap.getElem?_insert, ExtTreeMap.getElem?_insert, ExtTreeMap.getElem?_insert]
        split <;> rfl
      · rw [hsec, ExtTreeMap.contains_insert, hnew kv hkv, Bool.or_false, beq_eq_false_iff_ne]
        rw [Ne, Std.LawfulEqOrd.compare_eq_iff_eq]
        exact fun he => hknot (List.mem_map.mpr ⟨kv, hkv, he.symm⟩)

/-! ## The sections of a file -/

/-- What `generate` can write as lines of its own. -/
structure Printable (name : Str) (sec : Section) : Prop where
  name : '\n' ∉ name
  nonempty : sec ≠ ∅
  keys : ∀ kv ∈ sec.toList, Variable kv.1
  values : ∀ kv ∈ sec.toList, '\n' ∉ kv.2

def trimSection (sec : Section) : Section := sec.map fun _ v => trim v

theorem foldl_section {sec : Section} (h : Printable name sec) (hnew : c.sections.contains name = false) (cur : Str) :
    (generateSection (name, sec)).foldl parseLine (c, cur) =
      ({ c with sections := c.sections.insert name (trimSection sec) }, name) := by
  have hsec : c.sections.getD name ∅ = ∅ := ExtTreeMap.getD_eq_fallback_of_contains_eq_false hnew
  have hvalues : (sec.toList.map fun kv => (kv.1, trim kv.2)) = (trimSection sec).toList :=
    (ExtTreeMap.toList_map (f := fun _ => trim)).symm
  rw [generateSection, List.cons_append, List.foldl_cons, parseLine_header, List.foldl_append,
    foldl_values h.keys (ExtTreeMap.nodup_map_fst_toList sec), hsec, hvalues, ExtTreeMap.insertMany_toList]
  · rfl
  · intro kv _
    rw [hsec]
    exact ExtTreeMap.contains_empty
  · exact fun he => h.nonempty (ExtTreeMap.toList_eq_nil_iff.mp he)

theorem foldl_sections : ∀ {secs : List (Str × Section)} {c : Config} (cur : Str),
    (∀ sec ∈ secs, Printable sec.1 sec.2) → (secs.map Prod.fst).Nodup →
    (∀ sec ∈ secs, c.sections.contains sec.1 = false) →
    ((secs.flatMap generateSection).foldl parseLine (c, cur)).1 =
      { c with sections := c.sections.insertMany (secs.map fun sec => (sec.1, trimSection sec.2)) }
  | [], _, _, _, _, _ => rfl
  | (name, sec) :: secs, c, cur, h, hnodup, hnew => by
    obtain ⟨hsec, hsecs⟩ := List.forall_mem_cons.mp h
    obtain ⟨hsnew, hnew⟩ := List.forall_mem_cons.mp hnew
    obtain ⟨hnot, hnodup⟩ := List.nodup_cons.mp hnodup
    rw [List.flatMap_cons, List.foldl_append, foldl_section hsec hsnew, foldl_sections _ hsecs hnodup,
      List.map_cons, ExtTreeMap.insertMany_cons]
    intro sec' hsec'
    rw [ExtTreeMap.contains_insert, hnew sec' hsec', Bool.or_false, beq_eq_false_iff_ne]
    rw [Ne, Std.LawfulEqOrd.compare_eq_iff_eq]
    exact fun he => hnot (List.mem_map.mpr ⟨sec', hsec', he.symm⟩)

theorem notMem_generateHeader (h : '\n' ∉ name) : '\n' ∉ generateHeader name := by
  have : '\n' ∉ [format.charSectionEnd] := by decide
  have : '\n' ≠ format.charSectionStart := by decide
  simp only [generateHeader, List.mem_cons, List.mem_append]
  tauto

theorem notMem_generateValue (hk : '\n' ∉ k) (hv : '\n' ∉ v) : '\n' ∉ generateValue (k, v) := by
  have : '\n' ≠ format.charAssign := by decide
  simp only [generateValue, List.mem_append, List.mem_cons]
  tauto

theorem notMem_generateSection {sec : Section} (h : Printable name sec) :
    ∀ line ∈ generateSection (name, sec), '\n' ∉ line := by
  intro line hline
  rw [generateSection, List.cons_append, List.mem_cons, List.mem_append, List.mem_singleton] at hline
  obtain rfl | hline | rfl := hline
  · exact notMem_generateHeader h.name
  · obtain ⟨kv, hkv, rfl⟩ := List.mem_map.mp hline
    exact notMem_generateValue (h.keys kv hkv).newline (h.values kv hkv)
  · exact List.not_mem_nil

/-- What is written is read back, with the spaces about the values gone. -/
theorem parse_generate_printable (h : ∀ sec ∈ c.sections.toList, Printable sec.1 sec.2) :
    parse (generate c) = ⟨c.sections.map fun _ sec => trimSection sec, []⟩ := by
  have hlines : ∀ line ∈ c.sections.toList.flatMap generateSection, '\n' ∉ line := by
    intro line hline
    obtain ⟨sec, hsec, hline⟩ := List.mem_flatMap.mp hline
    exact notMem_generateSection (h sec hsec) line hline
  have hvalues : (c.sections.toList.map fun sec => (sec.1, trimSection sec.2)) =
      (c.sections.map fun _ sec => trimSection sec).toList := (ExtTreeMap.toList_map (f := fun _ => trimSection)).symm
  rw [parse, generate, getlines_flatMap hlines, foldl_sections _ h (ExtTreeMap.nodup_map_fst_toList _)
      (fun _ _ => ExtTreeMap.contains_empty),
    hvalues, ExtTreeMap.insertMany_toList]

/-! ## What has been read -/

/-- A variable and its value, as they come from a line. -/
structure Stored (kv : Str × Str) : Prop where
  key : Variable kv.1
  newline : '\n' ∉ kv.2
  trimmed : trim kv.2 = kv.2

/-- A section, as it comes from a file. -/
structure Parsed (sec : Str × Section) : Prop where
  name : '\n' ∉ sec.1
  nonempty : sec.2 ≠ ∅
  stored : ∀ kv ∈ sec.2.toList, Stored kv

theorem Parsed.printable {sec : Str × Section} (h : Parsed sec) : Printable sec.1 sec.2 where
  name := h.name
  nonempty := h.nonempty
  keys kv hkv := (h.stored kv hkv).key
  values kv hkv := (h.stored kv hkv).newline

theorem Parsed.trimSection {sec : Str × Section} (h : Parsed sec) : trimSection sec.2 = sec.2 := by
  refine ExtTreeMap.ext_getElem? fun k => ?_
  rw [ConfigFile.trimSection, ExtTreeMap.getElem?_map]
  cases hk : sec.2[k]? with
  | none => rfl
  | some v => exact congrArg some (h.stored (k, v) (ExtTreeMap.mem_toList_iff_getElem?_eq_some.mpr hk)).trimmed

/-- The line before its first `=`. -/
theorem variable_of_line {front : Char} {rest : Str} (hspace : isSpace front = false)
    (hcomment : front ≠ format.charComment)
    (hstart : front ≠ format.charSectionStart) (hnl : '\n' ∉ front :: rest)
    (hpos : (front :: rest).findIdx (· == format.charAssign) ≠ 0) :
    Variable (rtrim ((front :: rest).take ((front :: rest).findIdx (· == format.charAssign)))) := by
  have hassign : '=' ∉ (front :: rest).take ((front :: rest).findIdx (· == format.charAssign)) := by
    intro hmem
    obtain ⟨i, hi, he⟩ := List.mem_take_iff_getElem.mp hmem
    have := List.not_of_lt_findIdx (Nat.lt_of_lt_of_le hi (Nat.min_le_left _ _))
    exact Bool.false_ne_true (this.symm.trans (beq_iff_eq.mpr he))
  generalize (front :: rest).findIdx (· == format.charAssign) = pos at hpos hassign
  obtain ⟨n, rfl⟩ := Nat.exists_eq_succ_of_ne_zero hpos
  rw [List.take_succ_cons] at hassign ⊢
  have heq : rtrim (front :: rest.take n) = front :: rtrim (rest.take n) := rtrim_append_cons hspace [] _
  exact {
    ne_nil := by rw [heq]; exact List.cons_ne_nil _ _
    ltrim := by rw [heq]; exact ltrim_cons hspace _
    rtrim := rtrim_rtrim _
    assign := fun h => hassign (mem_of_mem_rtrim h)
    newline := fun h => hnl ((List.take_sublist (n + 1) (front :: rest)).mem (mem_of_mem_rtrim h))
    comment := by rw [heq]; exact fun h => hcomment (Option.some.inj h)
    section_start := by rw [heq]; exact fun h => hstart (Option.some.inj h) }

/-- The line after its first `=`. -/
theorem trim_value {str : Str} {pos : Nat} (hstr : rtrim str = str) (hpos : str.findIdx (· == format.charAssign) = pos)
    (hlt : pos < str.length) : trim (ltrim (str.drop (pos + 1))) = ltrim (str.drop (pos + 1)) := by
  have hget : str[pos] = format.charAssign := by
    subst hpos
    exact beq_iff_eq.mp (List.findIdx_getElem (w := hlt))
  have hsplit : str = str.take pos ++ format.charAssign :: str.drop (pos + 1) := by
    rw [← hget, List.getElem_cons_drop, List.take_append_drop]
  have hdrop : rtrim (str.drop (pos + 1)) = str.drop (pos + 1) := by
    have := hstr
    rw [hsplit, rtrim_append_cons rfl] at this
    exact (List.cons.inj (List.append_cancel_left this)).2
  rw [trim, ltrim_ltrim, ← trim, ← ltrim_rtrim, hdrop]

def ParsedAll (sections : Sections) : Prop := ∀ sec ∈ sections.toList, Parsed sec

/-- A new variable of a section. -/
theorem ParsedAll.insert {sections : Sections} (h : ParsedAll sections) (hname : '\n' ∉ name) (hkv : Stored (k, v)) :
    ParsedAll (sections.insert name ((sections.getD name ∅).insert k v)) := by
  have hsec : ∀ kv ∈ (sections.getD name ∅).toList, Stored kv := by
    intro kv hkv
    rw [ExtTreeMap.getD_eq_getD_getElem?] at hkv
    cases hs : sections[name]? with
    | none =>
      rw [hs] at hkv
      exact absurd hkv List.not_mem_nil
    | some sec =>
      rw [hs] at hkv
      exact (h (name, sec) (ExtTreeMap.mem_toList_iff_getElem?_eq_some.mpr hs)).stored kv hkv
  refine ExtTreeMap.forall_mem_insert h ⟨hname, ?_, ExtTreeMap.forall_mem_insert hsec hkv⟩
  exact ExtTreeMap.insert_ne_empty

theorem parseTrimmed_parsed {s : Config × Str} {line : Str} (hline : trim line = line) (hnl : '\n' ∉ line)
    (h : ParsedAll s.1.sections) (hname : '\n' ∉ s.2) :
    ParsedAll (parseTrimmed s line).1.sections ∧ '\n' ∉ (parseTrimmed s line).2 := by
  cases line with
  | nil => exact ⟨h, hname⟩
  | cons front rest =>
    have hspace : isSpace front = false := head_trim hline front rfl
    have hrtrim : rtrim (front :: rest) = front :: rest := by rw [← hline, rtrim_trim]
    simp only [parseTrimmed]
    split_ifs with hcomment hstart hend hpos
    · exact ⟨h, hname⟩
    · exact ⟨h, fun hmem => hnl (List.mem_cons_of_mem _ ((List.take_sublist _ _).mem hmem))⟩
    · exact ⟨h, hname⟩
    · simp only [parseValue]
      split_ifs
      · exact ⟨h, hname⟩
      · refine ⟨h.insert hname ⟨variable_of_line hspace hcomment hstart hnl hpos.1, fun hmem => hnl ?_, ?_⟩, hname⟩
        · exact (List.drop_sublist _ _).mem (mem_of_mem_ltrim hmem)
        · exact trim_value hrtrim rfl (Nat.lt_of_le_of_ne List.findIdx_le_length hpos.2)
    · exact ⟨h, hname⟩

theorem parseLine_parsed {s : Config × Str} {line : Str} (hnl : '\n' ∉ line) (h : ParsedAll s.1.sections)
    (hname : '\n' ∉ s.2) : ParsedAll (parseLine s line).1.sections ∧ '\n' ∉ (parseLine s line).2 :=
  parseTrimmed_parsed (trim_trim line) (fun hmem => hnl (mem_of_mem_trim hmem)) h hname

theorem foldl_parsed {lines : List Str} : ∀ {s : Config × Str}, (∀ line ∈ lines, '\n' ∉ line) →
    ParsedAll s.1.sections → '\n' ∉ s.2 → ParsedAll (lines.foldl parseLine s).1.sections := by
  induction lines with
  | nil => exact fun _ h _ => h
  | cons line lines ih =>
    intro s hlines h hname
    obtain ⟨hline, hlines⟩ := List.forall_mem_cons.mp hlines
    obtain ⟨h, hname⟩ := parseLine_parsed hline h hname
    exact ih hlines h hname

theorem parse_parsed (text : Str) : ParsedAll (parse text).sections :=
  foldl_parsed (notMem_getlines List.not_mem_nil) (fun _ hsec => absurd hsec List.not_mem_nil) List.not_mem_nil

theorem trim_stripped (h : trim v = v) : trim (rtrim (rtrim2 v (· == format.charComment))) =
    rtrim (rtrim2 v (· == format.charComment)) := by
  have hltrim : ltrim (rtrim2 v (· == format.charComment)) = rtrim2 v (· == format.charComment) := by
    cases v with
    | nil => rfl
    | cons ch v =>
      have hspace : isSpace ch = false := head_trim h ch rfl
      rw [rtrim2, List.takeWhile_cons]
      split
      · exact ltrim_cons hspace _
      · rfl
  have htrim : rtrim (rtrim2 v (· == format.charComment)) = trim (rtrim2 v (· == format.charComment)) := by
    rw [trim, hltrim]
  rw [htrim, trim_trim]

theorem stripTrailingComments_parsed (h : ParsedAll c.sections) : ParsedAll (stripTrailingComments c).sections := by
  refine ExtTreeMap.forall_mem_map fun sec hsec => ⟨(h sec hsec).name, ?_, ?_⟩
  · exact fun he => (h sec hsec).nonempty (ExtTreeMap.map_eq_empty_iff.mp he)
  · refine ExtTreeMap.forall_mem_map fun kv hkv => ?_
    have hstored := (h sec hsec).stored kv hkv
    exact ⟨hstored.key, fun hmem => hstored.newline ((List.takeWhile_sublist _).mem (mem_of_mem_rtrim hmem)),
      trim_stripped hstored.trimmed⟩

theorem parse_generate_parsed (h : ParsedAll c.sections) : parse (generate c) = ⟨c.sections, []⟩ := by
  rw [parse_generate_printable fun sec hsec => (h sec hsec).printable]
  congr 1
  refine ExtTreeMap.ext_getElem? fun name => ?_
  rw [ExtTreeMap.getElem?_map]
  cases hname : c.sections[name]? with
  | none => rfl
  | some sec => exact congrArg some (h (name, sec) (ExtTreeMap.mem_toList_iff_getElem?_eq_some.mpr hname)).trimSection

end Skywing.L1.ConfigFile
