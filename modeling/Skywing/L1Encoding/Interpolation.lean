import Skywing.Core.Templates
import Skywing.L1Encoding.ConfigFile

/-!
# Interpolation of a configuration

`Config::interpolate`: a value may refer to a variable of its own section as
`${name}` and to any other as `${section:name}`. The local symbols are
replaced by global ones, and these by the values, in at most eleven rounds over
the whole configuration. `interpolate_solves`: where the values are texts with
references, and references nest less than 2 ^ 11 deep, every variable gets the
value that the configuration, read as a system of equations, assigns to it.
-/
namespace Skywing.L1.Interpolation

open Std (ExtTreeMap)
open ConfigFile

/-! ## The code -/

/-- `skip` characters of an occurrence are still to come; `old` is not empty. -/
def replaceFrom (old new : Str) : Nat → Str → Str × Bool
  | _, [] => ([], false)
  | skip + 1, _ :: str => replaceFrom old new skip str
  | 0, ch :: str =>
    if old <+: ch :: str then (new ++ (replaceFrom old new (old.length - 1) str).1, true)
    else (ch :: (replaceFrom old new 0 str).1, (replaceFrom old new 0 str).2)

/-- mirrors skywing/skywing_mid/helpers/skynet_config.hpp:88-97 -/
def replace (str old new : Str) : Str × Bool := replaceFrom old new 0 str

abbrev Symbols := List (Str × Str)

/-- mirrors skywing/skywing_mid/helpers/skynet_config.hpp:438-443 -/
def localSymbols (secName : Str) (sec : Section) : Symbols :=
  sec.toList.map fun val => (format.localSymbol val.1, format.globalSymbol secName val.1)

/-- mirrors skywing/skywing_mid/helpers/skynet_config.hpp:445-452 -/
def globalSymbols (sections : Sections) : Symbols :=
  sections.toList.flatMap fun sec => sec.2.toList.map fun val => (format.globalSymbol sec.1 val.1, val.2)

/-- One symbol in all values; next to the section stands whether there is a
change. -/
def replaceSymbol (r : Section × Bool) (sym : Str × Str) : Section × Bool :=
  (r.1.map fun _ v => (replace v sym.1 sym.2).1, r.2 || r.1.toList.any fun val => (replace val.2 sym.1 sym.2).2)

/-- mirrors skywing/skywing_mid/helpers/skynet_config.hpp:454-460 -/
def replaceSymbols (syms : Symbols) (sec : Section) : Section × Bool := syms.foldl replaceSymbol (sec, false)

def interpolateLocal (sections : Sections) : Sections :=
  sections.map fun name sec => (replaceSymbols (localSymbols name sec) sec).1

def interpolateGlobal (sections : Sections) : Sections × Bool :=
  (sections.map fun _ sec => (replaceSymbols (globalSymbols sections) sec).1,
    sections.toList.any fun sec => (replaceSymbols (globalSymbols sections) sec.2).2)

def maxInterpolationDepth : Nat := 10

/-- The loop that replaces the global symbols, with `depth` rounds left after
the next. -/
def rounds : Nat → Sections → Sections
  | 0, sections => (interpolateGlobal sections).1
  | depth + 1, sections =>
    if (interpolateGlobal sections).2 then rounds depth (interpolateGlobal sections).1
    else (interpolateGlobal sections).1

/-- mirrors skywing/skywing_mid/helpers/skynet_config.hpp:400-413 -/
def interpolate (c : Config) : Config :=
  { c with sections := rounds maxInterpolationDepth (interpolateLocal c.sections) }

/-- The constructor of `Config`.
mirrors skywing/skywing_mid/helpers/skynet_config.hpp:233-238 -/
def load (text : Str) : Config := interpolate (stripTrailingComments (parse text))

/-! ## One replacement -/

variable {old new str s : Str} {ch : Char}

theorem replaceFrom_length (old new : Str) :
    ∀ s str : Str, replaceFrom old new s.length (s ++ str) = replace str old new
  | [], _ => rfl
  | _ :: s, str => replaceFrom_length old new s str

theorem replace_cons_of_not (h : ¬ old <+: ch :: str) :
    replace (ch :: str) old new = (ch :: (replace str old new).1, (replace str old new).2) := by
  rw [replace, replaceFrom, if_neg h]
  rfl

theorem replace_append (hold : old ≠ []) : replace (old ++ str) old new = (new ++ (replace str old new).1, true) := by
  obtain ⟨ch, old', rfl⟩ := List.exists_cons_of_ne_nil hold
  have hpre : ch :: old' <+: ch :: (old' ++ str) := List.prefix_append _ _
  rw [List.cons_append, replace, replaceFrom, if_pos hpre]
  exact congrArg (fun r => (new ++ Prod.fst r, true)) (replaceFrom_length _ _ old' str)

/-- Characters that are not the first of the symbol stay. -/
theorem replace_skip {first : Char} {old' : Str} (h : first ∉ s) : replace (s ++ str) (first :: old') new =
    (s ++ (replace str (first :: old') new).1, (replace str (first :: old') new).2) := by
  induction s with
  | nil => rfl
  | cons ch s ih =>
    obtain ⟨hch, hs⟩ := not_or.mp (mt List.mem_cons.mpr h)
    rw [List.cons_append, replace_cons_of_not fun hpre => hch (List.cons_prefix_cons.mp hpre).1, ih hs]
    rfl

theorem replace_unchanged : ∀ {str : Str}, (replace str old new).2 = false → (replace str old new).1 = str
  | [], _ => rfl
  | ch :: str, h => by
    by_cases hpre : old <+: ch :: str
    · rw [replace, replaceFrom, if_pos hpre] at h
      cases h
    · rw [replace_cons_of_not hpre] at h ⊢
      exact congrArg _ (replace_unchanged h)

theorem mem_replaceFrom {c : Char} : ∀ {str : Str} {skip : Nat},
    c ∈ (replaceFrom old new skip str).1 → c ∈ str ∨ c ∈ new
  | [], _, h => absurd h (by rw [replaceFrom]; exact List.not_mem_nil)
  | _ :: _, _ + 1, h => by
    rw [replaceFrom] at h
    exact (mem_replaceFrom h).imp_left (List.mem_cons_of_mem _)
  | ch :: str, 0, h => by
    rw [replaceFrom] at h
    split at h
    · exact (List.mem_append.mp h).elim .inr fun h => (mem_replaceFrom h).imp_left (List.mem_cons_of_mem _)
    · obtain rfl | h := List.mem_cons.mp h
      · exact .inl List.mem_cons_self
      · exact (mem_replaceFrom h).imp_left (List.mem_cons_of_mem _)

/-! ## The symbols of a section -/

def replaceAll (syms : Symbols) (v : Str) : Str := syms.foldl (fun v sym => (replace v sym.1 sym.2).1) v

theorem replaceSymbols_eq (syms : Symbols) (sec : Section) :
    (replaceSymbols syms sec).1 = sec.map fun _ v => replaceAll syms v := by
  unfold replaceSymbols
  generalize false = changed
  induction syms generalizing sec changed with
  | nil => exact (ExtTreeMap.map_id).symm
  | cons sym syms ih =>
    rw [List.foldl_cons, replaceSymbol, ih, ExtTreeMap.map_map]
    rfl

theorem replaceSymbol_unchanged {r : Section × Bool} {sym : Str × Str} (h : (replaceSymbol r sym).2 = false) :
    r.2 = false ∧ (replaceSymbol r sym).1 = r.1 := by
  obtain ⟨hr, hany⟩ := Bool.or_eq_false_iff.mp h
  refine ⟨hr, ExtTreeMap.ext_getElem? fun k => ?_⟩
  rw [replaceSymbol, ExtTreeMap.getElem?_map]
  cases hk : r.1[k]? with
  | none => rfl
  | some v =>
    have hmem : (k, v) ∈ r.1.toList := ExtTreeMap.mem_toList_iff_getElem?_eq_some.mpr hk
    exact congrArg some (replace_unchanged (Bool.eq_false_of_not_eq_true (List.any_eq_false.mp hany _ hmem)))

theorem foldl_unchanged {syms : Symbols} {r : Section × Bool} (h : (syms.foldl replaceSymbol r).2 = false) :
    r.2 = false ∧ (syms.foldl replaceSymbol r).1 = r.1 := by
  induction syms generalizing r with
  | nil => exact ⟨h, rfl⟩
  | cons sym syms ih =>
    obtain ⟨hsym, hfold⟩ := ih h
    obtain ⟨hr, heq⟩ := replaceSymbol_unchanged hsym
    exact ⟨hr, hfold.trans heq⟩

theorem interpolateGlobal_unchanged {sections : Sections} (h : (interpolateGlobal sections).2 = false) :
    (interpolateGlobal sections).1 = sections := by
  refine ExtTreeMap.ext_getElem? fun name => ?_
  rw [interpolateGlobal, ExtTreeMap.getElem?_map]
  cases hname : sections[name]? with
  | none => rfl
  | some sec =>
    have hmem : (name, sec) ∈ sections.toList := ExtTreeMap.mem_toList_iff_getElem?_eq_some.mpr hname
    exact congrArg some (foldl_unchanged (Bool.eq_false_of_not_eq_true (List.any_eq_false.mp h _ hmem))).2

/-- The rounds after one without a change make none either. -/
theorem rounds_eq (depth : ℕ) (sections : Sections) :
    rounds depth sections = (fun s => (interpolateGlobal s).1)^[depth + 1] sections := by
  induction depth generalizing sections with
  | zero => rfl
  | succ depth ih =>
    rw [rounds, Function.iterate_succ_apply]
    split
    · exact ih _
    · rename_i h
      have hfix := interpolateGlobal_unchanged (Bool.eq_false_of_not_eq_true h)
      rw [hfix]
      exact (Function.iterate_fixed hfix _).symm

/-! ## Writing what is interpolated -/

def PrintableAll (sections : Sections) : Prop := ∀ sec ∈ sections.toList, Printable sec.1 sec.2

theorem notMem_replaceAll {syms : Symbols} (hsyms : ∀ sym ∈ syms, ch ∉ sym.2) (hs : ch ∉ s) :
    ch ∉ replaceAll syms s := by
  induction syms generalizing s with
  | nil => exact hs
  | cons sym syms ih =>
    obtain ⟨hsym, hsyms⟩ := List.forall_mem_cons.mp hsyms
    exact ih hsyms fun h => (mem_replaceFrom h).elim hs hsym

theorem printable_replace {syms : Symbols} {sec : Str × Section} (h : Printable sec.1 sec.2)
    (hsyms : ∀ sym ∈ syms, '\n' ∉ sym.2) : Printable sec.1 (replaceSymbols syms sec.2).1 := by
  rw [replaceSymbols_eq]
  exact {
    name := h.name
    nonempty := fun he => h.nonempty (ExtTreeMap.map_eq_empty_iff.mp he)
    keys := ExtTreeMap.forall_mem_map h.keys
    values := ExtTreeMap.forall_mem_map fun val hval => notMem_replaceAll hsyms (h.values val hval) }

theorem printable_local {sections : Sections} (h : PrintableAll sections) :
    PrintableAll (interpolateLocal sections) := by
  refine ExtTreeMap.forall_mem_map fun sec hsec => printable_replace (h sec hsec) ?_
  refine List.forall_mem_map.mpr fun val hval => ?_
  have hname := (h sec hsec).name
  have hvar := ((h sec hsec).keys val hval).newline
  simp only [Format.globalSymbol, Format.localSymbol, List.mem_cons, List.mem_append, List.not_mem_nil,
    or_false, not_or]
  exact ⟨by decide, by decide, ⟨hname, by decide, hvar⟩, by decide⟩

theorem printable_global {sections : Sections} (h : PrintableAll sections) :
    PrintableAll (interpolateGlobal sections).1 := by
  refine ExtTreeMap.forall_mem_map fun sec hsec => printable_replace (h sec hsec) fun sym hsym => ?_
  obtain ⟨sec', hsec', hsym⟩ := List.mem_flatMap.mp hsym
  obtain ⟨val, hval, rfl⟩ := List.mem_map.mp hsym
  exact (h sec' hsec').values val hval

theorem printable_rounds {depth : ℕ} {sections : Sections} (h : PrintableAll sections) :
    PrintableAll (rounds depth sections) := by
  induction depth generalizing sections with
  | zero => exact printable_global h
  | succ depth ih =>
    unfold rounds
    split
    · exact ih (printable_global h)
    · exact printable_global h

/-- A file that is read, with its trailing comments or without them, is
written as one that reads back the same, and without an error. So is one that
is interpolated too, but for the spaces about its values. -/
theorem written_again (text : Str) : parse (generate (parse text)) = ⟨(parse text).sections, []⟩ ∧
    parse (generate (stripTrailingComments (parse text))) = ⟨(stripTrailingComments (parse text)).sections, []⟩ ∧
    parse (generate (load text)) = ⟨(load text).sections.map fun _ sec => sec.map fun _ v => trim v, []⟩ := by
  have hparse := parse_parsed text
  have hstrip := stripTrailingComments_parsed hparse
  refine ⟨parse_generate_parsed hparse, parse_generate_parsed hstrip, parse_generate_printable ?_⟩
  exact printable_rounds (printable_local fun sec hsec => (hstrip sec hsec).printable)

/-! ## Symbols -/

/-- A variable of the section at hand, or of the one that is named. -/
inductive Ref
  | loc (name : Str)
  | glob (secName name : Str)
deriving DecidableEq

namespace Ref

def symbol : Ref → Str
  | loc name => format.localSymbol name
  | glob secName name => format.globalSymbol secName name

def names : Ref → List Str
  | loc name => [name]
  | glob secName name => [secName, name]

/-- None of the characters that make a symbol is in the name. -/
def PlainName (name : Str) : Prop := ∀ ch ∈ name, ch ≠ '$' ∧ ch ≠ ':' ∧ ch ≠ '\x7d'

instance : DecidablePred PlainName := fun name => List.decidableBAll _ name

def Plain (ref : Ref) : Prop := ∀ name ∈ ref.names, PlainName name

instance : DecidablePred Plain := fun ref => List.decidableBAll _ ref.names

/-- What stands between the braces. -/
def body : Ref → Str
  | loc name => name
  | glob secName name => secName ++ ':' :: name

theorem symbol_eq (ref : Ref) : ref.symbol = '$' :: '\x7b' :: (ref.body ++ ['\x7d']) := by cases ref <;> rfl

theorem notMem_body {ref : Ref} (h : ref.Plain) : '$' ∉ ref.body ∧ '\x7d' ∉ ref.body := by
  cases ref with
  | loc name =>
    have hname := h name List.mem_cons_self
    exact ⟨fun hmem => (hname _ hmem).1 rfl, fun hmem => (hname _ hmem).2.2 rfl⟩
  | glob secName name =>
    have hsec := h secName List.mem_cons_self
    have hname := h name (List.mem_cons_of_mem _ List.mem_cons_self)
    simp only [body, List.mem_append, List.mem_cons, not_or]
    exact ⟨⟨fun hmem => (hsec _ hmem).1 rfl, by decide, fun hmem => (hname _ hmem).1 rfl⟩,
      fun hmem => (hsec _ hmem).2.2 rfl, by decide, fun hmem => (hname _ hmem).2.2 rfl⟩

theorem notMem_tail {ref : Ref} (h : ref.Plain) : '$' ∉ '\x7b' :: (ref.body ++ ['\x7d']) := by
  simp only [List.mem_cons, List.mem_append, List.not_mem_nil, or_false, not_or]
  exact ⟨by decide, (notMem_body h).1, by decide⟩

theorem body_inj {ref ref' : Ref} (h : ref.Plain) (h' : ref'.Plain) (hbody : ref.body = ref'.body) : ref = ref' := by
  have hcolon {ref : Ref} (h : ref.Plain) : ∀ name ∈ ref.names, ':' ∉ name :=
    fun name hname hmem => (h name hname _ hmem).2.1 rfl
  have hmem (secName name : Str) : ':' ∈ (glob secName name).body := List.mem_append_right _ List.mem_cons_self
  cases ref with
  | loc name =>
    cases ref' with
    | loc name' => exact congrArg loc hbody
    | glob secName' name' =>
      have hname : ':' ∈ name := (congrArg (':' ∈ ·) hbody).mpr (hmem secName' name')
      exact absurd hname (hcolon h name List.mem_cons_self)
  | glob secName name =>
    cases ref' with
    | loc name' =>
      have hname : ':' ∈ name' := (congrArg (':' ∈ ·) hbody).mp (hmem secName name)
      exact absurd hname (hcolon h' name' List.mem_cons_self)
    | glob secName' name' =>
      have hparts := (List.append_cons_inj_of_notMem (hcolon h' secName' List.mem_cons_self)
        (hcolon h' name' (List.mem_cons_of_mem _ List.mem_cons_self))).mp hbody.symm
      rw [hparts.1, hparts.2.2]

/-- Of two symbols at the same place the one is the other. -/
theorem symbol_prefix {ref ref' : Ref} (h : ref.Plain) (h' : ref'.Plain) {rest : Str}
    (hpre : ref.symbol <+: ref'.symbol ++ rest) : ref = ref' := by
  have htake {ref : Ref} (h : ref.Plain) (rest : Str) :
      (ref.body ++ '\x7d' :: rest).takeWhile (· != '\x7d') = ref.body := by
    rw [List.takeWhile_append_of_pos, List.takeWhile_cons_of_neg (by decide), List.append_nil]
    exact fun ch hch => bne_iff_ne.mpr fun he => (notMem_body h).2 (he ▸ hch)
  obtain ⟨rest', he⟩ := hpre
  rw [symbol_eq, symbol_eq] at he
  have hbody : ref.body ++ '\x7d' :: rest' = ref'.body ++ '\x7d' :: rest := by
    simpa using (List.cons.inj (List.cons.inj he).2).2
  exact body_inj h h' (by rw [← htake h rest', hbody, htake h' rest])

end Ref

/-! ## Values as templates -/

abbrev Value := Template Char Ref

def render (t : Value) : Str := Template.meaning Ref.symbol t

/-- A character of a text begins no symbol. -/
def Tame : Char ⊕ Ref → Prop
  | .inl ch => ch ≠ '$'
  | .inr ref => ref.Plain

instance : DecidablePred Tame
  | .inl ch => inferInstanceAs (Decidable (ch ≠ '$'))
  | .inr ref => inferInstanceAs (Decidable ref.Plain)

theorem replace_render {t : Value} {ref : Ref} (ht : ∀ p ∈ t, Tame p) (href : ref.Plain) (q : Value) :
    (replace (render t) ref.symbol (render q)).1 = render (Template.subst ref q t) := by
  induction t with
  | nil => rfl
  | cons p t ih =>
    obtain ⟨hp, hts⟩ := List.forall_mem_cons.mp ht
    cases p with
    | inl ch =>
      have hskip : '$' ∉ [ch] := fun h => hp (List.mem_singleton.mp h).symm
      rw [Template.subst_text]
      show (replace ([ch] ++ render t) ref.symbol (render q)).1 = ch :: render (Template.subst ref q t)
      rw [Ref.symbol_eq, replace_skip hskip, ← Ref.symbol_eq, ih hts]
      rfl
    | inr ref' =>
      have ih := ih hts
      unfold render at ih ⊢
      rw [Template.subst_ref, Template.meaning_append, ← ih, Template.meaning_ref]
      by_cases he : ref' = ref
      · subst he
        rw [if_pos rfl, replace_append (by rw [Ref.symbol_eq]; exact List.cons_ne_nil _ _)]
      · rw [if_neg he, Template.meaning_ref, Template.meaning_nil, List.append_nil]
        have hnot : ¬ ref.symbol <+: ref'.symbol ++ Template.meaning Ref.symbol t :=
          fun hpre => he (Ref.symbol_prefix href hp hpre).symm
        have htail := Ref.notMem_tail hp
        rw [Ref.symbol_eq ref', List.cons_append] at hnot ⊢
        rw [replace_cons_of_not hnot, Ref.symbol_eq ref, replace_skip htail]
        rfl

theorem replaceAll_render {E : Ref → Value} {ks : List Ref} (hks : ∀ k ∈ ks, k.Plain)
    (hE : ∀ k ∈ ks, ∀ p ∈ E k, Tame p) {t : Value} (ht : ∀ p ∈ t, Tame p) :
    replaceAll (ks.map fun k => (k.symbol, render (E k))) (render t) = render (Template.substAll E ks t) := by
  induction ks generalizing t with
  | nil => rfl
  | cons k ks ih =>
    obtain ⟨hk, hks⟩ := List.forall_mem_cons.mp hks
    have hE1 : ∀ j ∈ [k], ∀ p ∈ E j, Tame p := List.forall_mem_singleton.mpr (hE k List.mem_cons_self)
    have ht' : ∀ p ∈ Template.subst k (E k) t, Tame p := Template.forall_mem_substAll hE1 ht
    show replaceAll _ (replace (render t) k.symbol (render (E k))).1 = _
    rw [replace_render ht hk]
    exact ih hks (fun j hj => hE j (List.mem_cons_of_mem _ hj)) ht'

/-! ## The configuration as equations -/

/-- All variables, in the order of the global symbols. -/
def globals (sections : Sections) : List Ref :=
  sections.toList.flatMap fun sec => sec.2.toList.map fun val => .glob sec.1 val.1

/-- The same variables with other values. -/
def assign (sections : Sections) (V : Ref → Str) : Sections :=
  sections.map fun name sec => sec.map fun var _ => V (.glob name var)

/-- What a reference in section `secName` is one to, where the variables are `keys`. -/
def resolve (keys : List Ref) (secName : Str) : Ref → Ref
  | .loc name => if .glob secName name ∈ keys then .glob secName name else .loc name
  | .glob sec name => .glob sec name

variable {sections : Sections} {V V' : Ref → Str} {T E : Ref → Value}

theorem glob_mem_globals {sec : Str × Section} {val : Str × Str} (hsec : sec ∈ sections.toList)
    (hval : val ∈ sec.2.toList) : .glob sec.1 val.1 ∈ globals sections :=
  List.mem_flatMap.mpr ⟨sec, hsec, List.mem_map.mpr ⟨val, hval, rfl⟩⟩

theorem assign_congr (h : ∀ k ∈ globals sections, V k = V' k) : assign sections V = assign sections V' :=
  ExtTreeMap.map_congr_mem fun _ hsec => ExtTreeMap.map_congr_mem fun _ hval => h _ (glob_mem_globals hsec hval)

theorem assign_self (h : ∀ sec ∈ sections.toList, ∀ val ∈ sec.2.toList, val.2 = V (.glob sec.1 val.1)) :
    assign sections V = sections := by
  refine Eq.trans (ExtTreeMap.map_congr_mem fun sec hsec => ?_) ExtTreeMap.map_id
  refine Eq.trans (ExtTreeMap.map_congr_mem fun val hval => ?_) ExtTreeMap.map_id
  exact (h sec hsec val hval).symm

theorem globalSymbols_assign : globalSymbols (assign sections V) = (globals sections).map fun k => (k.symbol, V k) := by
  unfold globalSymbols globals assign
  rw [ExtTreeMap.toList_map, List.flatMap_map, List.map_flatMap]
  refine List.flatMap_congr fun sec _ => ?_
  rw [ExtTreeMap.toList_map, List.map_map, List.map_map]
  rfl

theorem interpolateGlobal_assign (hkeys : ∀ k ∈ globals sections, k.Plain)
    (hE : ∀ k ∈ globals sections, ∀ p ∈ E k, Tame p) :
    (interpolateGlobal (assign sections fun k => render (E k))).1 =
      assign sections fun k => render (Template.round (globals sections) E k) := by
  simp only [interpolateGlobal, replaceSymbols_eq, globalSymbols_assign]
  unfold assign
  rw [ExtTreeMap.map_map]
  refine ExtTreeMap.map_congr_mem fun sec hsec => ?_
  rw [ExtTreeMap.map_map]
  refine ExtTreeMap.map_congr_mem fun val hval => ?_
  exact replaceAll_render hkeys hE (hE _ (glob_mem_globals hsec hval))

theorem iterate_assign (hkeys : ∀ k ∈ globals sections, k.Plain) (n : ℕ)
    (hE : ∀ k ∈ globals sections, ∀ p ∈ E k, Tame p) :
    (fun s => (interpolateGlobal s).1)^[n] (assign sections fun k => render (E k)) =
      assign sections fun k => render ((Template.round (globals sections))^[n] E k) := by
  induction n generalizing E with
  | zero => rfl
  | succ n ih =>
    rw [Function.iterate_succ_apply, Function.iterate_succ_apply, interpolateGlobal_assign hkeys hE,
      ih (Template.forall_mem_round hE)]

/-! ### Local symbols -/

def locals (sec : Section) : List Ref := sec.toList.map fun val => .loc val.1

def globalize (secName : Str) : Ref → Ref
  | .loc name => .glob secName name
  | .glob sec name => .glob sec name

theorem localSymbols_map (name : Str) (sec : Section) (f : Str → Str → Str) : localSymbols name (sec.map f) =
    (locals sec).map fun k => (k.symbol, render [.inr (globalize name k)]) := by
  unfold localSymbols locals
  rw [ExtTreeMap.toList_map, List.map_map, List.map_map]
  refine List.map_congr_left fun val _ => ?_
  exact congrArg (Prod.mk _) (List.append_nil _).symm

theorem mem_globals_iff {sec : Str × Section} (hsec : sec ∈ sections.toList) (name : Str) :
    .glob sec.1 name ∈ globals sections ↔ .loc name ∈ locals sec.2 := by
  constructor
  · intro h
    obtain ⟨sec', hsec', h⟩ := List.mem_flatMap.mp h
    obtain ⟨val, hval, he⟩ := List.mem_map.mp h
    obtain ⟨hname, rfl⟩ := Ref.glob.inj he
    have hsame : sec'.2 = sec.2 := by
      rw [ExtTreeMap.mem_toList_iff_getElem?_eq_some] at hsec hsec'
      rw [hname, hsec] at hsec'
      exact (Option.some.inj hsec').symm
    exact List.mem_map.mpr ⟨val, hsame ▸ hval, rfl⟩
  · intro h
    obtain ⟨val, hval, he⟩ := List.mem_map.mp h
    cases he
    exact glob_mem_globals hsec hval

theorem resolve_eq {sec : Str × Section} (hsec : sec ∈ sections.toList) (k : Ref) :
    (if k ∈ locals sec.2 then globalize sec.1 k else k) = resolve (globals sections) sec.1 k := by
  cases k with
  | loc name => exact if_congr (mem_globals_iff hsec name).symm rfl rfl
  | glob secName name => exact ite_self _

/-- The template of a variable once the local symbols are gone. -/
def localized (keys : List Ref) (T : Ref → Value) : Ref → Value
  | .loc name => T (.loc name)
  | .glob sec name => (T (.glob sec name)).map (Sum.map id (resolve keys sec))

theorem interpolateLocal_assign (hkeys : ∀ k ∈ globals sections, k.Plain)
    (hT : ∀ k ∈ globals sections, ∀ p ∈ T k, Tame p) :
    interpolateLocal (assign sections fun k => render (T k)) =
      assign sections fun k => render (localized (globals sections) T k) := by
  simp only [interpolateLocal, replaceSymbols_eq]
  unfold assign
  rw [ExtTreeMap.map_map]
  refine ExtTreeMap.map_congr_mem fun sec hsec => ?_
  rw [ExtTreeMap.map_map]
  refine ExtTreeMap.map_congr_mem fun val hval => ?_
  have hlocals : ∀ k ∈ locals sec.2, k.Plain ∧ (globalize sec.1 k).Plain ∧ globalize sec.1 k ∉ locals sec.2 := by
    intro k hk
    obtain ⟨val', hval', rfl⟩ := List.mem_map.mp hk
    have hplain := hkeys _ (glob_mem_globals hsec hval')
    refine ⟨fun n hn => hplain n (List.mem_cons_of_mem _ hn), hplain, fun h => ?_⟩
    obtain ⟨_, _, he⟩ := List.mem_map.mp h
    cases he
  have hE : ∀ k ∈ locals sec.2, ∀ p ∈ ([.inr (globalize sec.1 k)] : Value), Tame p :=
    fun k hk => List.forall_mem_singleton.mpr (hlocals k hk).2.1
  have hval := glob_mem_globals hsec hval
  rw [localSymbols_map]
  refine (replaceAll_render (fun k hk => (hlocals k hk).1) hE (hT _ hval)).trans ?_
  rw [Template.substAll_rename (fun _ _ => rfl) fun k hk => (hlocals k hk).2.2]
  exact congrArg (fun g => render ((T (.glob sec.1 val.1)).map (Sum.map id g))) (funext (resolve_eq hsec))

/-! ### Values that solve the equations -/

/-- A configuration whose values are texts with references. -/
structure Written (sections : Sections) (T : Ref → Value) : Prop where
  value : ∀ sec ∈ sections.toList, ∀ val ∈ sec.2.toList, val.2 = render (T (.glob sec.1 val.1))
  keys : ∀ k ∈ globals sections, k.Plain
  tame : ∀ k ∈ globals sections, ∀ p ∈ T k, Tame p

/-- What each variable stands for: its template with the variables replaced
by what they stand for. A symbol of no variable is text. -/
structure Solves (sections : Sections) (T : Ref → Value) (W : Ref → Str) : Prop where
  known : ∀ sec name, .glob sec name ∈ globals sections →
    W (.glob sec name) = Template.meaning (fun ref => W (resolve (globals sections) sec ref)) (T (.glob sec name))
  unknown : ∀ ref ∉ globals sections, W ref = ref.symbol

/-- A variable ranks above those that it refers to. -/
def Ranked (sections : Sections) (T : Ref → Value) (rank : Ref → ℕ) : Prop :=
  ∀ sec name, .glob sec name ∈ globals sections → ∀ ref, .inr ref ∈ T (.glob sec name) →
    resolve (globals sections) sec ref ∈ globals sections →
    rank (resolve (globals sections) sec ref) < rank (.glob sec name)

theorem exists_glob {k : Ref} (h : k ∈ globals sections) : ∃ sec name, k = .glob sec name := by
  obtain ⟨sec, _, h⟩ := List.mem_flatMap.mp h
  obtain ⟨val, _, rfl⟩ := List.mem_map.mp h
  exact ⟨_, _, rfl⟩

theorem tame_localized (h : Written sections T) :
    ∀ k ∈ globals sections, ∀ p ∈ localized (globals sections) T k, Tame p := by
  intro k hk p hp
  obtain ⟨sec, name, rfl⟩ := exists_glob hk
  obtain ⟨q, hq, rfl⟩ := List.mem_map.mp hp
  have htame := h.tame _ hk q hq
  cases q with
  | inl ch => exact htame
  | inr ref =>
    cases ref with
    | glob sec' name' => exact htame
    | loc name' =>
      show (resolve (globals sections) sec (.loc name')).Plain
      by_cases hmem : .glob sec name' ∈ globals sections
      · rw [resolve, if_pos hmem]
        exact h.keys _ hmem
      · rw [resolve, if_neg hmem]
        exact htame

/-- Where references nest less than 2 ^ 11 deep, every variable gets the value
that the equations of the configuration assign to it. -/
theorem interpolate_solves {c : Config} {W : Ref → Str} {rank : Ref → ℕ} (hT : Written c.sections T)
    (hW : Solves c.sections T W) (hrank : Ranked c.sections T rank)
    (hdeep : ∀ k ∈ globals c.sections, rank k < 2 ^ 11) :
    (interpolate c).sections = assign c.sections W := by
  have hmeaning : ∀ k ∈ globals c.sections,
      Template.meaning W (localized (globals c.sections) T k) = W k := by
    intro k hk
    obtain ⟨sec, name, rfl⟩ := exists_glob hk
    exact (Template.meaning_map _ _).trans (hW.known sec name hk).symm
  have hfar : ∀ k ∈ globals c.sections, Template.Far (globals c.sections) rank 1 (rank k)
      (localized (globals c.sections) T k) := by
    intro k hk j hj hmem
    obtain ⟨sec, name, rfl⟩ := exists_glob hk
    obtain ⟨p, hp, he⟩ := List.mem_map.mp hmem
    cases p with
    | inl ch => cases he
    | inr ref =>
      cases Sum.inr.inj he
      exact hrank sec name hk ref hp hj
  have hdone : ∀ k ∈ globals c.sections, render ((Template.round (globals c.sections))^[maxInterpolationDepth + 1]
      (localized (globals c.sections) T) k) = W k :=
    Template.iterate_round hmeaning hW.unknown hfar hdeep
  have hlocal := interpolateLocal_assign hT.keys hT.tame
  rw [assign_self hT.value] at hlocal
  rw [interpolate]
  dsimp only
  rw [hlocal, rounds_eq, iterate_assign hT.keys _ (tame_localized hT)]
  exact assign_congr hdone

/-- A log file that is named after a machine. -/
def logText : Str := "[log]\nfile=$\x7bnet:name\x7d.log\n[net]\nid=4\nname=n$\x7bid\x7d\n".toList

def logTemplate : Ref → Value
  | .glob _ name =>
    if name = "file".toList then .inr (.glob "net".toList "name".toList) :: ".log".toList.map .inl
    else if name = "name".toList then [.inl 'n', .inr (.loc "id".toList)]
    else [.inl '4']
  | .loc _ => []

def logValue (ref : Ref) : Str :=
  if ref = .glob "log".toList "file".toList then "n4.log".toList
  else if ref = .glob "net".toList "name".toList then "n4".toList
  else if ref = .glob "net".toList "id".toList then "4".toList
  else ref.symbol

def logRank (ref : Ref) : ℕ := (logValue ref).length

def logGlobals : List Ref :=
  [.glob "log".toList "file".toList, .glob "net".toList "id".toList, .glob "net".toList "name".toList]

theorem globals_log : globals (parse logText).sections = logGlobals := by decide

theorem written_log : Written (parse logText).sections logTemplate where
  value := by decide
  keys := by
    rw [globals_log]
    decide
  tame := by
    rw [globals_log]
    decide

theorem solves_log : Solves (parse logText).sections logTemplate logValue where
  known := by
    rw [globals_log]
    intro sec name h
    obtain h | h | h : _ ∨ _ ∨ _ := by simpa [logGlobals] using h
    all_goals
      obtain ⟨rfl, rfl⟩ := h
      decide
  unknown := by
    rw [globals_log]
    intro ref h
    simp only [logGlobals, List.mem_cons, List.not_mem_nil, or_false, not_or] at h
    rw [logValue, if_neg h.1, if_neg h.2.2, if_neg h.2.1]

theorem interpolate_log : (interpolate (parse logText)).sections = assign (parse logText).sections logValue := by
  have hrank : Ranked (parse logText).sections logTemplate logRank := by
    have hall : ∀ k ∈ logGlobals, ∀ p ∈ logTemplate k, ∀ ref ∈ p.getRight?, ∀ sec ∈ k.names.head?,
        resolve logGlobals sec ref ∈ logGlobals → logRank (resolve logGlobals sec ref) < logRank k := by decide
    unfold Ranked
    rw [globals_log]
    exact fun sec name h ref href => hall _ h _ href ref rfl sec rfl
  refine interpolate_solves written_log solves_log hrank ?_
  rw [globals_log]
  decide

end Skywing.L1.Interpolation
