import Mathlib.Data.List.Induction
import Mathlib.Data.List.TakeWhile
import Skywing.L1Encoding.Text

/-!
# Which addresses are read

`split_address` (`skywing_core/internal/devices/socket_communicator.cpp`) takes
the text before the first colon as the host and hands what follows to
`strtol`. The text is a view: `strtol` stops where the memory behind it makes
it stop, and the port is accepted when that is the view's end. `strtol` also
skips blanks, takes a sign, and reads nothing at all where there is no number,
which at an empty port is the view's end too.

Results:
* `strtol_cases`: a number (`Numeral`) is read as far as its digits go, and
  nothing is read where no number begins.
* `splitAddressView_eq_iff`: what is accepted.
* `splitAddress_iff`: where this is `ip:port` and nothing else, and that the
  addresses of neighbours come back.
-/
namespace Skywing.L1.Text

/-! ## Numbers as `strtol` reads them -/

inductive Sign
  | none
  | plus
  | minus
  deriving DecidableEq, Repr

def Sign.text : Sign → Str
  | none => []
  | plus => ['+']
  | minus => ['-']

def Sign.of : Sign → Nat → Int
  | minus, n => -n
  | _, n => n

def decimal (digits : Str) : Nat := Nat.ofDigitChars 10 digits 0

structure Numeral where
  blanks : Str
  sign : Sign
  digits : Str
  isSpace_blanks : ∀ c ∈ blanks, isSpace c = true
  digits_ne : digits ≠ []
  isDigit_digits : ∀ c ∈ digits, c.isDigit = true

namespace Numeral

def text (n : Numeral) : Str := n.blanks ++ (n.sign.text ++ n.digits)

def value (n : Numeral) : Int := n.sign.of (decimal n.digits)

/-- With further digits. -/
def extend (n : Numeral) (more : Str) (h : ∀ c ∈ more, c.isDigit = true) : Numeral where
  blanks := n.blanks
  sign := n.sign
  digits := n.digits ++ more
  isSpace_blanks := n.isSpace_blanks
  digits_ne := List.append_ne_nil_of_left_ne_nil n.digits_ne more
  isDigit_digits := List.forall_mem_append.mpr ⟨n.isDigit_digits, h⟩

theorem text_extend (n : Numeral) (more : Str) (h : ∀ c ∈ more, c.isDigit = true) :
    (n.extend more h).text = n.text ++ more := by
  simp [text, extend]

end Numeral

def StartsWithDigit (s : Str) : Prop := ∃ c ∈ s.head?, c.isDigit = true

/-- `LONG_MIN` to `LONG_MAX`. -/
def clamp (value : Int) : Int := max (-2 ^ 63) (min (2 ^ 63 - 1) value)

theorem ofDigits_reverse (digits : Str) :
    Nat.ofDigits 10 (digits.map fun c => c.toNat - '0'.toNat).reverse = decimal digits := by
  induction digits using List.reverseRecOn with
  | nil => rfl
  | append_singleton digits c ih =>
    have hdec : decimal (digits ++ [c]) = 10 * decimal digits + (c.toNat - '0'.toNat) := by
      simp [decimal, Nat.ofDigitChars_eq_foldl]
    rw [hdec, List.map_append, List.reverse_append, List.map_singleton, List.reverse_singleton, List.singleton_append,
      Nat.ofDigits_cons, ih]
    simp [Nat.add_comm]

/-- `strtol` behind the sign; `str` is what it was called with. -/
def strtolDigits (str s : Str) (sign : Sign) : Int × Str :=
  if s.takeWhile Char.isDigit = [] then (0, str)
  else (clamp (sign.of (decimal (s.takeWhile Char.isDigit))), s.dropWhile Char.isDigit)

/-- `s` is a sign and `rest`. -/
structure Signed (s : Str) (sign : Sign) (rest : Str) : Prop where
  eq : s = sign.text ++ rest
  plain : sign = .none → ∀ c ∈ rest.head?, c ≠ '-' ∧ c ≠ '+'

theorem exists_signed (s : Str) : ∃ sign rest, Signed s sign rest := by
  by_cases hplain : ∀ c ∈ s.head?, c ≠ '-' ∧ c ≠ '+'
  · exact ⟨.none, s, rfl, fun _ => hplain⟩
  · push Not at hplain
    obtain ⟨c, hc, hsign⟩ := hplain
    obtain ⟨rest, rfl⟩ := List.head?_eq_some_iff.mp hc
    by_cases hminus : c = '-'
    · subst hminus
      exact ⟨.minus, rest, rfl, nofun⟩
    · obtain rfl := hsign hminus
      exact ⟨.plus, rest, rfl, nofun⟩

theorem strtol_eq {str rest : Str} {sign : Sign} (h : Signed (str.dropWhile isSpace) sign rest) :
    strtol str = strtolDigits str rest sign := by
  have hunsigned (s : Str) {k : Int} {sign : Sign} (hk : ∀ n : Nat, k * n = sign.of n) :
      (if (s.takeWhile Char.isDigit).isEmpty then (0, str)
        else (max (-2 ^ 63) (min (2 ^ 63 - 1)
          (k * Nat.ofDigits 10 ((s.takeWhile Char.isDigit).map fun c => c.toNat - '0'.toNat).reverse)),
            s.dropWhile Char.isDigit)) = strtolDigits str s sign := by
    have hdigits : Nat.ofDigits 10 ((s.takeWhile Char.isDigit).map fun c => c.toNat - '0'.toNat).reverse =
        (decimal (s.takeWhile Char.isDigit) : Int) := by
      rw [← ofDigits_reverse]
      exact (Nat.coe_ofDigits Int 10 _).symm
    rw [hdigits, hk]
    simp only [strtolDigits, clamp, List.isEmpty_iff]
  unfold strtol
  dsimp only
  rw [h.eq]
  cases sign with
  | minus => exact hunsigned rest fun n => neg_one_mul (n : Int)
  | plus => exact hunsigned rest fun n => one_mul (n : Int)
  | none =>
    rw [Sign.text, List.nil_append]
    split
    · exact absurd rfl (h.plain rfl '-' rfl).1
    · exact absurd rfl (h.plain rfl '+' rfl).2
    · exact hunsigned rest fun n => one_mul (n : Int)

theorem takeWhile_digits {ds rest : Str} (hd : ∀ c ∈ ds, c.isDigit = true) (h : ¬ StartsWithDigit rest) :
    (ds ++ rest).takeWhile Char.isDigit = ds ∧ (ds ++ rest).dropWhile Char.isDigit = rest := by
  rw [List.takeWhile_append_of_pos hd, List.dropWhile_append_of_pos hd]
  cases rest with
  | nil => exact ⟨List.append_nil ds, rfl⟩
  | cons c rest =>
    have hc : ¬ c.isDigit = true := fun hc => h ⟨c, rfl, hc⟩
    rw [List.takeWhile_cons_of_neg hc, List.dropWhile_cons_of_neg hc, List.append_nil]
    exact ⟨rfl, rfl⟩

theorem strtolDigits_digits {ds rest : Str} (str : Str) (sign : Sign) (hne : ds ≠ [])
    (hd : ∀ c ∈ ds, c.isDigit = true) (h : ¬ StartsWithDigit rest) :
    strtolDigits str (ds ++ rest) sign = (clamp (sign.of (decimal ds)), rest) := by
  obtain ⟨htake, hdrop⟩ := takeWhile_digits hd h
  rw [strtolDigits, htake, hdrop, if_neg hne]

theorem not_isSpace {c : Char} (h : c.isDigit = true) : ¬ isSpace c = true := by
  intro hs
  simp only [isSpace, List.mem_cons, List.not_mem_nil, or_false, decide_eq_true_eq] at hs
  rcases hs with rfl | rfl | rfl | rfl | rfl | rfl <;> exact absurd h (by decide)

theorem Numeral.strtol (n : Numeral) {rest : Str} (h : ¬ StartsWithDigit rest) :
    Text.strtol (n.text ++ rest) = (clamp n.value, rest) := by
  obtain ⟨blanks, sign, ds, hblanks, hne, hd⟩ := n
  obtain ⟨d, ds', rfl⟩ := List.exists_cons_of_ne_nil hne
  have hdigit : d.isDigit = true := hd d List.mem_cons_self
  have hsigned : Signed ((blanks ++ (sign.text ++ (d :: ds' ++ rest))).dropWhile isSpace) sign (d :: ds' ++ rest) := by
    rw [List.dropWhile_append_of_pos hblanks]
    refine ⟨?_, fun _ c hc => ?_⟩
    · cases sign with
      | none => exact List.dropWhile_cons_of_neg (not_isSpace hdigit)
      | _ => rfl
    · obtain rfl := Option.some.inj hc
      constructor
      · rintro rfl
        exact absurd hdigit (by decide)
      · rintro rfl
        exact absurd hdigit (by decide)
  simp only [text, value, List.append_assoc]
  rw [strtol_eq hsigned]
  exact strtolDigits_digits _ sign hne hd h

/-- A number begins here. -/
def StartsWithNumeral (s : Str) : Prop := ∃ (n : Numeral) (rest : Str), s = n.text ++ rest

theorem not_startsWithDigit_dropWhile (s : Str) : ¬ StartsWithDigit (s.dropWhile Char.isDigit) := by
  intro hex
  obtain ⟨c, hc, hdigit⟩ := hex
  have hnot := List.head?_dropWhile_not Char.isDigit s
  rw [Option.mem_def.mp hc] at hnot
  exact Bool.noConfusion (hdigit.symm.trans hnot)

/-- A number goes on to the last of its digits. -/
theorem StartsWithNumeral.exists_rest {s : Str} (h : StartsWithNumeral s) :
    ∃ (n : Numeral) (rest : Str), s = n.text ++ rest ∧ ¬ StartsWithDigit rest := by
  obtain ⟨n, rest, rfl⟩ := h
  refine ⟨n.extend (rest.takeWhile Char.isDigit) fun c hc => List.mem_takeWhile_imp hc, rest.dropWhile Char.isDigit, ?_,
    not_startsWithDigit_dropWhile rest⟩
  rw [Numeral.text_extend, List.append_assoc, List.takeWhile_append_dropWhile]

theorem strtolDigits_of_not {str s : Str} {sign : Sign} (h : ¬ StartsWithNumeral str)
    (hs : str.dropWhile isSpace = sign.text ++ s) : strtolDigits str s sign = (0, str) := by
  by_cases hd : s.takeWhile Char.isDigit = []
  · rw [strtolDigits, if_pos hd]
  · let n : Numeral :=
      { blanks := str.takeWhile isSpace
        sign := sign
        digits := s.takeWhile Char.isDigit
        isSpace_blanks := fun c hc => List.mem_takeWhile_imp hc
        digits_ne := hd
        isDigit_digits := fun c hc => List.mem_takeWhile_imp hc }
    refine absurd ⟨n, s.dropWhile Char.isDigit, ?_⟩ h
    calc str = str.takeWhile isSpace ++ (sign.text ++ s) := by rw [← hs, List.takeWhile_append_dropWhile]
      _ = n.text ++ s.dropWhile Char.isDigit := by simp [n, Numeral.text]

theorem strtol_cases (str : Str) :
    (∃ (n : Numeral) (rest : Str), str = n.text ++ rest ∧ ¬ StartsWithDigit rest ∧ strtol str = (clamp n.value, rest)) ∨
      ¬ StartsWithNumeral str ∧ strtol str = (0, str) := by
  by_cases h : StartsWithNumeral str
  · obtain ⟨n, rest, rfl, hrest⟩ := h.exists_rest
    exact .inl ⟨n, rest, rfl, hrest, n.strtol hrest⟩
  · refine .inr ⟨h, ?_⟩
    obtain ⟨sign, rest, hsigned⟩ := exists_signed (str.dropWhile isSpace)
    rw [strtol_eq hsigned]
    exact strtolDigits_of_not h hsigned.eq

/-! ## The view of an address -/

/-- `after` is what stands behind the view in memory, up to the NUL that ends
it; behind a `std::string` it is empty.
mirrors skywing/skywing_core/internal/devices/socket_communicator.cpp:282-297 -/
def splitAddressView (address after : Str) : AddrPort :=
  if ':' ∉ address then ([], 0)
  else
    let portStr := (address.dropWhile (· ≠ ':')).drop 1
    let (port, unread) := strtol (portStr ++ after)
    if unread.length ≠ after.length ∨ port < 0 ∨ port > 0xFFFF then ([], 0)
    else (address.takeWhile (· ≠ ':'), UInt16.ofNat port.toNat)

theorem splitAddress_eq (address : Str) : splitAddress address = splitAddressView address [] := by
  unfold splitAddress splitAddressView
  simp only [List.append_nil]
  cases strtol ((address.dropWhile (· ≠ ':')).drop 1) with
  | mk port unread => simp [or_assoc]

/-- The port that is read of the text `t` in a view. -/
def PortRead (t after : Str) (port : UInt16) : Prop :=
  t = [] ∧ ¬ StartsWithNumeral after ∧ port = 0 ∨
    ∃ n : Numeral, t = n.text ∧ ¬ StartsWithDigit after ∧ n.value = port.toNat

theorem clamp_of_port {value : Int} (h₀ : 0 ≤ clamp value) (h₁ : clamp value ≤ 0xFFFF) : clamp value = value := by
  unfold clamp at h₀ h₁ ⊢
  omega

theorem clamp_port (port : UInt16) : clamp port.toNat = port.toNat := by
  have hlt := port.toNat_lt
  unfold clamp
  omega

theorem portRead_iff (t after : Str) (port : UInt16) : PortRead t after port ↔
    (strtol (t ++ after)).2.length = after.length ∧ 0 ≤ (strtol (t ++ after)).1 ∧ (strtol (t ++ after)).1 ≤ 0xFFFF ∧
      UInt16.ofNat (strtol (t ++ after)).1.toNat = port := by
  constructor
  · intro h
    rcases h with ⟨rfl, hnot, rfl⟩ | ⟨n, rfl, hafter, hvalue⟩
    · rw [List.nil_append]
      rcases strtol_cases after with ⟨n, rest, hn, -, -⟩ | ⟨-, heq⟩
      · exact absurd ⟨n, rest, hn⟩ hnot
      · simp [heq]
    · have hlt := port.toNat_lt
      rw [n.strtol hafter, hvalue, clamp_port]
      exact ⟨rfl, by omega, by omega, UInt16.ofNat_toNat⟩
  · intro h
    obtain ⟨hlen, h₀, h₁, hport⟩ := h
    rcases strtol_cases (t ++ after) with ⟨n, rest, hn, hrest, heq⟩ | ⟨hnot, heq⟩
    · rw [heq] at hlen h₀ h₁ hport
      obtain ⟨rfl, rfl⟩ := List.append_inj' hn hlen.symm
      refine .inr ⟨n, rfl, hrest, ?_⟩
      have hvalue := clamp_of_port h₀ h₁
      dsimp only at h₀ h₁ hport
      rw [hvalue] at h₀ h₁ hport
      rw [← hport, UInt16.toNat_ofNat']
      omega
    · rw [heq] at hlen hport
      have ht : t = [] := by simpa using hlen
      subst ht
      exact .inl ⟨rfl, hnot, hport.symm⟩

theorem takeWhile_host {host : Str} (t : Str) (h : ':' ∉ host) :
    (host ++ ':' :: t).takeWhile (· ≠ ':') = host ∧ ((host ++ ':' :: t).dropWhile (· ≠ ':')).drop 1 = t := by
  have hhost : ∀ c ∈ host, decide (c ≠ ':') = true := by
    intro c hc
    rw [decide_eq_true_eq]
    rintro rfl
    exact h hc
  rw [List.takeWhile_append_of_pos hhost, List.dropWhile_append_of_pos hhost]
  simp

theorem splitAddressView_colon {host : Str} (t after : Str) (h : ':' ∉ host) :
    splitAddressView (host ++ ':' :: t) after =
      if (strtol (t ++ after)).2.length = after.length ∧ 0 ≤ (strtol (t ++ after)).1 ∧ (strtol (t ++ after)).1 ≤ 0xFFFF
      then (host, UInt16.ofNat (strtol (t ++ after)).1.toNat) else ([], 0) := by
  obtain ⟨htake, hdrop⟩ := takeWhile_host t h
  have hmem : ¬ ':' ∉ host ++ ':' :: t := not_not.mpr (List.mem_append_right host List.mem_cons_self)
  rw [splitAddressView, if_neg hmem]
  dsimp only
  rw [htake, hdrop]
  split <;> split <;> first | rfl | omega

/-- A text is divided at its first colon in one way. -/
theorem host_unique {host host' t t' : Str} (h : ':' ∉ host) (h' : ':' ∉ host')
    (heq : host ++ ':' :: t = host' ++ ':' :: t') : host = host' ∧ t = t' := by
  obtain ⟨htake, hdrop⟩ := takeWhile_host t h
  obtain ⟨htake', hdrop'⟩ := takeWhile_host t' h'
  rw [heq] at htake hdrop
  exact ⟨htake.symm.trans htake', hdrop.symm.trans hdrop'⟩

/-- What is accepted. -/
theorem splitAddressView_eq_iff {address after host : Str} {port : UInt16} (hne : host ≠ []) :
    splitAddressView address after = (host, port) ↔
      ∃ t, address = host ++ ':' :: t ∧ ':' ∉ host ∧ PortRead t after port := by
  constructor
  · intro heq
    by_cases hcolon : ':' ∈ address
    · obtain ⟨before, t, rfl, hbefore⟩ := List.eq_append_cons_of_mem hcolon
      rw [splitAddressView_colon t after hbefore] at heq
      split at heq
      · rename_i hread
        obtain ⟨rfl, hport⟩ := Prod.mk.inj heq
        exact ⟨t, rfl, hbefore, (portRead_iff t after port).mpr ⟨hread.1, hread.2.1, hread.2.2, hport⟩⟩
      · exact absurd (Prod.mk.inj heq).1.symm hne
    · rw [splitAddressView, if_pos hcolon] at heq
      exact absurd (Prod.mk.inj heq).1.symm hne
  · intro hex
    obtain ⟨t, rfl, hhost, hread⟩ := hex
    obtain ⟨hlen, h₀, h₁, hport⟩ := (portRead_iff t after port).mp hread
    rw [splitAddressView_colon t after hhost, if_pos ⟨hlen, h₀, h₁⟩, hport]

/-! ## `ip:port` -/

/-- A port in digits. -/
def IsPort (digits : Str) (port : Nat) : Prop :=
  digits ≠ [] ∧ (∀ c ∈ digits, c.isDigit = true) ∧ decimal digits = port ∧ port ≤ 65535

def IsIpPort (address host : Str) (port : Nat) : Prop :=
  ∃ digits, address = host ++ ':' :: digits ∧ IsPort digits port ∧ host ≠ [] ∧ ':' ∉ host

/-- A host and a port are returned for `ip:port`, and else no host. -/
def ReadExactly (address after : Str) : Prop :=
  (∀ host port, host ≠ [] → (splitAddressView address after = (host, port) ↔ IsIpPort address host port.toNat)) ∧
    ((∀ host port, ¬ IsIpPort address host port) → (splitAddressView address after).1 = [])

/-- The texts behind the first colon that are taken for a port and are none,
and the ports that are not taken for one. -/
inductive Misread (t after : Str) : Prop
  | empty (ht : t = []) (hafter : ¬ StartsWithNumeral after)
  | decorated (n : Numeral) (ht : t = n.text) (hn : n.blanks ≠ [] ∨ n.sign ≠ .none) (h₀ : 0 ≤ n.value)
      (h₁ : n.value ≤ 65535) (hafter : ¬ StartsWithDigit after)
  | goesOn (port : Nat) (ht : IsPort t port) (hafter : StartsWithDigit after)

/-- A port in digits as a number. -/
def IsPort.numeral {digits : Str} {port : Nat} (h : IsPort digits port) : Numeral where
  blanks := []
  sign := .none
  digits := digits
  isSpace_blanks := nofun
  digits_ne := h.1
  isDigit_digits := h.2.1

theorem IsPort.portRead {digits after : Str} {port : UInt16} (h : IsPort digits port.toNat)
    (hafter : ¬ StartsWithDigit after) : PortRead digits after port := by
  refine .inr ⟨h.numeral, rfl, hafter, ?_⟩
  exact congrArg Nat.cast h.2.2.1

/-- Blanks and signs are no digits. -/
theorem Numeral.not_isPort {n : Numeral} {port : Nat} (h : n.blanks ≠ [] ∨ n.sign ≠ .none) : ¬ IsPort n.text port := by
  intro hport
  have hall := hport.2.1
  obtain ⟨blanks, sign, ds, hblanks, hne, hd⟩ := n
  simp only [text, List.forall_mem_append] at hall
  rcases h with h | h
  · obtain ⟨b, blanks', rfl⟩ := List.exists_cons_of_ne_nil h
    exact not_isSpace (hall.1 b List.mem_cons_self) (hblanks b List.mem_cons_self)
  · cases sign with
    | none => exact h rfl
    | plus => exact absurd (hall.2.1 '+' (List.mem_singleton_self _)) (by decide)
    | minus => exact absurd (hall.2.1 '-' (List.mem_singleton_self _)) (by decide)

/-- Otherwise exactly the ports are read. -/
theorem not_misread_iff (t after : Str) :
    ¬ Misread t after ↔ ∀ port : UInt16, PortRead t after port ↔ IsPort t port.toNat := by
  constructor
  · intro hmis port
    constructor
    · intro hread
      rcases hread with ⟨hnil, hafter, -⟩ | ⟨n, ht, hafter, hvalue⟩
      · exact absurd (.empty hnil hafter) hmis
      · have hlt := port.toNat_lt
        have hplain : n.blanks = [] ∧ n.sign = .none := by
          by_contra hdec
          refine hmis (.decorated n ht ?_ (by omega) (by omega) hafter)
          rwa [not_and_or] at hdec
        have htext : n.text = n.digits := by
          rw [Numeral.text, hplain.1, hplain.2]
          rfl
        have hdec : decimal n.digits = port.toNat := by
          rw [Numeral.value, hplain.2] at hvalue
          exact Int.ofNat.inj hvalue
        rw [ht, htext]
        exact ⟨n.digits_ne, n.isDigit_digits, hdec, by omega⟩
    · intro hport
      exact hport.portRead fun hafter => hmis (.goesOn _ hport hafter)
  · intro hexact hmis
    cases hmis with
    | empty ht hafter => exact ((hexact 0).mp (.inl ⟨ht, hafter, rfl⟩)).1 ht
    | decorated n ht hn h₀ h₁ hafter =>
      have hvalue : n.value = (UInt16.ofNat n.value.toNat).toNat := by
        rw [UInt16.toNat_ofNat']
        omega
      have hport := (hexact _).mp (.inr ⟨n, ht, hafter, hvalue⟩)
      rw [ht] at hport
      exact Numeral.not_isPort hn hport
    | goesOn port ht hafter =>
      have hle := ht.2.2.2
      have hport : IsPort t (UInt16.ofNat port).toNat := by
        rwa [UInt16.toNat_ofNat', Nat.mod_eq_of_lt (by omega)]
      rcases (hexact _).mpr hport with ⟨hnil, -, -⟩ | ⟨-, -, hnot, -⟩
      · exact ht.1 hnil
      · exact hnot hafter

theorem readExactly_iff (address after : Str) : ReadExactly address after ↔
    ∀ host t, address = host ++ ':' :: t → host ≠ [] → ':' ∉ host → ¬ Misread t after := by
  constructor
  · intro h host t heq hne hhost
    rw [not_misread_iff]
    intro port
    have hiff := h.1 host port hne
    rw [splitAddressView_eq_iff hne] at hiff
    constructor
    · intro hread
      obtain ⟨digits, heq', hport, -, -⟩ := hiff.mp ⟨t, heq, hhost, hread⟩
      rwa [(host_unique hhost hhost (heq.symm.trans heq')).2]
    · intro hport
      obtain ⟨t', heq', -, hread⟩ := hiff.mpr ⟨t, heq, hport, hne, hhost⟩
      rwa [(host_unique hhost hhost (heq.symm.trans heq')).2]
  · intro h
    have hiff : ∀ host port, host ≠ [] →
        (splitAddressView address after = (host, port) ↔ IsIpPort address host port.toNat) := by
      intro host port hne
      rw [splitAddressView_eq_iff hne]
      constructor
      · intro hex
        obtain ⟨t, heq, hhost, hread⟩ := hex
        exact ⟨t, heq, ((not_misread_iff t after).mp (h host t heq hne hhost) port).mp hread, hne, hhost⟩
      · intro hex
        obtain ⟨t, heq, hport, -, hhost⟩ := hex
        exact ⟨t, heq, hhost, ((not_misread_iff t after).mp (h host t heq hne hhost) port).mpr hport⟩
    refine ⟨hiff, fun hnone => ?_⟩
    by_contra hne
    exact hnone _ _ ((hiff _ (splitAddressView address after).2 hne).mp rfl)

example : splitAddressView ['h', ':', ' ', '8', '0'] [] = (['h'], 80) := by decide

theorem isPort_portString (port : UInt16) : IsPort (portString port) port.toNat := by
  refine ⟨Nat.toDigits_ne_nil, fun c hc => ?_, Nat.ofDigitChars_ten_toDigits, ?_⟩
  · exact Nat.isDigit_of_mem_toDigits (by omega) (le_refl 10) hc
  · have hlt := port.toNat_lt
    omega

theorem splitAddressView_addressString {host : Str} (port : UInt16) (h : ':' ∉ host) :
    splitAddressView (addressString (host, port)) [] = (host, port) := by
  have hread : PortRead (portString port) [] port := (isPort_portString port).portRead nofun
  obtain ⟨hlen, h₀, h₁, hport⟩ := (portRead_iff _ _ _).mp hread
  rw [addressString, splitAddressView_colon _ _ h, if_pos ⟨hlen, h₀, h₁⟩, hport]

/-- **`split_address` accepts exactly `ip:port`, but for a port that is empty
or has blanks or a sign in front, and but for a view that ends between two
digits.** The address of every neighbour is read back. -/
theorem splitAddress_iff (address after host : Str) (port : UInt16) (hhost : ':' ∉ host) :
    (ReadExactly address after ↔
      ∀ h t, address = h ++ ':' :: t → h ≠ [] → ':' ∉ h → ¬ Misread t after) ∧
    splitAddressView (addressString (host, port)) [] = (host, port) :=
  ⟨readExactly_iff address after, splitAddressView_addressString port hhost⟩

theorem splitAddress_local : (ReadExactly ['h', ':', '8'] [] ↔
      ∀ h t, ['h', ':', '8'] = h ++ ':' :: t → h ≠ [] → ':' ∉ h → ¬ Misread t []) ∧
    splitAddressView (addressString (['h'], 8)) [] = (['h'], 8) :=
  splitAddress_iff ['h', ':', '8'] [] ['h'] 8 (by decide)

/-- A host, a colon and no port. -/
theorem not_readExactly : ¬ ∀ address after, ReadExactly address after := by
  intro h
  have hport : splitAddressView ['h', ':'] [] = (['h'], 0) := by decide
  obtain ⟨digits, heq, ⟨hne, -⟩, -⟩ := ((h ['h', ':'] []).1 ['h'] 0 (by decide)).mp hport
  have hdigits : digits = [] := (List.cons.inj (List.cons.inj heq).2).2.symm
  exact hne hdigits

end Skywing.L1.Text
