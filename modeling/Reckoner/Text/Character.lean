/-!
Kinds of characters. Blanks are the ASCII blanks, the four information separators, and the space
characters of Unicode. Decimal digits are those of all scripts. Letters make the identifiers of
expressions, and the names of options and levels have a case.
-/

namespace Reckoner.Text

/-! ### Blanks -/

def isBlank (c : Char) : Bool :=
  let code := c.toNat
  (0x9 ≤ code && code ≤ 0xD) || (0x1C ≤ code && code ≤ 0x20) || code == 0x85 || code == 0xA0
    || code == 0x1680 || (0x2000 ≤ code && code ≤ 0x200A) || code == 0x2028 || code == 0x2029
    || code == 0x202F || code == 0x205F || code == 0x3000

/-- A text without the characters of a kind at both ends. -/
def strip (kind : Char → Bool) (cs : List Char) : List Char :=
  ((cs.dropWhile kind).reverse.dropWhile kind).reverse

/-- A text without the blanks at both ends. -/
def trim (s : String) : String := String.ofList (strip isBlank s.toList)

/-! ### Digits -/

namespace DecimalDigit

/-- The code point of every digit zero; each script has its ten digits in a row. -/
def zeros : List Nat :=
  [0x30, 0x660, 0x6F0, 0x7C0, 0x966, 0x9E6, 0xA66, 0xAE6, 0xB66, 0xBE6, 0xC66, 0xCE6, 0xD66, 0xDE6,
    0xE50, 0xED0, 0xF20, 0x1040, 0x1090, 0x17E0, 0x1810, 0x1946, 0x19D0, 0x1A80, 0x1A90, 0x1B50,
    0x1BB0, 0x1C40, 0x1C50, 0xA620, 0xA8D0, 0xA900, 0xA9D0, 0xA9F0, 0xAA50, 0xABF0, 0xFF10, 0x104A0,
    0x10D30, 0x11066, 0x110F0, 0x11136, 0x111D0, 0x112F0, 0x11450, 0x114D0, 0x11650, 0x116C0,
    0x11730, 0x118E0, 0x11950, 0x11C50, 0x11D50, 0x11DA0, 0x16A60, 0x16AC0, 0x16B50, 0x1D7CE,
    0x1D7D8, 0x1D7E2, 0x1D7EC, 0x1D7F6, 0x1E140, 0x1E2F0, 0x1E950, 0x1FBF0]

/-- The value of a decimal digit. -/
def value? (c : Char) : Option Nat :=
  (zeros.find? fun first => first ≤ c.toNat && c.toNat < first + 10).map (c.toNat - ·)

/-- The digit that writes `n` in ASCII. -/
def ofValue (n : Nat) : Char := Char.ofNat (0x30 + n)

end DecimalDigit

/-! ### Letters -/

/-- Whether an identifier may start with the character. -/
def isNameStart (c : Char) : Bool := c.isAlpha || c == '_'

/-- Whether an identifier may go on with the character. -/
def isNamePart (c : Char) : Bool := c.isAlphanum || c == '_'

/-- Whether the characters are one identifier. -/
def isName : List Char → Bool
  | [] => false
  | c :: cs => isNameStart c && cs.all isNamePart

theorem isNamePart_of_isNameStart {c : Char} (h : isNameStart c) : isNamePart c := by
  have halphanum : c.isAlphanum = (c.isAlpha || c.isDigit) := rfl
  simp only [isNameStart, isNamePart, halphanum, Bool.or_eq_true] at h ⊢
  exact h.imp_left .inl

theorem isNamePart_of_isName {cs : List Char} (h : isName cs) : ∀ c ∈ cs, isNamePart c := by
  cases cs with
  | nil => exact List.forall_mem_nil _
  | cons c cs =>
    obtain ⟨hc, hcs⟩ := Bool.and_eq_true_iff.1 h
    exact List.forall_mem_cons.2 ⟨isNamePart_of_isNameStart hc, List.all_eq_true.1 hcs⟩

/-- The capital form of a character, as far as ASCII letters come out: those of ASCII itself, and the
few outside it whose capitals are in ASCII. -/
def capital (c : Char) : List Char :=
  match c with
  | 'ß' => ['S', 'S']
  | 'ı' => ['I']
  | 'ſ' => ['S']
  | 'ﬀ' => ['F', 'F']
  | 'ﬁ' => ['F', 'I']
  | 'ﬂ' => ['F', 'L']
  | 'ﬃ' => ['F', 'F', 'I']
  | 'ﬄ' => ['F', 'F', 'L']
  | 'ﬅ' | 'ﬆ' => ['S', 'T']
  | c => [c.toUpper]

def upper (s : String) : String := String.ofList (s.toList.flatMap capital)

/-- The text in small letters, ASCII capitals alone being changed. -/
def lower (s : String) : String := String.ofList (s.toList.map Char.toLower)

end Reckoner.Text
