import Mathlib.Algebra.Group.Nat.Defs
import Reckoner.Text.Quoted

/-!
Quoted text read back. What stands between the quotes is the text, each escape standing for one character.
-/

namespace Reckoner.Text

/-! ### Hexadecimal digits -/

/-- The value of a hexadecimal digit, in small letters or capitals. -/
def hexValue? (c : Char) : Option Nat :=
  if c.isDigit then some (c.toNat - '0'.toNat)
  else if 'a' ≤ c && c ≤ 'f' then some (c.toNat - 'a'.toNat + 10)
  else if 'A' ≤ c && c ≤ 'F' then some (c.toNat - 'A'.toNat + 10)
  else none

/-- The number that hexadecimal digits stand for. -/
def ofHex? (ds : List Char) : Option Nat :=
  ds.foldlM (fun n d => (hexValue? d).map (16 * n + ·)) 0

namespace Quoted

@[simp] theorem length_hex (width n : Nat) : (hex width n).length = width := by
  induction width generalizing n with
  | zero => rfl
  | succ width ih => simp [hex, ih]

theorem hexValue?_digitChar {n : Nat} (h : n < 16) : hexValue? (Nat.digitChar n) = some n := by
  have hall : ∀ n < 16, hexValue? (Nat.digitChar n) = some n := by decide
  exact hall n h

theorem ofHex?_hex {width n : Nat} (h : n < 16 ^ width) : ofHex? (hex width n) = some n := by
  induction width generalizing n with
  | zero =>
    obtain rfl : n = 0 := by simpa using h
    rfl
  | succ width ih =>
    have hfront : ofHex? (hex width (n / 16)) = some (n / 16) :=
      ih (Nat.div_lt_of_lt_mul (by rw [Nat.pow_succ] at h; omega))
    have hlast := hexValue?_digitChar (Nat.mod_lt n (by decide : 0 < 16))
    unfold ofHex? at hfront ⊢
    rw [hex, List.foldlM_append, hfront]
    simp [hlast, Nat.div_add_mod]

/-! ### Escapes -/

/-- What a letter behind a backslash stands for, if it is no code that follows. -/
def named? (letter : Char) : Option Char :=
  if letter = 'n' then some '\n'
  else if letter = 'r' then some '\r'
  else if letter = 't' then some '\t'
  else if letter = '\\' || letter = '\'' || letter = '"' then some letter
  else none

/-- The character of a code in hexadecimal digits. -/
def ofCode? (ds : List Char) : Option Char := (ofHex? ds).map Char.ofNat

/-- The characters that are written between two quotes of the given kind. -/
def unescape (quote : Char) : List Char → Option (List Char)
  | [] => some []
  | '\\' :: 'x' :: d₁ :: d₂ :: cs => do
    return (← ofCode? [d₁, d₂]) :: (← unescape quote cs)
  | '\\' :: 'u' :: d₁ :: d₂ :: d₃ :: d₄ :: cs => do
    return (← ofCode? [d₁, d₂, d₃, d₄]) :: (← unescape quote cs)
  | '\\' :: 'U' :: d₁ :: d₂ :: d₃ :: d₄ :: d₅ :: d₆ :: d₇ :: d₈ :: cs => do
    return (← ofCode? [d₁, d₂, d₃, d₄, d₅, d₆, d₇, d₈]) :: (← unescape quote cs)
  | ['\\'] => none
  | '\\' :: letter :: cs => do
    return (← named? letter) :: (← unescape quote cs)
  | c :: cs => if c = quote then none else (unescape quote cs).map (c :: ·)

/-- The characters of a quoted text. -/
def decode : List Char → Option (List Char)
  | [] => none
  | quote :: cs =>
    if (quote = '\'' || quote = '"') && cs.getLast? = some quote then unescape quote cs.dropLast
    else none

/-- The ways in which a character is written between quotes. -/
theorem escape_cases (quote c : Char) :
    (escape quote c = ['\\', c] ∧ (c = quote ∨ c = '\\')) ∨
      (∃ letter ∈ ['n', 'r', 't'], escape quote c = ['\\', letter] ∧ named? letter = some c) ∨
      (escape quote c = [c] ∧ Printable.isPrintable c ∧ c ≠ quote ∧ c ≠ '\\') ∨
      ∃ letter width, (letter, width) ∈ [('x', 2), ('u', 4), ('U', 8)] ∧
        escape quote c = '\\' :: letter :: hex width c.toNat ∧ c.toNat < 16 ^ width := by
  unfold escape
  split
  case isTrue hself => exact .inl ⟨rfl, by simpa using hself⟩
  case isFalse hself =>
    obtain ⟨hquote, hslash⟩ : c ≠ quote ∧ c ≠ '\\' := by simpa using hself
    split
    case isTrue h => exact .inr (.inl ⟨'n', by decide, rfl, h ▸ rfl⟩)
    case isFalse =>
      split
      case isTrue h => exact .inr (.inl ⟨'r', by decide, rfl, h ▸ rfl⟩)
      case isFalse =>
        split
        case isTrue h => exact .inr (.inl ⟨'t', by decide, rfl, h ▸ rfl⟩)
        case isFalse =>
          split
          case isTrue hprintable => exact .inr (.inr (.inl ⟨rfl, hprintable, hquote, hslash⟩))
          case isFalse =>
            right; right; right
            simp only [escapeCode]
            split
            case isTrue hlt => exact ⟨'x', 2, by decide, rfl, hlt⟩
            case isFalse =>
              split
              case isTrue hlt => exact ⟨'u', 4, by decide, rfl, hlt⟩
              case isFalse => exact ⟨'U', 8, by decide, rfl, c.val.toNat_lt⟩

theorem ofCode?_hex {c : Char} {width : Nat} (h : c.toNat < 16 ^ width) :
    ofCode? (hex width c.toNat) = some c := by
  rw [ofCode?, ofHex?_hex h, Option.map_some, Char.ofNat_toNat]

/-- A code is read back. -/
theorem unescape_code {quote letter c : Char} {width : Nat}
    (hletter : (letter, width) ∈ [('x', 2), ('u', 4), ('U', 8)]) (h : c.toNat < 16 ^ width)
    (cs : List Char) :
    unescape quote ('\\' :: letter :: hex width c.toNat ++ cs) =
      (unescape quote cs).map (c :: ·) := by
  have hcode := ofCode?_hex h
  have hlength := length_hex width c.toNat
  generalize hex width c.toNat = ds at hcode hlength
  simp only [List.mem_cons, Prod.mk.injEq, List.not_mem_nil, or_false] at hletter
  rcases hletter with ⟨rfl, rfl⟩ | ⟨rfl, rfl⟩ | ⟨rfl, rfl⟩
  · match ds, hlength with
    | [d₁, d₂], _ =>
      simp only [List.cons_append, List.nil_append, unescape, hcode]
      cases unescape quote cs <;> rfl
  · match ds, hlength with
    | [d₁, d₂, d₃, d₄], _ =>
      simp only [List.cons_append, List.nil_append, unescape, hcode]
      cases unescape quote cs <;> rfl
  · match ds, hlength with
    | [d₁, d₂, d₃, d₄, d₅, d₆, d₇, d₈], _ =>
      simp only [List.cons_append, List.nil_append, unescape, hcode]
      cases unescape quote cs <;> rfl

theorem unescape_named {quote letter c : Char} (h : named? letter = some c)
    (hletter : letter ∉ ['x', 'u', 'U']) (cs : List Char) :
    unescape quote ('\\' :: letter :: cs) = (unescape quote cs).map (c :: ·) := by
  simp only [List.mem_cons, List.not_mem_nil, or_false, not_or] at hletter
  rw [unescape]
  · rw [h]
    cases unescape quote cs <;> rfl
  · simp_all
  · simp_all
  · simp_all

/-- Each character is read back from what is written for it. -/
theorem unescape_escape {quote : Char} (hquote : quote = '\'' ∨ quote = '"') (c : Char)
    (cs : List Char) :
    unescape quote (escape quote c ++ cs) = (unescape quote cs).map (c :: ·) := by
  rcases escape_cases quote c with ⟨h, hself⟩ | ⟨letter, hletter, h, hnamed⟩ |
    ⟨h, -, hne, hslash⟩ | ⟨letter, width, hletter, h, hlt⟩
  · rw [h]
    have hc : c = '\'' ∨ c = '"' ∨ c = '\\' := by
      rcases hself with rfl | rfl
      · exact hquote.imp_right .inl
      · exact .inr (.inr rfl)
    rcases hc with rfl | rfl | rfl
    · exact unescape_named rfl (by decide) cs
    · exact unescape_named rfl (by decide) cs
    · exact unescape_named rfl (by decide) cs
  · rw [h]
    refine unescape_named hnamed ?_ cs
    simp only [List.mem_cons, List.not_mem_nil, or_false] at hletter
    rcases hletter with rfl | rfl | rfl <;> decide
  · rw [h, List.cons_append, List.nil_append, unescape]
    · rw [if_neg hne]
    all_goals simp [hslash]
  · rw [h]
    exact unescape_code hletter hlt cs

theorem quoteFor_cases (cs : List Char) : quoteFor cs = '\'' ∨ quoteFor cs = '"' := by
  unfold quoteFor
  split
  · exact .inr rfl
  · exact .inl rfl

/-- Quoted text is read back, whatever its characters. -/
theorem decode_encode (cs : List Char) : decode (encode cs) = some cs := by
  have hquote := quoteFor_cases cs
  unfold encode decode
  generalize quoteFor cs = quote at hquote
  have hread : ∀ cs, unescape quote (cs.flatMap (escape quote)) = some cs := by
    intro cs
    induction cs with
    | nil => rfl
    | cons c cs ih => rw [List.flatMap_cons, unescape_escape hquote, ih, Option.map_some]
  simp [hquote, hread]

end Quoted

/-- The text that a quoted text stands for. -/
def unquote? (s : String) : Option String := (Quoted.decode s.toList).map String.ofList

@[simp] theorem unquote?_quote (s : String) : unquote? (quote s) = some s := by
  rw [unquote?, quote, String.toList_ofList, Quoted.decode_encode, Option.map_some,
    String.ofList_toList]

end Reckoner.Text
