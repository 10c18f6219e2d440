import Mathlib.Data.List.Basic
import Mathlib.Data.List.DropRight

/-!
# Text as a list of Unicode scalars

The few string operations a text format is written and read with: decimal
numbers bounded by a machine width, splitting at a separator, stripping a fixed
prefix or suffix, trimming white space, and the UTF-16 width of a scalar.
-/

namespace Omnibus.Library.Strings

abbrev Text := List Char

instance : LawfulBEq Text := inferInstance

def isWhitespace (symbol : Char) : Bool :=
  let code := symbol.toNat
  (9 ≤ code && code ≤ 13) || code == 0x20 || code == 0x85 || code == 0xA0 || code == 0x1680 ||
    (0x2000 ≤ code && code ≤ 0x200A) || code == 0x2028 || code == 0x2029 || code == 0x202F ||
    code == 0x205F || code == 0x3000

def utf16Width (symbol : Char) : Nat := if symbol.toNat < 0x10000 then 1 else 2

theorem utf16_width_positive (symbol : Char) : 0 < utf16Width symbol := by
  unfold utf16Width
  split_ifs <;> omega

def decimal (value : Nat) : Text := Nat.toDigits 10 value

def dropPlus : Text → Text
  | [] => []
  | symbol :: rest => if symbol = '+' then rest else symbol :: rest

/-- An unsigned number below `bound`: an optional plus sign, then at least one
ASCII digit and nothing else. -/
def parseUnsigned (bound : Nat) (text : Text) : Option Nat :=
  let digits := dropPlus text
  if digits ≠ [] ∧ digits.all Char.isDigit ∧ Nat.ofDigitChars 10 digits 0 < bound then
    some (Nat.ofDigitChars 10 digits 0)
  else none

theorem decimal_is_digit (value : Nat) (symbol : Char) (member : symbol ∈ decimal value) :
    symbol.isDigit = true :=
  Nat.isDigit_of_mem_toDigits (by decide) (by decide) member

theorem decimal_ne_nil (value : Nat) : decimal value ≠ [] := Nat.toDigits_ne_nil

theorem not_mem_decimal (value : Nat) (symbol : Char) (other : symbol.isDigit = false) :
    symbol ∉ decimal value := by
  intro member
  simp [decimal_is_digit value symbol member] at other

theorem parse_unsigned_digits (bound : Nat) (digits : Text) (shape : digits ≠ [])
    (numeric : ∀ symbol ∈ digits, symbol.isDigit = true)
    (bounded : Nat.ofDigitChars 10 digits 0 < bound) :
    parseUnsigned bound digits = some (Nat.ofDigitChars 10 digits 0) := by
  have unsigned : dropPlus digits = digits := by
    cases digits with
    | nil => rfl
    | cons first rest =>
        have notPlus : first ≠ '+' := by
          intro equal
          subst equal
          exact absurd (numeric '+' (by simp)) (by decide)
        simp [dropPlus, notPlus]
  simp only [parseUnsigned, unsigned]
  rw [if_pos ⟨shape, List.all_eq_true.mpr numeric, bounded⟩]

theorem parse_unsigned_decimal (bound value : Nat) (bounded : value < bound) :
    parseUnsigned bound (decimal value) = some value := by
  have exact : Nat.ofDigitChars 10 (decimal value) 0 = value := Nat.ofDigitChars_ten_toDigits
  have parsed := parse_unsigned_digits bound (decimal value) (decimal_ne_nil value)
    (decimal_is_digit value) (by rw [exact]; exact bounded)
  rw [parsed, exact]

def splitOnce (separator : Char) : Text → Option (Text × Text)
  | [] => none
  | symbol :: rest =>
      if symbol = separator then some ([], rest)
      else (splitOnce separator rest).map fun parts => (symbol :: parts.1, parts.2)

theorem split_once_append (separator : Char) (left right : Text) (clear : separator ∉ left) :
    splitOnce separator (left ++ separator :: right) = some (left, right) := by
  induction left with
  | nil => simp [splitOnce]
  | cons symbol rest induction =>
      rw [List.mem_cons, not_or] at clear
      simp [splitOnce, Ne.symm clear.1, induction clear.2]

theorem split_once_absent (separator : Char) (text : Text) (clear : separator ∉ text) :
    splitOnce separator text = none := by
  induction text with
  | nil => rfl
  | cons symbol rest induction =>
      rw [List.mem_cons, not_or] at clear
      simp [splitOnce, Ne.symm clear.1, induction clear.2]

def stripPrefix : Text → Text → Option Text
  | [], text => some text
  | _ :: _, [] => none
  | expected :: pattern, symbol :: rest =>
      if symbol = expected then stripPrefix pattern rest else none

def stripSuffix (pattern text : Text) : Option Text :=
  (stripPrefix pattern.reverse text.reverse).map List.reverse

theorem strip_prefix_append (pattern text : Text) :
    stripPrefix pattern (pattern ++ text) = some text := by
  induction pattern with
  | nil => rfl
  | cons expected rest induction => simp [stripPrefix, induction]

theorem strip_suffix_append (pattern text : Text) :
    stripSuffix pattern (text ++ pattern) = some text := by
  rw [stripSuffix, List.reverse_append, strip_prefix_append]
  simp

def trim (text : Text) : Text := (text.dropWhile isWhitespace).rdropWhile isWhitespace

theorem trim_of_solid_ends (first last : Char) (middle : Text)
    (solidFirst : isWhitespace first = false) (solidLast : isWhitespace last = false) :
    trim (first :: (middle ++ [last])) = first :: (middle ++ [last]) := by
  have front : (first :: (middle ++ [last])).dropWhile isWhitespace =
      first :: (middle ++ [last]) := by
    simp [solidFirst]
  rw [trim, front, List.rdropWhile, ← List.cons_append, List.reverse_append]
  simp [solidLast]

end Omnibus.Library.Strings
