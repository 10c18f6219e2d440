import Mathlib.Data.List.Infix
import Omnibus.Library.Strings

/-!
# LIKE

SQLite's matcher of LIKE patterns, with an escape character. A percent sign searches for the next
character of the pattern and goes on from each one found; a mismatch that no later place can mend
ends the search. Letters of ASCII are compared whatever their case.
-/

namespace Omnibus.Library.Like

open Omnibus.Library.Strings

inductive Comparison where
  | isMatch
  | noMatch
  | noWildcardMatch
  deriving DecidableEq, Repr

def isAscii (symbol : Char) : Bool := symbol.toNat < 0x80

/-- The characters the search after a percent sign stops at. -/
def stops (sought symbol : Char) : Bool :=
  if isAscii sought then symbol = sought.toUpper || symbol = sought.toLower else symbol = sought

def agrees (symbol other : Char) : Bool :=
  symbol = other ||
    (symbol.toLower = other.toLower && isAscii symbol && isAscii other)

/-- Compare what follows each place the search stops at, until the answer is final. -/
def search (sought : Char) (compare : Text → Comparison) : Text → Comparison
  | [] => .noWildcardMatch
  | symbol :: rest =>
      if stops sought symbol then
        match compare rest with
        | .noMatch => search sought compare rest
        | final => final
      else search sought compare rest

section Compare

variable (escape : Char)

/-- A wildcard that is the escape character stands for itself. -/
def isWildcard (wildcard sign : Char) : Bool := sign = wildcard && escape ≠ wildcard

mutual

/-- `patternCompare`, of texts without a NUL. -/
def patternCompare : Text → Text → Comparison
  | [], [] => .isMatch
  | [], _ :: _ => .noMatch
  | sign :: pattern, text =>
      if isWildcard escape '%' sign then afterPercent pattern text
      else if sign = escape then
        match pattern, text with
        | [], _ => .noMatch
        | _ :: _, [] => .noMatch
        | escaped :: pattern, symbol :: text =>
            if agrees escaped symbol then patternCompare pattern text else .noMatch
      else
        match text with
        | [] => .noMatch
        | symbol :: text =>
            if agrees sign symbol || isWildcard escape '_' sign then patternCompare pattern text else .noMatch
termination_by structural pattern => pattern

/-- The pattern after a percent sign: more of them, and a character for every underscore. -/
def afterPercent : Text → Text → Comparison
  | [], _ => .isMatch
  | sign :: pattern, text =>
      if isWildcard escape '%' sign then afterPercent pattern text
      else if isWildcard escape '_' sign then
        match text with
        | [] => .noWildcardMatch
        | _ :: text => afterPercent pattern text
      else if sign = escape then
        match pattern with
        | [] => .noWildcardMatch
        | escaped :: pattern => search escaped (patternCompare pattern) text
      else search sign (patternCompare pattern) text
termination_by structural pattern => pattern

end

end Compare

section Case

end Case

section Literal

variable {escape : Char}

def folded (text : Text) : Text := text.map Char.toLower

variable (plain : escape ≠ '%' ∧ escape ≠ '_')

include plain

end Literal

section Whole

variable {escape : Char} {value text : Text}

variable (plain : escape ≠ '%' ∧ escape ≠ '_' ∧ escape ≠ '\x00') (valueClear : '\x00' ∉ value)
  (textClear : '\x00' ∉ text)

include plain valueClear textClear

end Whole

end Omnibus.Library.Like
