import Mathlib.Algebra.Ring.Nat
import Omnibus.Library.Strings

/-!
# Kobo span locations

`kobo_position/location.rs`: the `kobo.N.M` span ids and the two payloads that
carry them. The JSON text itself is left to its serializer; a payload here is the
record it stands for.
-/

namespace Omnibus.KoboPosition

open Omnibus.Library.Strings

def spanIdBound : Nat := 2 ^ 32

structure KoboLoc where
  source : Text
  n : Nat
  m : Nat
  deriving DecidableEq, Repr

/-- One endpoint of an annotation anchor: a span and a UTF-16 offset into its text node. -/
structure SpanPoint where
  n : Nat
  m : Nat
  charUtf16 : Nat
  deriving DecidableEq, Repr

/-- A parsed annotation anchor; `end` is exclusive, DOM-Range style. -/
structure KoboSpanRange where
  source : Text
  start : SpanPoint
  «end» : SpanPoint
  deriving DecidableEq, Repr

def koboPrefix : Text := ['k', 'o', 'b', 'o', '.']

/-- `kobo.<N>.<M>` with both counters all digits. -/
def parseSpanId (value : Text) : Option (Nat × Nat) := do
  let rest ← stripPrefix koboPrefix value
  let (n, m) ← splitOnce '.' rest
  if n = [] ∨ m = [] ∨ ¬n.all Char.isDigit then none
  else if ¬m.all Char.isDigit then none
  else
    let n ← parseUnsigned spanIdBound n
    let m ← parseUnsigned spanIdBound m
    some (n, m)

end Omnibus.KoboPosition
