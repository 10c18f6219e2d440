import Omnibus.KoreaderPosition.XPointer
import Omnibus.KoboPosition.Replay

/-!
# The text crengine counts in

`koreader_position/crengine_text.rs`: crengine folds each run of spaces into one and keeps a
leading one. Its offsets count the characters kept, where a CFI counts UTF-16 units of the raw
text. The two offset maps are inverse at every boundary no run swallows.
-/

namespace Omnibus.KoreaderPosition

open Omnibus.Library.Strings Omnibus.Library.Collapse
open Omnibus.KoboPosition (utf16Length)

def isSpace (symbol : Char) : Bool :=
  symbol == ' ' || symbol == '\t' || symbol == '\n' || symbol == '\r'

def isBlank (raw : Text) : Bool := raw.all isSpace

/-- `raw_offset`'s loop from a position of the raw text on. -/
def rawOffsetFrom (offset : Nat) : Text → Nat → Nat → Bool → Option Nat
  | [], kept, utf16, _ => if kept = offset then some utf16 else none
  | symbol :: rest, kept, utf16, prevSpace =>
      let dropped := isSpace symbol && prevSpace
      if dropped then rawOffsetFrom offset rest kept (utf16 + utf16Width symbol) (isSpace symbol)
      else if kept = offset then some utf16
      else rawOffsetFrom offset rest (kept + 1) (utf16 + utf16Width symbol) (isSpace symbol)

/-- The raw UTF-16 offset of a crengine offset; none past the end. -/
def rawOffset (raw : Text) (offset : Nat) : Option Nat := rawOffsetFrom offset raw 0 0 false

/-- `crengine_offset`'s loop from a position of the raw text on. -/
def crengineOffsetFrom (target : Nat) : Text → Nat → Nat → Bool → Option Nat
  | [], kept, utf16, _ => if utf16 = target then some kept else none
  | symbol :: rest, kept, utf16, prevSpace =>
      let dropped := isSpace symbol && prevSpace
      if utf16 ≥ target then some (if dropped then kept - 1 else kept)
      else crengineOffsetFrom target rest (if dropped then kept else kept + 1)
        (utf16 + utf16Width symbol) (isSpace symbol)

/-- An offset inside a collapsed run maps to the run's kept space. -/
def crengineOffset (raw : Text) (utf16Offset : Nat) : Option Nat :=
  crengineOffsetFrom utf16Offset raw 0 0 false

theorem utf16_length_cons (symbol : Char) (rest : Text) :
    utf16Length (symbol :: rest) = utf16Width symbol + utf16Length rest :=
  extent_cons utf16Width symbol rest

/-- How many characters of `text` crengine keeps. -/
def kept (run : Bool) (text : Text) : Nat := (collapse isSpace ' ' run text).length

theorem kept_cons (run : Bool) (symbol : Char) (rest : Text) :
    kept run (symbol :: rest) =
      (if isSpace symbol && run then 0 else 1) + kept (isSpace symbol) rest := by
  rw [kept, collapse_cons_length]
  cases space : isSpace symbol <;> cases run <;> simp [emits, space, kept]

theorem kept_le (run : Bool) (text : Text) : kept run text ≤ utf16Length text := by
  induction text generalizing run with
  | nil => exact Nat.zero_le _
  | cons symbol rest induction =>
      have later := induction (isSpace symbol)
      have wide := utf16_width_positive symbol
      rw [kept_cons, utf16_length_cons]
      split_ifs <;> omega

/-- The cut falls before a character that is kept, or at the end of the text. -/
def Unswallowed (run : Bool) (left right : Text) : Prop :=
  ∀ symbol ∈ right.head?, (isSpace symbol && runAfter isSpace run left) = false

theorem unswallowed_cons (run : Bool) (symbol : Char) (left right : Text) :
    Unswallowed run (symbol :: left) right ↔ Unswallowed (isSpace symbol) left right :=
  Iff.rfl

theorem crengine_offset_from_cut (left right : Text) (count utf16 : Nat) (run : Bool)
    (cut : Unswallowed run left right) :
    crengineOffsetFrom (utf16 + utf16Length left) (left ++ right) count utf16 run =
      some (count + kept run left) := by
  induction left generalizing count utf16 run with
  | nil =>
      cases right with
      | nil => simp [crengineOffsetFrom, utf16Length, kept, collapse]
      | cons next rest =>
          have stays : (isSpace next && run) = false := cut next rfl
          simp [crengineOffsetFrom, utf16Length, kept, collapse, stays]
  | cons symbol left induction =>
      have wide := utf16_width_positive symbol
      have later := induction (if isSpace symbol && run then count else count + 1)
        (utf16 + utf16Width symbol) (isSpace symbol) ((unswallowed_cons run symbol _ _).mp cut)
      have length : utf16 + utf16Length (symbol :: left) =
          utf16 + utf16Width symbol + utf16Length left := by
        rw [utf16_length_cons, ← Nat.add_assoc]
      rw [length, List.cons_append, crengineOffsetFrom, if_neg (by omega), later, kept_cons]
      split_ifs <;> congr 1 <;> omega

theorem raw_offset_from_cut (left right : Text) (count utf16 : Nat) (run : Bool)
    (cut : Unswallowed run left right) :
    rawOffsetFrom (count + kept run left) (left ++ right) count utf16 run =
      some (utf16 + utf16Length left) := by
  induction left generalizing count utf16 run with
  | nil =>
      cases right with
      | nil => simp [rawOffsetFrom, utf16Length, kept, collapse]
      | cons next rest =>
          have stays : (isSpace next && run) = false := cut next rfl
          simp [rawOffsetFrom, utf16Length, kept, collapse, stays]
  | cons symbol left induction =>
      have below := (unswallowed_cons run symbol _ _).mp cut
      have length : utf16 + utf16Length (symbol :: left) =
          utf16 + utf16Width symbol + utf16Length left := by
        rw [utf16_length_cons, ← Nat.add_assoc]
      rw [length, List.cons_append, rawOffsetFrom, kept_cons]
      by_cases dropped : (isSpace symbol && run) = true
      · rw [if_pos dropped, if_pos dropped, Nat.zero_add]
        exact induction count _ _ below
      · rw [if_neg dropped, if_neg dropped, if_neg (by omega), ← Nat.add_assoc]
        exact induction (count + 1) _ _ below

theorem raw_offset_from_found (raw : Text) (offset count utf16 found : Nat) (run : Bool)
    (mapped : rawOffsetFrom offset raw count utf16 run = some found) :
    ∃ left right, raw = left ++ right ∧ found = utf16 + utf16Length left ∧
      Unswallowed run left right := by
  induction raw generalizing count utf16 run with
  | nil =>
      simp only [rawOffsetFrom, Option.ite_none_right_eq_some, Option.some.injEq] at mapped
      exact ⟨[], [], rfl, mapped.2.symm, by simp [Unswallowed]⟩
  | cons symbol rest induction =>
      have deeper : ∀ count, rawOffsetFrom offset rest count (utf16 + utf16Width symbol)
          (isSpace symbol) = some found →
          ∃ left right, symbol :: rest = left ++ right ∧ found = utf16 + utf16Length left ∧
            Unswallowed run left right := by
        intro count later
        obtain ⟨left, right, parts, length, cut⟩ := induction count _ _ later
        refine ⟨symbol :: left, right, by rw [parts]; rfl, ?_, cut⟩
        rw [length, utf16_length_cons, Nat.add_assoc]
      rw [rawOffsetFrom] at mapped
      by_cases dropped : (isSpace symbol && run) = true
      · rw [if_pos dropped] at mapped
        exact deeper count mapped
      · rw [if_neg dropped] at mapped
        by_cases here : count = offset
        · rw [if_pos here] at mapped
          refine ⟨[], symbol :: rest, rfl, (Option.some.inj mapped).symm, ?_⟩
          intro next first
          obtain rfl := Option.some.inj first
          exact Bool.eq_false_iff.mpr dropped
        · rw [if_neg here] at mapped
          exact deeper (count + 1) mapped

/-- A character boundary of the raw text that no collapsed run of spaces contains. -/
def Boundary (raw : Text) (utf16Offset : Nat) : Prop :=
  ∃ left right, raw = left ++ right ∧ utf16Offset = utf16Length left ∧
    Unswallowed false left right

theorem crengine_offset_boundary (raw : Text) (utf16Offset : Nat)
    (boundary : Boundary raw utf16Offset) :
    ∃ offset, crengineOffset raw utf16Offset = some offset ∧ offset ≤ utf16Length raw ∧
      rawOffset raw offset = some utf16Offset := by
  obtain ⟨left, right, rfl, rfl, cut⟩ := boundary
  refine ⟨kept false left, ?_, ?_, ?_⟩
  · simpa [crengineOffset] using crengine_offset_from_cut left right 0 0 false cut
  · have count := kept_le false left
    simp only [utf16Length, extent_append] at count ⊢
    omega
  · simpa [rawOffset] using raw_offset_from_cut left right 0 0 false cut

theorem raw_offset_boundary (raw : Text) (offset utf16Offset : Nat)
    (mapped : rawOffset raw offset = some utf16Offset) : Boundary raw utf16Offset := by
  obtain ⟨left, right, parts, length, cut⟩ := raw_offset_from_found raw offset 0 0 _ false mapped
  exact ⟨left, right, parts, by rw [length, Nat.zero_add], cut⟩

end Omnibus.KoreaderPosition
