import Omnibus.KoboPosition.Cfi

/-!
# The XPointer dialect

`koreader_position/xpointer.rs`: `/body/DocFragment[N]/body/name[i]/…/text()[k].offset`. Indexes of
one may be left out; the parser reads a missing one as one, so what is formatted parses again.
-/

namespace Omnibus.KoreaderPosition

open Omnibus.Library.Strings
open Omnibus.KoboPosition (u32Bound)

/-- A number that starts at one, as far as a `u32` goes. -/
abbrev Ordinal := { number : Nat // 0 < number ∧ number < u32Bound }

/-- An element name the dialect can carry: a letter, then letters and digits. -/
def isName : Text → Bool
  | [] => false
  | first :: rest => first.isAlpha && rest.all Char.isAlphanum

structure Step where
  name : Text
  index : Ordinal
  named : isName name = true
  deriving DecidableEq

/-- The text step closing a pointer: the text node and a character offset. -/
structure TextStep where
  index : Ordinal
  offset : Nat
  deriving DecidableEq

/-- Only `parse` makes one, so its names and indexes are what the dialect allows. -/
structure XPointer where
  /-- The spine item; none for the bare `DocFragment` of a one-item spine. -/
  fragment : Option Ordinal
  steps : List Step
  text : Option TextStep
  deriving DecidableEq

/-- Decimal digits only, so `+3` and `-0` never parse. -/
def digits (text : Text) : Option Nat :=
  if text ≠ [] ∧ text.all Char.isDigit ∧ Nat.ofDigitChars 10 text 0 < u32Bound then
    some (Nat.ofDigitChars 10 text 0)
  else none

def positive (text : Text) : Option Ordinal :=
  (digits text).bind fun number =>
    if above : 0 < number ∧ number < u32Bound then some ⟨number, above⟩ else none

def one : Ordinal := ⟨1, by decide⟩

def bracketIndex (text : Text) : Option Ordinal :=
  if text = [] then some one
  else (stripPrefix ['['] text).bind fun opened => (stripSuffix [']'] opened).bind positive

def parseStep (segment : Text) : Option Step := do
  let (name, index) ←
    match splitOnce '[' segment with
    | some (name, rest) => do
        let inner ← stripSuffix [']'] rest
        let index ← positive inner
        some (name, index)
    | none => some (segment, one)
  if named : isName name = true then some ⟨name, index, named⟩ else none

def docFragment : Text := "/body/DocFragment".toList

def textTest : Text := "text()".toList

/-- The segments below the document's body: the element steps and what closes the pointer. -/
def parseSegments (segments : List Text) : Option (List Step × Option TextStep) := do
  let last ← segments.getLast?
  let (last, offset) ←
    match splitOnce '.' last with
    | some (head, rest) => (digits rest).map fun offset => (head, some offset)
    | none => some (last, none)
  let steps ← segments.dropLast.mapM parseStep
  match stripPrefix textTest last with
  | some index => do
      let index ← bracketIndex index
      some (steps, some ⟨index, offset.getD 0⟩)
  | none =>
      -- An element can only end in `.0`; any other offset is a point inside it.
      if offset.getD 0 ≠ 0 then none
      else do
        let step ← parseStep last
        some (steps ++ [step], none)

def parse (raw : Text) : Option XPointer := do
  let rest ← stripPrefix docFragment raw
  let (fragment, rest) ←
    match stripPrefix ['['] rest with
    | some bracketed => do
        let (number, rest) ← splitOnce ']' bracketed
        let number ← positive number
        some (some number, rest)
    | none => some (none, rest)
  let rest ← stripPrefix "/body".toList rest
  if rest = [] then some ⟨fragment, [], none⟩
  else do
    let rest ← stripPrefix ['/'] rest
    let (steps, text) ← parseSegments (rest.splitOn '/')
    some ⟨fragment, steps, text⟩

def bracketed (index : Option Nat) : Text :=
  match index with
  | some index => '[' :: (decimal index ++ [']'])
  | none => []

def formatStep (step : Text × Option Nat) : Text := step.1 ++ bracketed step.2

def formatText (text : Option Nat × Nat) : Text :=
  textTest ++ bracketed text.1 ++ '.' :: decimal text.2

def format (fragment : Option Nat) (steps : List (Text × Option Nat))
    (text : Option (Option Nat × Nat)) : Text :=
  docFragment ++ (bracketed fragment ++ ("/body".toList ++
    ((steps.flatMap fun step => '/' :: formatStep step) ++
      (text.map fun text => '/' :: formatText text).getD [])))

theorem digits_decimal (number : Nat) (bounded : number < u32Bound) :
    digits (decimal number) = some number := by
  have exact : Nat.ofDigitChars 10 (decimal number) 0 = number := Nat.ofDigitChars_ten_toDigits
  rw [digits, exact, if_pos]
  exact ⟨decimal_ne_nil number, List.all_eq_true.mpr (decimal_is_digit number), bounded⟩

theorem positive_decimal (index : Ordinal) : positive (decimal index.1) = some index := by
  rw [positive, digits_decimal index.1 index.2.2, Option.bind_some, dif_pos index.2]

/-! ## Parsing what was formatted -/

theorem not_mem_name (name : Text) (named : isName name = true) (symbol : Char)
    (other : symbol.isAlphanum = false) : symbol ∉ name := by
  intro member
  cases name with
  | nil => cases member
  | cons first rest =>
      simp only [isName, Bool.and_eq_true, List.all_eq_true] at named
      have letter : symbol.isAlphanum = true := by
        rcases List.mem_cons.mp member with same | inside
        · rw [same, Char.isAlphanum, named.1, Bool.true_or]
        · exact named.2 symbol inside
      rw [other] at letter
      cases letter

theorem not_mem_bracketed (index : Option Nat) (symbol : Char) (other : symbol.isDigit = false)
    (opening : symbol ≠ '[') (closing : symbol ≠ ']') : symbol ∉ bracketed index := by
  cases index with
  | none => exact List.not_mem_nil
  | some index => simp [bracketed, not_mem_decimal index symbol other, opening, closing]

/-- A written step stands for the step read: an index left out is one. -/
structure Writes (written : Text × Option Nat) (step : Step) : Prop where
  name : written.1 = step.name
  index : written.2.getD 1 = step.index.1

theorem parse_format_step (written : Text × Option Nat) (step : Step)
    (writes : Writes written step) : parseStep (formatStep written) = some step := by
  obtain ⟨name, index⟩ := written
  obtain ⟨stepName, stepIndex, named⟩ := step
  obtain rfl : name = stepName := writes.name
  have clear := not_mem_name name named '[' (by decide)
  cases index with
  | none =>
      have first : one = stepIndex := Subtype.ext writes.index
      simp only [formatStep, bracketed, List.append_nil, parseStep,
        split_once_absent '[' name clear, Option.bind_eq_bind, Option.bind_some, dif_pos named,
        first]
  | some index =>
      obtain rfl : index = stepIndex.1 := writes.index
      have closed := strip_suffix_append [']'] (decimal stepIndex.1)
      simp only [formatStep, bracketed, parseStep,
        split_once_append '[' name (decimal stepIndex.1 ++ [']']) clear, Option.bind_eq_bind,
        closed, Option.bind_some, positive_decimal, dif_pos named]

theorem format_step_clear (written : Text × Option Nat) (step : Step)
    (writes : Writes written step) : '/' ∉ formatStep written := by
  have name := not_mem_name step.name step.named '/' (by decide)
  have index := not_mem_bracketed written.2 '/' (by decide) (by decide) (by decide)
  rw [formatStep, writes.name]
  simp [name, index]

theorem parse_format_steps (written : List (Text × Option Nat)) (steps : List Step)
    (writes : List.Forall₂ Writes written steps) :
    (written.map formatStep).mapM parseStep = some steps := by
  induction writes with
  | nil => rfl
  | cons here _ induction =>
      simp [parse_format_step _ _ here, induction]

theorem parse_bracketed (index : Option Nat) (number : Ordinal)
    (writes : index.getD 1 = number.1) : bracketIndex (bracketed index) = some number := by
  cases index with
  | none =>
      have first : one = number := Subtype.ext writes
      rw [bracketed, bracketIndex, if_pos rfl, first]
  | some index =>
      obtain rfl : index = number.1 := writes
      have opened : stripPrefix ['['] ('[' :: (decimal number.1 ++ [']'])) =
          some (decimal number.1 ++ [']']) := strip_prefix_append ['['] _
      rw [bracketed, bracketIndex, if_neg (by simp), opened, Option.bind_some,
        strip_suffix_append, Option.bind_some, positive_decimal]

theorem not_mem_text_test (symbol : Char) (other : symbol ∉ textTest) (index : Option Nat)
    (digit : symbol.isDigit = false) (opening : symbol ≠ '[') (closing : symbol ≠ ']') :
    symbol ∉ textTest ++ bracketed index := by
  simp [other, not_mem_bracketed index symbol digit opening closing]

theorem parse_segments_format (written : List (Text × Option Nat)) (steps : List Step)
    (writes : List.Forall₂ Writes written steps) (index : Option Nat) (text : TextStep)
    (node : index.getD 1 = text.index.1) (bounded : text.offset < u32Bound) :
    parseSegments (written.map formatStep ++ [formatText (index, text.offset)]) =
      some (steps, some text) := by
  have clear := not_mem_text_test '.' (by decide) index (by decide) (by decide) (by decide)
  have dot : splitOnce '.' (formatText (index, text.offset)) =
      some (textTest ++ bracketed index, decimal text.offset) := split_once_append '.' _ _ clear
  simp only [parseSegments, List.getLast?_concat, List.dropLast_concat, Option.bind_eq_bind,
    Option.bind_some, dot, digits_decimal text.offset bounded, Option.map_some,
    parse_format_steps written steps writes, strip_prefix_append,
    parse_bracketed index text.index node, Option.getD_some]

theorem split_segments (front last : Text) (written : List (Text × Option Nat))
    (steps : List Step) (writes : List.Forall₂ Writes written steps) (frontClear : '/' ∉ front)
    (lastClear : '/' ∉ last) :
    (front ++ ((written.flatMap fun step => '/' :: formatStep step) ++ '/' :: last)).splitOn '/' =
      front :: (written.map formatStep ++ [last]) := by
  induction writes generalizing front with
  | nil =>
      simp only [List.flatMap_nil, List.nil_append, List.map_nil]
      rw [List.splitOn_append_cons_self_of_not_mem frontClear, List.splitOn_eq_singleton lastClear]
  | @cons step _ others _ here _ induction =>
      have unfolded : ((step :: others).flatMap fun step => '/' :: formatStep step) ++ '/' :: last =
          '/' :: (formatStep step ++
            ((others.flatMap fun step => '/' :: formatStep step) ++ '/' :: last)) := by
        simp
      rw [unfolded, List.splitOn_append_cons_self_of_not_mem frontClear,
        induction (formatStep step) (format_step_clear _ _ here)]
      rfl

theorem parse_format (fragment : Option Ordinal) (written : List (Text × Option Nat))
    (steps : List Step) (writes : List.Forall₂ Writes written steps) (index : Option Nat)
    (text : TextStep) (node : index.getD 1 = text.index.1) (bounded : text.offset < u32Bound) :
    parse (format (fragment.map Subtype.val) written (some (index, text.offset))) =
      some ⟨fragment, steps, some text⟩ := by
  let below := (written.flatMap fun step => '/' :: formatStep step) ++
    '/' :: formatText (index, text.offset)
  have lastClear : '/' ∉ formatText (index, text.offset) := by
    have front := not_mem_text_test '/' (by decide) index (by decide) (by decide) (by decide)
    have back := not_mem_decimal text.offset '/' (by decide)
    simpa [formatText, back] using front
  -- The path below the body starts with a slash, so its first segment is the empty front.
  have slash : ∃ rest, below = '/' :: rest ∧
      rest.splitOn '/' = written.map formatStep ++ [formatText (index, text.offset)] := by
    have split := split_segments [] _ written steps writes (by simp) lastClear
    rw [List.nil_append] at split
    cases written with
    | nil => exact ⟨_, rfl, List.splitOn_eq_singleton lastClear⟩
    | cons first others =>
        refine ⟨formatStep first ++ ((others.flatMap fun step => '/' :: formatStep step) ++
          '/' :: formatText (index, text.offset)), by simp [below], ?_⟩
        cases writes with
        | cons here others =>
            exact split_segments _ _ _ _ others (format_step_clear _ _ here) lastClear
  obtain ⟨rest, shape, split⟩ := slash
  have segments := parse_segments_format written steps writes index text node bounded
  have body : stripPrefix "/body".toList ("/body".toList ++ below) = some below :=
    strip_prefix_append _ _
  have path : stripPrefix ['/'] below = some rest := by
    rw [shape]
    exact strip_prefix_append ['/'] rest
  have nonempty : below ≠ [] := by simp [shape]
  cases fragment with
  | none =>
      have bare : stripPrefix ['['] ("/body".toList ++ below) = none := rfl
      simp only [parse, format, Option.map_none, bracketed, List.nil_append, strip_prefix_append,
        Option.map_some, Option.getD_some, Option.bind_eq_bind, Option.bind_some]
      simp only [below] at bare path nonempty
      simp only [bare, Option.bind_some, if_neg nonempty, path, split, segments]
  | some number =>
      have bracket : stripPrefix ['['] ('[' :: (decimal number.1 ++ [']']) ++
          ("/body".toList ++ below)) =
            some (decimal number.1 ++ ']' :: ("/body".toList ++ below)) := by
        simp [stripPrefix]
      have close := split_once_append ']' (decimal number.1) ("/body".toList ++ below)
        (not_mem_decimal number.1 ']' (by decide))
      simp only [parse, format, Option.map_some, bracketed, strip_prefix_append, Option.getD_some,
        Option.bind_eq_bind, Option.bind_some]
      simp only [below] at bracket close body path nonempty
      simp only [bracket, close, Option.bind_some, positive_decimal, body, if_neg nonempty, path,
        split, segments]

end Omnibus.KoreaderPosition
