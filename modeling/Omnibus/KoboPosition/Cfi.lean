import Mathlib.Algebra.Ring.Nat
import Omnibus.Library.Strings

/-!
# EPUB CFIs

`kobo_position/cfi.rs`: the point shape `epubcfi(/6/N!/4/…/K:off)` and the range
shape `epubcfi(parent,start,end)`. Each parser accepts only its own shape. The
steps and offsets the source keeps in `u32` are numbers below `2 ^ 32` here, the
bound the number parser checks.
-/

namespace Omnibus.KoboPosition

open Omnibus.Library.Strings

def u32Bound : Nat := 2 ^ 32

/-- The intra-document half of a CFI, after the `!` indirection. -/
structure CfiTail where
  elementSteps : List Nat
  textIndex : Nat
  offsetUtf16 : Nat
  deriving DecidableEq, Repr

structure Cfi where
  spineIndex : Nat
  tail : CfiTail
  elementAnchored : Bool
  deriving DecidableEq, Repr

structure CfiRange where
  spineIndex : Nat
  start : CfiTail
  «end» : CfiTail
  deriving DecidableEq, Repr

structure Step where
  step : Nat
  offset : Option Nat
  deriving DecidableEq, Repr

/-- The `[idAssertion]` of a step is dropped; an unclosed one rejects the path. -/
def stripAssertion (part : Text) : Option Text :=
  match splitOnce '[' part with
  | some (head, rest) => if rest.getLast? = some ']' then some head else none
  | none => some part

def parseStep (raw : Text) : Option Step := do
  let part ← stripAssertion raw
  match splitOnce ':' part with
  | some (number, offset) =>
      let offset ← parseUnsigned u32Bound offset
      let step ← parseUnsigned u32Bound number
      some { step, offset := some offset }
  | none =>
      let step ← parseUnsigned u32Bound part
      some { step, offset := none }

def parseParts : List Text → Option (List Step)
  | [] => some []
  | part :: rest =>
      if part = [] then parseParts rest
      else do
        let step ← parseStep part
        let steps ← parseParts rest
        some (step :: steps)

def parseSteps (path : Text) : Option (List Step) := parseParts (path.splitOn '/')

/-- `parse_tail` plus whether the path ended on an element step. Only the last
step may carry an offset or be odd. -/
def parseAnchoredTail (path : Text) : Option (CfiTail × Bool) := do
  let steps ← parseSteps path
  let last ← steps.getLast?
  if steps.dropLast.any (fun step => step.offset.isSome || step.step % 2 != 0) then none
  else if last.step % 2 = 1 then
    some ({ elementSteps := steps.dropLast.map Step.step
            textIndex := last.step
            offsetUtf16 := last.offset.getD 0 }, false)
  else
    some ({ elementSteps := steps.map Step.step, textIndex := 1, offsetUtf16 := 0 }, true)

def parseTail (path : Text) : Option CfiTail := (parseAnchoredTail path).map Prod.fst

/-- The package path is `/6` then the itemref step. -/
def parsePackage (package : Text) : Option Nat := do
  let steps ← parseSteps package
  match steps with
  | [six, item] =>
      if six.step ≠ 6 ∨ item.step % 2 ≠ 0 ∨ item.step = 0 then none
      else some (item.step / 2 - 1)
  | _ => none

def cfiPrefix : Text := ['e', 'p', 'u', 'b', 'c', 'f', 'i', '(']

def cfiInner (raw : Text) : Option Text := do
  let body ← stripPrefix cfiPrefix (trim raw)
  stripSuffix [')'] body

def parseCfi (raw : Text) : Option Cfi := do
  let inner ← cfiInner raw
  if ',' ∈ inner ∨ '~' ∈ inner ∨ '@' ∈ inner then none
  else
    let (package, tail) ← splitOnce '!' inner
    let (tail, elementAnchored) ← parseAnchoredTail tail
    let spineIndex ← parsePackage package
    some { spineIndex, tail, elementAnchored }

def rooted (path : Text) : Bool := path.head? = some '/'

/-- Joining the parent with a relative part is only sound when every part is a
rooted path, so an unrooted part is refused. -/
def parseRangeCfi (raw : Text) : Option CfiRange := do
  let inner ← cfiInner raw
  if '~' ∈ inner ∨ '@' ∈ inner then none
  else
    match inner.splitOn ',' with
    | [parent, startRel, endRel] => do
        let (package, common) ← splitOnce '!' parent
        if common ≠ [] ∧ ¬rooted common then none
        else if ¬rooted startRel ∨ ¬rooted endRel then none
        else
          let spineIndex ← parsePackage package
          let start ← parseTail (common ++ startRel)
          let «end» ← parseTail (common ++ endRel)
          some { spineIndex, start, «end» }
    | _ => none

def stepPath (steps : List Nat) : Text := steps.flatMap fun step => '/' :: decimal step

def terminal (tail : CfiTail) : Text := decimal tail.textIndex ++ ':' :: decimal tail.offsetUtf16

def packagePath (spineIndex : Nat) : Text := '/' :: '6' :: '/' :: decimal (2 * (spineIndex + 1))

def formatCfi (spineIndex : Nat) (tail : CfiTail) : Text :=
  cfiPrefix ++ (packagePath spineIndex ++ '!' :: (stepPath tail.elementSteps ++
    '/' :: terminal tail)) ++ [')']

def commonSteps (start «end» : CfiTail) : Nat :=
  ((start.elementSteps.zip end.elementSteps).takeWhile fun pair => pair.1 == pair.2).length

def relativePath (common : Nat) (tail : CfiTail) : Text :=
  stepPath (tail.elementSteps.drop common) ++ '/' :: terminal tail

def formatRangeCfi (spineIndex : Nat) (start «end» : CfiTail) : Text :=
  let common := commonSteps start «end»
  cfiPrefix ++ (packagePath spineIndex ++ '!' :: (stepPath (start.elementSteps.take common) ++
    ',' :: (relativePath common start ++ ',' :: relativePath common «end»))) ++ [')']

def elementCfi (spineIndex : Nat) (steps : List Nat) : Text :=
  cfiPrefix ++ (packagePath spineIndex ++ '!' :: stepPath steps) ++ [')']

/-! ## Reading back what the formatters write -/

structure CfiTail.InRange (tail : CfiTail) : Prop where
  steps : ∀ step ∈ tail.elementSteps, step % 2 = 0 ∧ step < u32Bound
  textOdd : tail.textIndex % 2 = 1
  text : tail.textIndex < u32Bound
  offset : tail.offsetUtf16 < u32Bound

theorem not_mem_step_path (steps : List Nat) (symbol : Char) (other : symbol.isDigit = false)
    (notSlash : symbol ≠ '/') : symbol ∉ stepPath steps := by
  intro member
  obtain ⟨step, _, inside⟩ := List.mem_flatMap.mp member
  rcases List.mem_cons.mp inside with same | digit
  · exact notSlash same
  · exact not_mem_decimal step symbol other digit

theorem not_mem_terminal (tail : CfiTail) (symbol : Char) (other : symbol.isDigit = false)
    (notColon : symbol ≠ ':') : symbol ∉ terminal tail := by
  simp [terminal, not_mem_decimal _ symbol other, notColon]

theorem not_mem_package_path (spineIndex : Nat) (symbol : Char) (other : symbol.isDigit = false)
    (notSlash : symbol ≠ '/') : symbol ∉ packagePath spineIndex := by
  have notSix : symbol ≠ '6' := by
    intro equal
    subst equal
    exact absurd other (by decide)
  simp [packagePath, not_mem_decimal _ symbol other, notSlash, notSix]

theorem strip_assertion_clear (part : Text) (clear : '[' ∉ part) :
    stripAssertion part = some part := by
  rw [stripAssertion, split_once_absent '[' part clear]

theorem parse_step_decimal (step : Nat) (bounded : step < u32Bound) :
    parseStep (decimal step) = some { step, offset := none } := by
  have plain := strip_assertion_clear (decimal step) (not_mem_decimal step '[' (by decide))
  have noColon := split_once_absent ':' (decimal step) (not_mem_decimal step ':' (by decide))
  simp [parseStep, plain, noColon, parse_unsigned_decimal u32Bound step bounded]

theorem parse_step_terminal (tail : CfiTail) (range : tail.InRange) :
    parseStep (terminal tail) =
      some { step := tail.textIndex, offset := some tail.offsetUtf16 } := by
  have plain := strip_assertion_clear (terminal tail)
    (not_mem_terminal tail '[' (by decide) (by decide))
  have colon : splitOnce ':' (terminal tail) =
      some (decimal tail.textIndex, decimal tail.offsetUtf16) :=
    split_once_append ':' _ _ (not_mem_decimal _ ':' (by decide))
  simp [parseStep, plain, colon, parse_unsigned_decimal u32Bound _ range.text,
    parse_unsigned_decimal u32Bound _ range.offset]

theorem terminal_ne_nil (tail : CfiTail) : terminal tail ≠ [] := by
  simp [terminal]

theorem split_step_path (front last : Text) (steps : List Nat) (frontClear : '/' ∉ front)
    (lastClear : '/' ∉ last) :
    (front ++ (stepPath steps ++ '/' :: last)).splitOn '/' =
      front :: (steps.map decimal ++ [last]) := by
  induction steps generalizing front with
  | nil =>
      simp only [stepPath, List.flatMap_nil, List.nil_append, List.map_nil]
      rw [List.splitOn_append_cons_self_of_not_mem frontClear,
        List.splitOn_eq_singleton lastClear]
  | cons step rest induction =>
      have unfolded : stepPath (step :: rest) ++ '/' :: last =
          '/' :: (decimal step ++ (stepPath rest ++ '/' :: last)) := by
        simp [stepPath]
      rw [unfolded, List.splitOn_append_cons_self_of_not_mem frontClear,
        induction (decimal step) (not_mem_decimal step '/' (by decide))]
      rfl

theorem parse_parts_decimal (steps : List Nat) (rest : List Text)
    (bounded : ∀ step ∈ steps, step < u32Bound) :
    parseParts (steps.map decimal ++ rest) =
      (parseParts rest).map fun parsed =>
        (steps.map fun step => { step, offset := none : Step }) ++ parsed := by
  induction steps with
  | nil => simp
  | cons step others induction =>
      have tailParsed := induction fun other member => bounded other (List.mem_cons_of_mem _ member)
      simp only [List.map_cons, List.cons_append, parseParts, if_neg (decimal_ne_nil step),
        parse_step_decimal step (bounded step (by simp)), tailParsed]
      cases parseParts rest <;> rfl

theorem parse_steps_path (steps : List Nat) (last : Text) (parsed : Step)
    (bounded : ∀ step ∈ steps, step < u32Bound) (lastClear : '/' ∉ last) (lastShape : last ≠ [])
    (lastParsed : parseStep last = some parsed) :
    parseSteps (stepPath steps ++ '/' :: last) =
      some ((steps.map fun step => { step, offset := none : Step }) ++ [parsed]) := by
  have split := split_step_path [] last steps (by simp) lastClear
  rw [List.nil_append] at split
  rw [parseSteps, split]
  simp [parseParts, parse_parts_decimal steps [last] bounded, lastShape, lastParsed]

theorem parse_anchored_tail_format (tail : CfiTail) (range : tail.InRange) :
    parseAnchoredTail (stepPath tail.elementSteps ++ '/' :: terminal tail) =
      some (tail, false) := by
  have steps := parse_steps_path tail.elementSteps (terminal tail) _
    (fun step member => (range.steps step member).2)
    (not_mem_terminal tail '/' (by decide) (by decide)) (terminal_ne_nil tail)
    (parse_step_terminal tail range)
  have even : ∀ step ∈ tail.elementSteps, step % 2 = 0 := fun step member =>
    (range.steps step member).1
  simp only [parseAnchoredTail, steps, Option.bind_eq_bind, Option.bind_some,
    List.getLast?_concat, List.dropLast_concat]
  rw [if_neg (by simpa using even), if_pos range.textOdd]
  simp [Function.comp_def]

theorem parse_anchored_tail_element (steps : List Nat) (shape : steps ≠ [])
    (bounded : ∀ step ∈ steps, step % 2 = 0 ∧ step < u32Bound) :
    parseAnchoredTail (stepPath steps) =
      some ({ elementSteps := steps, textIndex := 1, offsetUtf16 := 0 }, true) := by
  obtain ⟨front, last, rfl⟩ : ∃ front last, steps = front ++ [last] :=
    ⟨steps.dropLast, steps.getLast shape, (List.dropLast_append_getLast shape).symm⟩
  have lastBounded := bounded last (by simp)
  have path : stepPath (front ++ [last]) = stepPath front ++ '/' :: decimal last := by
    simp [stepPath]
  have parsed := parse_steps_path front (decimal last) _
    (fun step member => (bounded step (by simp [member])).2)
    (not_mem_decimal last '/' (by decide)) (decimal_ne_nil last)
    (parse_step_decimal last lastBounded.2)
  have even : ∀ step ∈ front, step % 2 = 0 := fun step member =>
    (bounded step (by simp [member])).1
  rw [path]
  simp only [parseAnchoredTail, parsed, Option.bind_eq_bind, Option.bind_some,
    List.getLast?_concat, List.dropLast_concat]
  rw [if_neg (by simpa using even), if_neg (by omega)]
  simp [Function.comp_def]

theorem parse_package_format (spineIndex : Nat) (bounded : 2 * (spineIndex + 1) < u32Bound) :
    parsePackage (packagePath spineIndex) = some spineIndex := by
  have path : packagePath spineIndex = stepPath [6] ++ '/' :: decimal (2 * (spineIndex + 1)) := by
    have six : decimal 6 = ['6'] := by decide
    simp [packagePath, stepPath, six]
  have parsed := parse_steps_path [6] (decimal (2 * (spineIndex + 1))) _
    (by simp [u32Bound]) (not_mem_decimal _ '/' (by decide)) (decimal_ne_nil _)
    (parse_step_decimal _ bounded)
  rw [parsePackage, path, parsed]
  simp

theorem cfi_inner_wrapped (body : Text) : cfiInner (cfiPrefix ++ body ++ [')']) = some body := by
  have shape : cfiPrefix ++ body ++ [')'] = 'e' :: ((cfiPrefix.tail ++ body) ++ [')']) := by
    simp [cfiPrefix]
  have trimmed : trim (cfiPrefix ++ body ++ [')']) = cfiPrefix ++ body ++ [')'] := by
    rw [shape]
    exact trim_of_solid_ends 'e' ')' _ (by decide) (by decide)
  rw [cfiInner, trimmed, List.append_assoc, strip_prefix_append]
  exact strip_suffix_append [')'] body

theorem parse_cfi_format (spineIndex : Nat) (tail : CfiTail)
    (bounded : 2 * (spineIndex + 1) < u32Bound) (range : tail.InRange) :
    parseCfi (formatCfi spineIndex tail) =
      some { spineIndex, tail, elementAnchored := false } := by
  have clear : ∀ symbol : Char, symbol.isDigit = false → symbol ≠ '/' → symbol ≠ ':' →
      symbol ≠ '!' → symbol ∉ packagePath spineIndex ++
        '!' :: (stepPath tail.elementSteps ++ '/' :: terminal tail) := by
    intro symbol other notSlash notColon notBang
    simp [not_mem_package_path _ symbol other notSlash, notBang,
      not_mem_step_path _ symbol other notSlash, notSlash, not_mem_terminal _ symbol other notColon]
  rw [parseCfi, formatCfi, cfi_inner_wrapped]
  simp only [Option.bind_eq_bind, Option.bind_some]
  rw [if_neg (by simp only [clear ',' (by decide) (by decide) (by decide) (by decide),
      clear '~' (by decide) (by decide) (by decide) (by decide),
      clear '@' (by decide) (by decide) (by decide) (by decide), or_self, not_false_eq_true])]
  rw [split_once_append '!' _ _ (not_mem_package_path _ '!' (by decide) (by decide))]
  simp [parse_anchored_tail_format tail range, parse_package_format spineIndex bounded]

theorem parse_cfi_element (spineIndex : Nat) (steps : List Nat) (shape : steps ≠ [])
    (bounded : 2 * (spineIndex + 1) < u32Bound)
    (range : ∀ step ∈ steps, step % 2 = 0 ∧ step < u32Bound) :
    parseCfi (elementCfi spineIndex steps) =
      some { spineIndex
             tail := { elementSteps := steps, textIndex := 1, offsetUtf16 := 0 }
             elementAnchored := true } := by
  have clear : ∀ symbol : Char, symbol.isDigit = false → symbol ≠ '/' →
      symbol ≠ '!' → symbol ∉ packagePath spineIndex ++ '!' :: stepPath steps := by
    intro symbol other notSlash notBang
    simp [not_mem_package_path _ symbol other notSlash, notBang,
      not_mem_step_path _ symbol other notSlash]
  rw [parseCfi, elementCfi, cfi_inner_wrapped]
  simp only [Option.bind_eq_bind, Option.bind_some]
  rw [if_neg (by simp only [clear ',' (by decide) (by decide) (by decide),
      clear '~' (by decide) (by decide) (by decide),
      clear '@' (by decide) (by decide) (by decide), or_self, not_false_eq_true])]
  rw [split_once_append '!' _ _ (not_mem_package_path _ '!' (by decide) (by decide))]
  simp [parse_anchored_tail_element steps shape range, parse_package_format spineIndex bounded]

theorem take_common_steps (start «end» : List Nat) :
    let common := ((start.zip «end»).takeWhile fun pair => pair.1 == pair.2).length
    start.take common = «end».take common := by
  induction start generalizing «end» with
  | nil => simp
  | cons first rest induction =>
      cases «end» with
      | nil => simp
      | cons other others =>
          by_cases same : first = other
          · subst same
            simpa using induction others
          · simp [same]

theorem step_path_append (front back : List Nat) :
    stepPath (front ++ back) = stepPath front ++ stepPath back := by
  simp [stepPath]

theorem step_path_rooted (steps : List Nat) (rest : Text) :
    rooted (stepPath steps ++ '/' :: rest) = true := by
  cases steps <;> simp [stepPath, rooted]

theorem parse_relative_path (common : Nat) (shared : List Nat) (tail : CfiTail)
    (prefixed : shared = tail.elementSteps.take common) (range : tail.InRange) :
    parseTail (stepPath shared ++ relativePath common tail) = some tail := by
  have whole : stepPath shared ++ relativePath common tail =
      stepPath tail.elementSteps ++ '/' :: terminal tail := by
    rw [relativePath, ← List.append_assoc, ← step_path_append, prefixed, List.take_append_drop]
  rw [whole, parseTail, parse_anchored_tail_format tail range]
  rfl

theorem parse_range_cfi_format (spineIndex : Nat) (start «end» : CfiTail)
    (bounded : 2 * (spineIndex + 1) < u32Bound) (startRange : start.InRange)
    (endRange : end.InRange) :
    parseRangeCfi (formatRangeCfi spineIndex start «end») =
      some { spineIndex, start, «end» } := by
  let common := commonSteps start «end»
  let shared := start.elementSteps.take common
  have sharedEnd : shared = end.elementSteps.take common :=
    take_common_steps start.elementSteps end.elementSteps
  have relativeClear : ∀ (tail : CfiTail) (symbol : Char), symbol.isDigit = false →
      symbol ≠ '/' → symbol ≠ ':' → symbol ∉ relativePath common tail := by
    intro tail symbol other notSlash notColon
    simp [relativePath, not_mem_step_path _ symbol other notSlash, notSlash,
      not_mem_terminal _ symbol other notColon]
  have parentClear : ∀ symbol : Char, symbol.isDigit = false → symbol ≠ '/' → symbol ≠ '!' →
      symbol ∉ packagePath spineIndex ++ '!' :: stepPath shared := by
    intro symbol other notSlash notBang
    simp [not_mem_package_path _ symbol other notSlash, notBang,
      not_mem_step_path _ symbol other notSlash]
  have formatted : formatRangeCfi spineIndex start «end» =
      cfiPrefix ++ ((packagePath spineIndex ++ '!' :: stepPath shared) ++
        ',' :: (relativePath common start ++ ',' :: relativePath common «end»)) ++ [')'] := by
    simp [formatRangeCfi, common, shared]
  have parts : ((packagePath spineIndex ++ '!' :: stepPath shared) ++
      ',' :: (relativePath common start ++ ',' :: relativePath common «end»)).splitOn ',' =
      [packagePath spineIndex ++ '!' :: stepPath shared, relativePath common start,
        relativePath common «end»] := by
    rw [List.splitOn_append_cons_self_of_not_mem
        (parentClear ',' (by decide) (by decide) (by decide)),
      List.splitOn_append_cons_self_of_not_mem
        (relativeClear start ',' (by decide) (by decide) (by decide)),
      List.splitOn_eq_singleton (relativeClear «end» ',' (by decide) (by decide) (by decide))]
  have quiet : ∀ symbol : Char, symbol.isDigit = false → symbol ≠ '/' → symbol ≠ ':' →
      symbol ≠ '!' → symbol ≠ ',' →
      symbol ∉ (packagePath spineIndex ++ '!' :: stepPath shared) ++
        ',' :: (relativePath common start ++ ',' :: relativePath common «end») := by
    intro symbol other notSlash notColon notBang notComma
    simp only [List.mem_append, List.mem_cons, not_or]
    exact ⟨by simpa using parentClear symbol other notSlash notBang, notComma,
      relativeClear start symbol other notSlash notColon, notComma,
      relativeClear «end» symbol other notSlash notColon⟩
  have commonRooted : ¬(stepPath shared ≠ [] ∧ ¬rooted (stepPath shared) = true) := by
    cases shared <;> simp [stepPath, rooted]
  have relativeRooted : ∀ tail : CfiTail, rooted (relativePath common tail) = true :=
    fun tail => step_path_rooted _ _
  rw [parseRangeCfi, formatted, cfi_inner_wrapped]
  simp only [Option.bind_eq_bind, Option.bind_some]
  rw [if_neg (by simp only [quiet '~' (by decide) (by decide) (by decide) (by decide) (by decide),
      quiet '@' (by decide) (by decide) (by decide) (by decide) (by decide), or_self,
      not_false_eq_true]), parts]
  simp only [split_once_append '!' _ _ (not_mem_package_path _ '!' (by decide) (by decide)),
    Option.bind_some]
  rw [if_neg commonRooted, if_neg (by simp [relativeRooted])]
  simp [parse_package_format spineIndex bounded,
    parse_relative_path common shared start rfl startRange,
    parse_relative_path common shared «end» sharedEnd endRange]

/-! ## Whatever is read back can be written again -/

theorem parse_unsigned_lt {bound value : Nat} {text : Text}
    (parsed : parseUnsigned bound text = some value) : value < bound := by
  unfold parseUnsigned at parsed
  dsimp only at parsed
  split at parsed
  · rename_i shape
    rw [← Option.some.inj parsed]
    exact shape.2.2
  · cases parsed

structure Step.InRange (read : Step) : Prop where
  step : read.step < u32Bound
  offset : ∀ offset ∈ read.offset, offset < u32Bound

theorem parse_step_in_range {part : Text} {step : Step} (parsed : parseStep part = some step) :
    step.InRange := by
  obtain ⟨plain, _, parsed⟩ := Option.bind_eq_some_iff.mp parsed
  split at parsed
  · obtain ⟨offset, isOffset, parsed⟩ := Option.bind_eq_some_iff.mp parsed
    obtain ⟨number, isNumber, parsed⟩ := Option.bind_eq_some_iff.mp parsed
    cases parsed
    refine ⟨parse_unsigned_lt isNumber, ?_⟩
    intro other same
    cases same
    exact parse_unsigned_lt isOffset
  · obtain ⟨number, isNumber, parsed⟩ := Option.bind_eq_some_iff.mp parsed
    cases parsed
    exact ⟨parse_unsigned_lt isNumber, nofun⟩

theorem parse_parts_in_range {parts : List Text} {steps : List Step}
    (parsed : parseParts parts = some steps) : ∀ step ∈ steps, step.InRange := by
  induction parts generalizing steps with
  | nil =>
      cases parsed
      simp
  | cons part rest induction =>
      rw [parseParts] at parsed
      split at parsed
      · exact induction parsed
      · obtain ⟨first, isFirst, parsed⟩ := Option.bind_eq_some_iff.mp parsed
        obtain ⟨others, areOthers, parsed⟩ := Option.bind_eq_some_iff.mp parsed
        cases parsed
        intro step member
        rcases List.mem_cons.mp member with rfl | later
        · exact parse_step_in_range isFirst
        · exact induction areOthers step later

theorem parse_tail_in_range {path : Text} {tail : CfiTail} (parsed : parseTail path = some tail) :
    tail.InRange := by
  obtain ⟨⟨_, anchored⟩, isTail, rfl⟩ := Option.map_eq_some_iff.mp parsed
  obtain ⟨steps, areSteps, parsed⟩ := Option.bind_eq_some_iff.mp isTail
  obtain ⟨last, isLast, parsed⟩ := Option.bind_eq_some_iff.mp parsed
  have inRange := parse_parts_in_range areSteps
  have lastMem : last ∈ steps := List.mem_of_getLast? isLast
  split at parsed
  · cases parsed
  · rename_i allEven
    have even (step : Step) (member : step ∈ steps.dropLast) : step.step % 2 = 0 := by
      by_contra odd
      refine allEven (List.any_eq_true.mpr ⟨step, member, ?_⟩)
      rw [Bool.or_eq_true]
      exact .inr (bne_iff_ne.mpr odd)
    split at parsed
    · rename_i odd
      cases parsed
      constructor
      · intro number member
        obtain ⟨step, stepMem, rfl⟩ := List.mem_map.mp member
        exact ⟨even step stepMem, (inRange step ((List.dropLast_sublist steps).subset stepMem)).step⟩
      · exact odd
      · exact (inRange last lastMem).step
      · cases isOffset : last.offset with
        | none => simp [u32Bound]
        | some offset => exact (inRange last lastMem).offset offset isOffset
    · rename_i lastEven
      cases parsed
      constructor
      · intro number member
        obtain ⟨step, stepMem, rfl⟩ := List.mem_map.mp member
        refine ⟨?_, (inRange step stepMem).step⟩
        rw [← List.dropLast_append_getLast? last isLast, List.mem_append,
          List.mem_singleton] at stepMem
        rcases stepMem with earlier | rfl
        · exact even step earlier
        · omega
      · rfl
      · simp [u32Bound]
      · simp [u32Bound]

theorem parse_package_bounded {package : Text} {spineIndex : Nat}
    (parsed : parsePackage package = some spineIndex) : 2 * (spineIndex + 1) < u32Bound := by
  obtain ⟨steps, areSteps, parsed⟩ := Option.bind_eq_some_iff.mp parsed
  split at parsed
  · rename_i six item
    split at parsed
    · cases parsed
    · rename_i shape
      cases parsed
      have inRange := (parse_parts_in_range areSteps item (by simp)).step
      omega
  · cases parsed

theorem parse_range_cfi_in_range {raw : Text} {range : CfiRange}
    (parsed : parseRangeCfi raw = some range) :
    2 * (range.spineIndex + 1) < u32Bound ∧ range.start.InRange ∧ range.end.InRange := by
  obtain ⟨inner, _, parsed⟩ := Option.bind_eq_some_iff.mp parsed
  split at parsed
  · cases parsed
  · split at parsed
    · obtain ⟨⟨package, common⟩, _, parsed⟩ := Option.bind_eq_some_iff.mp parsed
      dsimp only at parsed
      split at parsed
      · cases parsed
      · split at parsed
        · cases parsed
        · obtain ⟨spineIndex, isIndex, parsed⟩ := Option.bind_eq_some_iff.mp parsed
          obtain ⟨start, isStart, parsed⟩ := Option.bind_eq_some_iff.mp parsed
          obtain ⟨last, isLast, parsed⟩ := Option.bind_eq_some_iff.mp parsed
          cases parsed
          exact ⟨parse_package_bounded isIndex, parse_tail_in_range isStart,
            parse_tail_in_range isLast⟩
    · cases parsed

/-- CFI text is read back as it was written, and what is read of a range is written and read
again as itself. -/
theorem cfi_text_round_trips :
    (∀ (spineIndex : Nat) (tail : CfiTail), 2 * (spineIndex + 1) < u32Bound → tail.InRange →
      parseCfi (formatCfi spineIndex tail) =
        some { spineIndex, tail, elementAnchored := false }) ∧
    (∀ (spineIndex : Nat) (start «end» : CfiTail), 2 * (spineIndex + 1) < u32Bound →
      start.InRange → end.InRange →
      parseRangeCfi (formatRangeCfi spineIndex start «end») =
        some { spineIndex, start, «end» }) ∧
    ∀ (raw : Text) (range : CfiRange), parseRangeCfi raw = some range →
      parseRangeCfi (formatRangeCfi range.spineIndex range.start range.end) = some range := by
  refine ⟨parse_cfi_format, parse_range_cfi_format, ?_⟩
  intro raw range parsed
  obtain ⟨bounded, start, last⟩ := parse_range_cfi_in_range parsed
  exact parse_range_cfi_format range.spineIndex range.start range.end bounded start last

/-- The two ends of a sentence, and a range read that names its elements. -/
theorem cfi_text_round_trips_sentence :
    parseCfi (formatCfi 3 ⟨[4, 2], 1, 5⟩) = some ⟨3, ⟨[4, 2], 1, 5⟩, false⟩ ∧
      parseRangeCfi (formatRangeCfi 3 ⟨[4, 2], 1, 5⟩ ⟨[4, 6], 3, 7⟩) =
        some ⟨3, ⟨[4, 2], 1, 5⟩, ⟨[4, 6], 3, 7⟩⟩ ∧
      parseRangeCfi (formatRangeCfi 3 ⟨[4, 2], 1, 5⟩ ⟨[4, 6], 1, 0⟩) =
        some ⟨3, ⟨[4, 2], 1, 5⟩, ⟨[4, 6], 1, 0⟩⟩ := by
  have start : CfiTail.InRange ⟨[4, 2], 1, 5⟩ := ⟨by decide, rfl, by decide, by decide⟩
  have last : CfiTail.InRange ⟨[4, 6], 3, 7⟩ := ⟨by decide, rfl, by decide, by decide⟩
  have read : parseRangeCfi "epubcfi(/6/8[ch3]!/4[body],/2/1:5,/6)".toList =
      some ⟨3, ⟨[4, 2], 1, 5⟩, ⟨[4, 6], 1, 0⟩⟩ := by
    decide +kernel
  have again := cfi_text_round_trips.2.2 _ _ read
  exact ⟨cfi_text_round_trips.1 3 _ (by decide) start,
    cfi_text_round_trips.2.1 3 _ _ (by decide) start last, again⟩

end Omnibus.KoboPosition
