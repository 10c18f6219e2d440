import Omnibus.KoboPosition.Cfi
import Omnibus.KoboPosition.Location

/-!
# The XHTML walk

`kobo_position/walk.rs`: one pass over the events of a content document builds the
`FileIndex` every position query reads. The events are the reader's, already
decoded; the stacks keep their innermost frame first.
-/

namespace Omnibus.KoboPosition

open Omnibus.Library.Strings

def snippetChars : Nat := 32

inductive Event where
  | start (localName qname : Text) (id : Option Text)
  | empty (localName qname : Text)
  | close
  | text (decoded : Text) (sourceBytes : Nat)
  | cdata (decoded : Text) (sourceBytes : Nat)
  /-- The bytes between `&` and `;`, each read as one character, and the character a
  numeric reference stands for. -/
  | generalRef (name : Text) (charRef : Option Char)
  | comment
  | pi
  | decl
  | docType
  deriving DecidableEq, Repr

structure Element where
  parent : Option Nat
  «local» : Text
  deriving DecidableEq, Repr

/-- One coalesced text cluster: its CFI address, its raw text and what replays
the normalization inside it. -/
structure Cluster where
  elementSteps : List Nat
  textIndex : Nat
  parent : Nat
  markupInside : Bool
  sourceBytes : Nat
  normStart : Nat
  normLen : Nat
  enteredInRun : Bool
  raw : Text
  deriving DecidableEq, Repr

structure SpanMark where
  n : Nat
  m : Nat
  normStart : Nat
  deriving DecidableEq, Repr

structure FileIndex where
  norm : Text
  clusters : List Cluster
  elements : List Element
  spans : List SpanMark
  deriving DecidableEq, Repr

def resolveEntity (name : Text) (charRef : Option Char) : Option Char :=
  match charRef with
  | some symbol => some symbol
  | none =>
      if name = ['a', 'm', 'p'] then some '&'
      else if name = ['l', 't'] then some '<'
      else if name = ['g', 't'] then some '>'
      else if name = ['a', 'p', 'o', 's'] then some '\''
      else if name = ['q', 'u', 'o', 't'] then some '"'
      else if name = ['n', 'b', 's', 'p'] then some (Char.ofNat 0xA0)
      else if name = ['m', 'd', 'a', 's', 'h'] then some (Char.ofNat 0x2014)
      else if name = ['n', 'd', 'a', 's', 'h'] then some (Char.ofNat 0x2013)
      else if name = ['h', 'e', 'l', 'l', 'i', 'p'] then some (Char.ofNat 0x2026)
      else if name = ['l', 's', 'q', 'u', 'o'] then some (Char.ofNat 0x2018)
      else if name = ['r', 's', 'q', 'u', 'o'] then some (Char.ofNat 0x2019)
      else if name = ['l', 'd', 'q', 'u', 'o'] then some (Char.ofNat 0x201C)
      else if name = ['r', 'd', 'q', 'u', 'o'] then some (Char.ofNat 0x201D)
      else if name = ['s', 'h', 'y'] then some (Char.ofNat 0xAD)
      else none

structure Builder where
  norm : Text := []
  normLen : Nat := 0
  /-- Depth of `<body>` nesting; text outside body is invisible. -/
  bodyDepth : Nat := 0
  childCounts : List Nat := []
  textCounts : List Nat := []
  /-- Element steps from the root's children down to the open element. -/
  steps : List Nat := []
  inRun : Bool := false
  emittedAny : Bool := false
  clusters : List Cluster := []
  openCluster : Option Nat := none
  spans : List SpanMark := []
  pendingSpans : List (Nat × Nat) := []
  elements : List Element := []
  «open» : List Nat := []
  markupPending : Option Nat := none
  deriving DecidableEq, Repr

def isBody (localName : Text) : Bool := localName.map Char.toLower == ['b', 'o', 'd', 'y']

namespace Builder

/-- The root element carries no step; every other element is step `2k` among its siblings. -/
def enterStep (b : Builder) : Builder :=
  match b.childCounts with
  | [] => b
  | count :: outer =>
      { b with childCounts := (count + 1) :: outer, steps := b.steps ++ [(count + 1) * 2] }

def notePendingSpan (id : Option Text) (b : Builder) : Builder :=
  if b.bodyDepth > 0 then
    match id.bind parseSpanId with
    | some span => { b with pendingSpans := b.pendingSpans ++ [span] }
    | none => b
  else b

def elementStart (localName qname : Text) (id : Option Text) (b : Builder) : Builder :=
  let b := enterStep { b with openCluster := none }
  let b := { b with elements := b.elements ++ [({ parent := b.open.head?, «local» := qname } : Element)] }
  let b := { b with «open» := (b.elements.length - 1) :: b.open }
  let b := notePendingSpan id b
  let b := if isBody localName || b.bodyDepth > 0 then { b with bodyDepth := b.bodyDepth + 1 } else b
  { b with childCounts := 0 :: b.childCounts, textCounts := 0 :: b.textCounts }

def elementEnd (b : Builder) : Builder :=
  let b := { b with
    openCluster := none
    «open» := b.open.tail
    childCounts := b.childCounts.tail
    textCounts := b.textCounts.tail }
  let b := if b.childCounts ≠ [] then { b with steps := b.steps.dropLast } else b
  if b.bodyDepth > 0 then { b with bodyDepth := b.bodyDepth - 1 } else b

def flagMarkup (b : Builder) : Builder :=
  match b.openCluster with
  | some i => { b with clusters := b.clusters.modify i fun c => { c with markupInside := true } }
  | none => b

/-- Whether markup preceded this cluster's first text in its element; consumed once. -/
def takePendingMarkup (b : Builder) : Bool × Builder :=
  if b.markupPending.isSome && b.markupPending == b.open.head? then
    (true, { b with markupPending := none })
  else (false, b)

def flagMarkupOrNext (b : Builder) : Builder :=
  if b.openCluster.isSome then flagMarkup b else { b with markupPending := b.open.head? }

def ensureCluster (b : Builder) : Nat × Builder :=
  match b.openCluster with
  | some i => (i, b)
  | none =>
      let clustersSoFar := b.textCounts.headD 0
      let b := { b with textCounts := b.textCounts.modifyHead (· + 1) }
      let (markupInside, b) := takePendingMarkup b
      (b.clusters.length,
        { b with clusters := b.clusters ++ [{
            elementSteps := b.steps
            textIndex := clustersSoFar * 2 + 1
            parent := b.open.headD 0
            markupInside
            sourceBytes := 0
            normStart := b.normLen
            normLen := 0
            enteredInRun := b.inRun || !b.emittedAny
            raw := [] }] })

def countEmitted (cluster : Nat) (clusters : List Cluster) : List Cluster :=
  clusters.modify cluster fun c => { c with normLen := c.normLen + 1 }

/-- One character of the `chars` loop. A visible one settles every pending span. -/
def pushChar (cluster : Nat) (b : Builder) (symbol : Char) : Builder :=
  if isWhitespace symbol then
    let b :=
      if !b.inRun && b.emittedAny then
        { b with
          norm := b.norm ++ [' ']
          normLen := b.normLen + 1
          clusters := countEmitted cluster b.clusters }
      else b
    { b with inRun := true }
  else
    { b with
      norm := b.norm ++ [symbol]
      normLen := b.normLen + 1
      clusters := countEmitted cluster b.clusters
      inRun := false
      emittedAny := true
      spans := b.spans ++
        b.pendingSpans.map fun span => { n := span.1, m := span.2, normStart := b.normLen }
      pendingSpans := [] }

def chars (text : Text) (sourceBytes : Nat) (b : Builder) : Builder :=
  if b.bodyDepth = 0 then b
  else
    let (cluster, b) := ensureCluster b
    let b := { b with
      openCluster := some cluster
      clusters := b.clusters.modify cluster fun c =>
        { c with raw := c.raw ++ text, sourceBytes := c.sourceBytes + sourceBytes } }
    text.foldl (pushChar cluster) b

/-- One event of `index_file`'s loop. A resolved space may collapse differently in
crengine, so it is flagged as markup. -/
def event (b : Builder) : Event → Builder
  | .start localName qname id => elementStart localName qname id b
  | .empty localName qname => elementEnd (elementStart localName qname none b)
  | .close => elementEnd b
  | .text decoded sourceBytes => chars decoded sourceBytes b
  | .cdata decoded sourceBytes => flagMarkup (chars decoded sourceBytes b)
  | .generalRef name charRef =>
      match resolveEntity name charRef with
      | some symbol =>
          let b := chars [symbol] (name.length + 2) b
          if isWhitespace symbol then flagMarkup b else b
      | none => flagMarkupOrNext b
  | .comment => flagMarkup b
  | .pi => flagMarkup b
  | .decl => b
  | .docType => b

/-- A span no visible character followed starts at the end of the text. -/
def finish (b : Builder) : FileIndex where
  norm := b.norm
  clusters := b.clusters
  elements := b.elements
  spans := b.spans ++
    b.pendingSpans.map fun span => { n := span.1, m := span.2, normStart := b.normLen }

end Builder

def walk (events : List Event) : Builder := events.foldl Builder.event {}

def indexFile (events : List Event) : FileIndex := (walk events).finish

namespace Builder

def nextStep (childCounts : List Nat) : List Nat :=
  match childCounts with
  | [] => []
  | count :: _ => [(count + 1) * 2]

theorem element_start_eq (localName qname : Text) (id : Option Text) (b : Builder) :
    b.elementStart localName qname id =
      { b with
        openCluster := none
        elements := b.elements ++ [{ parent := b.open.head?, «local» := qname }]
        «open» := b.elements.length :: b.open
        steps := b.steps ++ nextStep b.childCounts
        childCounts := 0 :: b.childCounts.modifyHead (· + 1)
        textCounts := 0 :: b.textCounts
        pendingSpans := b.pendingSpans ++
          (if b.bodyDepth > 0 then id.bind parseSpanId else none).toList
        bodyDepth :=
          if isBody localName || b.bodyDepth > 0 then b.bodyDepth + 1 else b.bodyDepth } := by
  cases childCounts : b.childCounts <;> cases span : id.bind parseSpanId <;>
    by_cases inBody : b.bodyDepth > 0 <;> by_cases body : isBody localName <;>
    simp [elementStart, enterStep, notePendingSpan, nextStep, childCounts, span, inBody, body]

theorem element_end_eq (b : Builder) :
    b.elementEnd =
      { b with
        openCluster := none
        «open» := b.open.tail
        childCounts := b.childCounts.tail
        textCounts := b.textCounts.tail
        steps := if b.childCounts.tail ≠ [] then b.steps.dropLast else b.steps
        bodyDepth := b.bodyDepth - 1 } := by
  by_cases last : b.childCounts.tail = [] <;> by_cases inBody : b.bodyDepth > 0 <;>
    simp [elementEnd, last, inBody]
  all_goals omega

end Builder

structure Anchor where
  normOffset : Nat
  snippet : Text
  deriving DecidableEq, Repr

/-! ## Replaying the collapse inside one cluster -/

/-- `replay_offset`'s loop from a position of the raw text on. -/
def replayOffsetFrom (target : Nat) : Text → Nat → Nat → Bool → Option Nat
  | [], _, _, _ => none
  | symbol :: rest, normPos, utf16, inRun =>
      if isWhitespace symbol then
        if inRun then replayOffsetFrom target rest normPos (utf16 + utf16Width symbol) true
        else if normPos = target then some utf16
        else replayOffsetFrom target rest (normPos + 1) (utf16 + utf16Width symbol) true
      else if normPos = target then some utf16
      else replayOffsetFrom target rest (normPos + 1) (utf16 + utf16Width symbol) false

def replayOffset (cluster : Cluster) (normTarget : Nat) : Option Nat :=
  replayOffsetFrom normTarget cluster.raw cluster.normStart 0 cluster.enteredInRun

def replayOffsetAfterFrom (target : Nat) : Text → Nat → Nat → Bool → Option Nat
  | [], _, _, _ => none
  | symbol :: rest, normPos, utf16, inRun =>
      let emits := !isWhitespace symbol || !inRun
      if emits then
        if normPos = target then some (utf16 + utf16Width symbol)
        else replayOffsetAfterFrom target rest (normPos + 1) (utf16 + utf16Width symbol)
          (isWhitespace symbol)
      else replayOffsetAfterFrom target rest normPos (utf16 + utf16Width symbol)
        (isWhitespace symbol)

/-- The offset after the character at `normTarget`. -/
def replayOffsetAfter (cluster : Cluster) (normTarget : Nat) : Option Nat :=
  replayOffsetAfterFrom normTarget cluster.raw cluster.normStart 0 cluster.enteredInRun

def replayNormFrom (utf16Target : Nat) : Text → Nat → Nat → Bool → Nat
  | [], normPos, _, _ => normPos
  | symbol :: rest, normPos, utf16, inRun =>
      if utf16 ≥ utf16Target then normPos
      else if isWhitespace symbol then
        replayNormFrom utf16Target rest (if inRun then normPos else normPos + 1)
          (utf16 + utf16Width symbol) true
      else replayNormFrom utf16Target rest (normPos + 1) (utf16 + utf16Width symbol) false

/-- Offsets inside a whitespace run or past the end saturate to the following position. -/
def replayNorm (cluster : Cluster) (utf16Target : Nat) : Nat :=
  replayNormFrom utf16Target cluster.raw cluster.normStart 0 cluster.enteredInRun

/-! ## The position queries -/

def Cluster.covers (cluster : Cluster) (t : Nat) : Bool :=
  cluster.normLen > 0 && t ≥ cluster.normStart && t < cluster.normStart + cluster.normLen

def Cluster.tail (cluster : Cluster) (offsetUtf16 : Nat) : CfiTail where
  elementSteps := cluster.elementSteps
  textIndex := cluster.textIndex
  offsetUtf16 := offsetUtf16

/-- The first visible offset from `idx` on, when there is one. -/
def landFrom : Text → Nat → Option Nat
  | [], _ => none
  | symbol :: rest, idx => if symbol = ' ' then landFrom rest (idx + 1) else some idx

namespace FileIndex

def visibleCharCount (index : FileIndex) : Nat := index.norm.length

def snippetAt (index : FileIndex) (offset : Nat) : Text :=
  (index.norm.drop offset).take snippetChars

def anchor (index : FileIndex) (offset : Nat) : Anchor where
  normOffset := offset
  snippet := index.snippetAt offset

def findSpan (index : FileIndex) (n m : Nat) : Option SpanMark :=
  index.spans.find? fun s => s.n = n ∧ s.m = m

def clusterCovering (index : FileIndex) (t : Nat) : Option Cluster :=
  index.clusters.find? (·.covers t)

def spanStart (index : FileIndex) (n m : Nat) : Option Anchor :=
  (index.findSpan n m).map fun mark => index.anchor mark.normStart

/-- The boundary for a DOM offset into a span's text node, not landed on a character. -/
def spanBoundary (index : FileIndex) (n m offsetUtf16 : Nat) : Option Nat := do
  let mark ← index.findSpan n m
  if offsetUtf16 = 0 then some mark.normStart
  else
    let cluster ← index.clusterCovering mark.normStart
    some (replayNorm cluster offsetUtf16)

/-- First visible offset at or after `t`; past the end, the last character. -/
def land (index : FileIndex) (t : Nat) : Option Nat :=
  match landFrom (index.norm.drop t) t with
  | some idx => some idx
  | none => if index.norm.length = 0 then none else some (index.norm.length - 1)

/-- Last visible offset at or before `t`. -/
def backLand (index : FileIndex) (t : Nat) : Option Nat :=
  ((index.norm.take (t + 1)).zipIdx.filter fun entry => entry.1 ≠ ' ').getLast?.map Prod.snd

def anchorAt (index : FileIndex) (t : Nat) : Option Anchor := (index.land t).map index.anchor

/-- The last visible character strictly before boundary `t`. -/
def landBefore (index : FileIndex) (t : Nat) : Option Nat :=
  if t = 0 then none else index.backLand (t - 1)

def backAnchorBefore (index : FileIndex) (t : Nat) : Option Anchor :=
  (index.landBefore t).map index.anchor

/-- The last mark starting at or before `t`, reading marks until one starts later. -/
def lastMarkAt (index : FileIndex) (t : Nat) : Option SpanMark :=
  (index.spans.takeWhile fun s => s.normStart ≤ t).getLast?

/-- Past the last span resolves to the last span, before the first to the first. -/
def spanAt (index : FileIndex) (t : Nat) : Option (Nat × Nat) :=
  ((index.lastMarkAt t).or index.spans.head?).map fun mark => (mark.n, mark.m)

def tailAt (index : FileIndex) (t : Nat) : Option (CfiTail × Anchor) := do
  let landed ← index.land t
  let cluster ← index.clusterCovering landed
  let offsetUtf16 ← replayOffset cluster landed
  some (cluster.tail offsetUtf16, index.anchor landed)

/-- The cluster a tail names, else the first at or under the element its steps name. -/
def tailCluster (index : FileIndex) (tail : CfiTail) : Option Cluster :=
  (index.clusters.find? fun c =>
      c.elementSteps = tail.elementSteps ∧ c.textIndex = tail.textIndex).or
    (index.clusters.find? fun c => tail.elementSteps.isPrefixOf c.elementSteps)

def offsetAt (index : FileIndex) (tail : CfiTail) : Option Anchor := do
  let cluster ← index.tailCluster tail
  let landed ← index.land (replayNorm cluster tail.offsetUtf16)
  some (index.anchor landed)

/-- The last visible character before the boundary an exclusive end tail addresses. -/
def offsetEndAt (index : FileIndex) (tail : CfiTail) : Option Anchor := do
  let cluster ← index.tailCluster tail
  let landed ← index.landBefore (replayNorm cluster tail.offsetUtf16)
  some (index.anchor landed)

/-- Strictly the last span starting at or before `t`, and only when `t` lies in the
text node of that span's first visible character. -/
def spanPoint (index : FileIndex) (t : Nat) (exclusiveEnd : Bool) : Option SpanPoint := do
  let mark ← index.lastMarkAt t
  let cluster ← index.clusterCovering mark.normStart
  if t < cluster.normStart ∨ t ≥ cluster.normStart + cluster.normLen then none
  else
    let charUtf16 ← if exclusiveEnd then replayOffsetAfter cluster t else replayOffset cluster t
    some { n := mark.n, m := mark.m, charUtf16 }

def spanPointAt (index : FileIndex) (t : Nat) : Option SpanPoint := index.spanPoint t false

def spanPointAfter (index : FileIndex) (t : Nat) : Option SpanPoint := index.spanPoint t true

def tailEndAt (index : FileIndex) (t : Nat) : Option (CfiTail × Anchor) := do
  let last ← index.landBefore t
  let cluster ← index.clusterCovering last
  let offsetUtf16 ← replayOffsetAfter cluster last
  some (cluster.tail offsetUtf16, index.anchor last)

end FileIndex

end Omnibus.KoboPosition
