import Omnibus.KoreaderPosition.Collapsed
import Omnibus.KoreaderPosition.Tree

/-!
# Pointers and CFIs of one document

`koreader_position/mod.rs`: the CFI tail an XPointer stands for and the canonical XPointer of a
CFI tail. Either conversion gives nothing where a proof rule fails.
-/

namespace Omnibus.KoreaderPosition

open Omnibus.Library.Strings
open Omnibus.KoboPosition (u32Bound Cluster Element FileIndex CfiTail)

/-- crengine splits a text run into separate nodes at this many source characters. -/
def textSplitSize : Nat := 8192

def unprovableAncestors : List Text :=
  ["svg".toList, "math".toList, "pre".toList, "textarea".toList]

def lowercase (name : Text) : Text := name.map Char.toLower

def sameName (left right : Text) : Bool := lowercase left == lowercase right

def unprefixed (name : Text) : Text := (name.splitOn ':').getLastD []

/-- The child elements of `parent` with this name, in document order. -/
def sameNameSiblings (elements : List Element) (parent : Option Nat) (name : Text) : List Nat :=
  (elements.zipIdx.filter fun entry =>
    decide (entry.1.parent = parent) && sameName entry.1.local name).map Prod.snd

def childElement (elements : List Element) (parent : Nat) (name : Text) (index : Ordinal) :
    Option Nat :=
  (sameNameSiblings elements (some parent) name)[index.1 - 1]?

def ancestorsWithin (elements : List Element) : Nat → Nat → List Nat
  | 0, _ => []
  | fuel + 1, idx =>
      idx :: match elements[idx]?.bind Element.parent with
        | some parent => ancestorsWithin elements fuel parent
        | none => []

/-- An element and its ancestors, nearest first. A parent's number is smaller, which bounds how
many there are. -/
def ancestors (elements : List Element) (idx : Nat) : List Nat :=
  ancestorsWithin elements (idx + 1) idx

/-- Whether an element is, or sits inside, an SVG, MathML or preformatted one. -/
def insideUnprovable (elements : List Element) (idx : Nat) : Bool :=
  (ancestors elements idx).any fun i =>
    elements[i]?.any fun element =>
      unprovableAncestors.any fun name => sameName (unprefixed element.local) name

def pathStep (elements : List Element) (idx : Nat) : Option (Text × Option Nat) := do
  let element ← elements[idx]?
  let name := lowercase element.local
  if isName name then
    let siblings := sameNameSiblings elements element.parent name
    let position ← siblings.findIdx? (· == idx)
    some (name, if siblings.length > 1 then some ((position + 1) % u32Bound) else none)
  else none

/-- The steps from the body down to an element: lowercased names, an index only where the parent
holds several same-name children. -/
def elementPath (elements : List Element) (idx : Nat) : Option (List (Text × Option Nat)) :=
  match (ancestors elements idx).reverse with
  | _ :: body :: below =>
      if elements[body]?.any fun element => sameName element.local "body".toList then
        below.mapM (pathStep elements)
      else none
  | _ => none

/-- A run crengine keeps as one node and counts as the walk does. -/
def stableRun (cluster : Cluster) : Bool :=
  !cluster.markupInside && cluster.sourceBytes < textSplitSize && !isBlank cluster.raw

def textNodes (index : FileIndex) (element : Nat) : List Cluster :=
  index.clusters.filter fun cluster => decide (cluster.parent = element)

def exactCluster (index : FileIndex) (tail : CfiTail) : Option Cluster :=
  index.clusters.find? fun cluster =>
    decide (cluster.elementSteps = tail.elementSteps) && decide (cluster.textIndex = tail.textIndex)

/-- The tail of a text step: the k-th text node, its offset mapped back to the raw text. -/
def textTail (index : FileIndex) (element : Nat) (text : TextStep) : Option CfiTail :=
  let nodes := textNodes index element
  let k := text.index.1
  if insideUnprovable index.elements element then none
  else if k ≤ nodes.length ∧ (nodes.take k).all stableRun then do
    let target ← nodes[k - 1]?
    let offset ← rawOffset target.raw text.offset
    some (target.tail offset)
  else none

/-- The tail at the first visible character inside an element. -/
def firstTextTail (index : FileIndex) (element : Nat) : Option CfiTail := do
  let inside := fun cluster : Cluster => (ancestors index.elements cluster.parent).contains element
  let first ← index.clusters.find? fun cluster => cluster.normLen > 0 && inside cluster
  let (tail, _) ← index.tailAt first.normStart
  let landed ← exactCluster index tail
  if inside landed && stableRun landed && !insideUnprovable index.elements landed.parent then
    some tail
  else none

def descend (elements : List Element) (start : Nat) (steps : List Step) : Option Nat :=
  steps.foldlM (fun parent step => childElement elements parent step.name step.index) start

def cfiTailFor (index : FileIndex) (xp : XPointer) : Option CfiTail := do
  let body ← childElement index.elements 0 "body".toList one
  let element ← descend index.elements body xp.steps
  match xp.text with
  | some text => textTail index element text
  | none => firstTextTail index element

/-- The cluster a tail names and the offset to use in it. An element-anchored tail lands on the
element's first visible character. -/
def landedCluster (index : FileIndex) (tail : CfiTail) (elementAnchored : Bool) :
    Option (Cluster × Nat) :=
  if elementAnchored then do
    let under := fun cluster : Cluster => tail.elementSteps.isPrefixOf cluster.elementSteps
    let first ← index.clusters.find? fun cluster => cluster.normLen > 0 && under cluster
    let (landed, _) ← index.tailAt first.normStart
    let cluster ← exactCluster index landed
    if under cluster then some (cluster, landed.offsetUtf16) else none
  else (exactCluster index tail).map fun cluster => (cluster, tail.offsetUtf16)

/-- The canonical pointer of a tail. The text node is numbered only when several are not blank. -/
def xpointerFor (index : FileIndex) (tail : CfiTail) (elementAnchored : Bool)
    (fragment : Option Ordinal) : Option Text := do
  let (cluster, utf16Offset) ← landedCluster index tail elementAnchored
  if insideUnprovable index.elements cluster.parent then none
  else
    let nodes := textNodes index cluster.parent
    let position ← nodes.findIdx? fun node => node.textIndex == cluster.textIndex
    if (nodes.take (position + 1)).all stableRun then
      let offset ← crengineOffset cluster.raw utf16Offset
      let several := (nodes.filter fun node => !isBlank node.raw).length > 1
      let path ← elementPath index.elements cluster.parent
      some (format (fragment.map Subtype.val) path
        (some (if several then some ((position + 1) % u32Bound) else none, offset)))
    else none

end Omnibus.KoreaderPosition
