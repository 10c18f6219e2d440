import Omnibus.KoboPosition.Replay

/-!
# What a reader sees

The document as its characters: every body character with the elements open around
it and its place in its text node. It is the meaning the index is checked against,
and reads the same events as the walk.
-/

namespace Omnibus.KoboPosition

open Omnibus.Library.Strings

/-- An open element: the number of its start tag among the tags, the Kobo span it is,
and the number of body characters before it. -/
structure Frame where
  tag : Nat
  span : Option (Nat × Nat)
  openedAt : Nat
  deriving DecidableEq, Repr

/-- One body character. A text node is the character data between two tags, numbered
by the tags before it; offsets count UTF-16 units from the node's start. -/
structure Glyph where
  symbol : Char
  stack : List Frame
  node : Nat
  offset : Nat
  deriving DecidableEq, Repr

/-- A text node: the elements open around it and the number of its first character. -/
structure TextNode where
  stack : List Frame
  node : Nat
  first : Nat
  deriving DecidableEq, Repr

/-- The start tag of a Kobo span, with the elements open around it. -/
structure SpanTag where
  tag : Nat
  span : Nat × Nat
  openedAt : Nat
  around : List Frame
  deriving DecidableEq, Repr

structure Reading where
  bodyDepth : Nat := 0
  stack : List Frame := []
  glyphs : List Glyph := []
  textNodes : List TextNode := []
  textOpen : Bool := false
  spanTags : List SpanTag := []
  node : Nat := 0
  offset : Nat := 0
  roots : Nat := 0
  deriving DecidableEq, Repr

def Glyph.visible (glyph : Glyph) : Bool := !isWhitespace glyph.symbol

def Glyph.spans (glyph : Glyph) : List (Nat × Nat) := glyph.stack.filterMap (·.span)

def glyphRun (stack : List Frame) (node : Nat) : Nat → Text → List Glyph
  | _, [] => []
  | offset, symbol :: rest =>
      { symbol, stack, node, offset } :: glyphRun stack node (offset + utf16Width symbol) rest

namespace Reading

def spanOf (id : Option Text) (r : Reading) : Option (Nat × Nat) :=
  if r.bodyDepth > 0 then id.bind parseSpanId else none

def newFrame (id : Option Text) (r : Reading) : Frame where
  tag := r.node
  span := r.spanOf id
  openedAt := r.glyphs.length

def start (localName : Text) (id : Option Text) (r : Reading) : Reading where
  bodyDepth := if isBody localName || r.bodyDepth > 0 then r.bodyDepth + 1 else r.bodyDepth
  stack := r.newFrame id :: r.stack
  glyphs := r.glyphs
  textNodes := r.textNodes
  textOpen := false
  spanTags := r.spanTags ++ (r.spanOf id).toList.map fun span =>
    { tag := r.node, span, openedAt := r.glyphs.length, around := r.stack }
  node := r.node + 1
  offset := 0
  roots := if r.stack = [] then r.roots + 1 else r.roots

def close (r : Reading) : Reading :=
  { r with
    bodyDepth := r.bodyDepth - 1
    stack := r.stack.tail
    textOpen := false
    node := r.node + 1
    offset := 0 }

def newTextNode (r : Reading) : TextNode where
  stack := r.stack
  node := r.node
  first := r.glyphs.length

def text (decoded : Text) (r : Reading) : Reading :=
  if r.bodyDepth = 0 then r
  else
    { r with
      textNodes := if r.textOpen then r.textNodes else r.textNodes ++ [r.newTextNode]
      textOpen := true
      glyphs := r.glyphs ++ glyphRun r.stack r.node r.offset decoded
      offset := r.offset + utf16Length decoded }

def event (r : Reading) : Event → Reading
  | .start localName _ id => r.start localName id
  | .empty localName _ => (r.start localName none).close
  | .close => r.close
  | .text decoded _ => r.text decoded
  | .cdata decoded _ => r.text decoded
  | .generalRef name charRef =>
      match resolveEntity name charRef with
      | some symbol => r.text [symbol]
      | none => r
  | .comment => r
  | .pi => r
  | .decl => r
  | .docType => r

def symbols (r : Reading) : Text := r.glyphs.map (·.symbol)

/-- Where the character number `j` lands in the normalized stream. -/
def normAt (r : Reading) (j : Nat) : Nat := (collapsed true (r.symbols.take j)).length

/-- The first visible character from number `j` on; past the end, when there is none. -/
def firstVisible (r : Reading) (j : Nat) : Nat := j + (r.glyphs.drop j).findIdx (·.visible)

end Reading

def read (events : List Event) : Reading := events.foldl Reading.event {}

/-- A document has one root element. -/
def SingleRoot (events : List Event) : Prop := (read events).roots ≤ 1

instance (events : List Event) : Decidable (SingleRoot events) :=
  inferInstanceAs (Decidable (_ ≤ _))

/-- The steps both machines take on an event: a tag, character data, or a flag on the
builder alone. -/
structure Keeps (Relates : Builder → Reading → Prop) : Prop where
  start : ∀ b r localName qname id, Relates b r →
    Relates (b.elementStart localName qname id) (r.start localName id)
  close : ∀ b r, Relates b r → Relates b.elementEnd r.close
  text : ∀ b r decoded sourceBytes, Relates b r →
    Relates (b.chars decoded sourceBytes) (r.text decoded)
  flag : ∀ b r, Relates b r → Relates b.flagMarkup r
  pending : ∀ b r, Relates b r → Relates { b with markupPending := b.open.head? } r

namespace Keeps

variable {Relates : Builder → Reading → Prop}

theorem event (keeps : Keeps Relates) (b : Builder) (r : Reading) (e : Event)
    (related : Relates b r) : Relates (b.event e) (r.event e) := by
  cases e with
  | start localName qname id => exact keeps.start b r localName qname id related
  | empty localName qname =>
      exact keeps.close _ _ (keeps.start b r localName qname none related)
  | close => exact keeps.close b r related
  | text decoded sourceBytes => exact keeps.text b r decoded sourceBytes related
  | cdata decoded sourceBytes =>
      exact keeps.flag _ _ (keeps.text b r decoded sourceBytes related)
  | generalRef name charRef =>
      cases found : resolveEntity name charRef with
      | some symbol =>
          simp only [Builder.event, Reading.event, found]
          split_ifs
          · exact keeps.flag _ _ (keeps.text b r [symbol] _ related)
          · exact keeps.text b r [symbol] _ related
      | none =>
          simp only [Builder.event, Reading.event, found, Builder.flagMarkupOrNext]
          split_ifs
          · exact keeps.flag b r related
          · exact keeps.pending b r related
  | comment => exact keeps.flag b r related
  | pi => exact keeps.flag b r related
  | decl => exact related
  | docType => exact related

theorem events (keeps : Keeps Relates) (b : Builder) (r : Reading) (rest : List Event)
    (related : Relates b r) : Relates (rest.foldl Builder.event b) (rest.foldl Reading.event r) :=
  List.foldl_rel related fun e _ b r before => keeps.event b r e before

theorem walk (keeps : Keeps Relates) (initial : Relates {} {}) (events : List Event) :
    Relates (walk events) (read events) :=
  keeps.events {} {} events initial

end Keeps

end Omnibus.KoboPosition
