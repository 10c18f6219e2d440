import Omnibus.KoboPosition.Nodes

/-!
# Elements enclose what they enclose

The open elements are numbered in the order they opened, and a character between the
start of an element and another of its characters is one of its characters too.
-/

namespace Omnibus.KoboPosition

open Omnibus.Library.Strings

/-- Every character from the frame's start up to number `upTo` has the frame around it. -/
def Encloses (glyphs : List Glyph) (frame : Frame) (upTo : Nat) : Prop :=
  ∀ i glyph, glyphs[i]? = some glyph → frame.openedAt ≤ i → i ≤ upTo → frame ∈ glyph.stack

structure Nested (r : Reading) : Prop where
  decreasing : r.stack.Pairwise fun inner outer => outer.tag < inner.tag
  below : ∀ frame ∈ r.stack, frame.tag < r.node
  opened : ∀ frame ∈ r.stack, frame.openedAt ≤ r.glyphs.length
  encloses : ∀ frame ∈ r.stack, Encloses r.glyphs frame r.glyphs.length
  nodes : ∀ node ∈ r.textNodes, ∀ frame ∈ node.stack, frame.tag < r.node
  glyphs : ∀ j glyph, r.glyphs[j]? = some glyph → ∀ frame ∈ glyph.stack,
    frame.openedAt ≤ j ∧ Encloses r.glyphs frame j

theorem encloses_append (glyphs more : List Glyph) (frame : Frame) (upTo : Nat)
    (within : upTo < glyphs.length) :
    Encloses (glyphs ++ more) frame upTo ↔ Encloses glyphs frame upTo := by
  constructor
  · intro encloses i glyph found
    have inside := (List.getElem?_eq_some_iff.mp found).1
    exact encloses i glyph (by rw [List.getElem?_append_left inside]; exact found)
  · intro encloses i glyph found lower upper
    rw [List.getElem?_append_left (by omega)] at found
    exact encloses i glyph found lower upper

theorem glyph_run_stack (stack : List Frame) (node offset : Nat) (text : Text) (glyph : Glyph)
    (member : glyph ∈ glyphRun stack node offset text) : glyph.stack = stack := by
  induction text generalizing offset with
  | nil => simp [glyphRun] at member
  | cons symbol rest induction =>
      rcases List.mem_cons.mp member with rfl | later
      · rfl
      · exact induction _ later

namespace Nested

theorem text (r : Reading) (decoded : Text) (nested : Nested r) : Nested (r.text decoded) := by
  by_cases inBody : r.bodyDepth = 0
  · rwa [Reading.text, if_pos inBody]
  · rw [Reading.text_eq decoded r inBody]
    have fresh : ∀ i glyph, (r.glyphs ++ glyphRun r.stack r.node r.offset decoded)[i]? = some glyph →
        r.glyphs.length ≤ i → glyph.stack = r.stack := by
      intro i glyph found past
      rw [List.getElem?_append_right past] at found
      exact glyph_run_stack _ _ _ _ _ (List.mem_of_getElem? found)
    have around : ∀ frame ∈ r.stack, ∀ upTo,
        Encloses (r.glyphs ++ glyphRun r.stack r.node r.offset decoded) frame upTo := by
      intro frame member upTo i glyph found lower _
      by_cases past : r.glyphs.length ≤ i
      · rwa [fresh i glyph found past]
      · rw [List.getElem?_append_left (by omega)] at found
        exact nested.encloses frame member i glyph found lower (by omega)
    exact {
      decreasing := nested.decreasing
      below := nested.below
      opened := fun frame member => by
        have := nested.opened frame member
        simp only [List.length_append]
        omega
      encloses := fun frame member => around frame member _
      nodes := by
        intro node member frame inside
        simp only [Reading.opened] at member
        split_ifs at member with textOpen
        · exact nested.nodes node member frame inside
        · rcases List.mem_append.mp member with before | last
          · exact nested.nodes node before frame inside
          · rw [List.mem_singleton.mp last] at inside
            exact nested.below frame inside
      glyphs := by
        intro j glyph found frame member
        by_cases past : r.glyphs.length ≤ j
        · rw [fresh j glyph found past] at member
          exact ⟨Nat.le_trans (nested.opened frame member) past, around frame member j⟩
        · rw [List.getElem?_append_left (by omega)] at found
          obtain ⟨lower, encloses⟩ := nested.glyphs j glyph found frame member
          exact ⟨lower, (encloses_append _ _ frame j (by omega)).mpr encloses⟩ }

theorem keeps : Keeps fun _ r => Nested r where
  start b r localName qname id nested := by
    have later : ∀ frame ∈ (r.start localName id).stack,
        frame.tag = r.node ∧ frame.openedAt = r.glyphs.length ∨ frame ∈ r.stack := by
      intro frame member
      rcases List.mem_cons.mp member with rfl | before
      · exact Or.inl ⟨rfl, rfl⟩
      · exact Or.inr before
    exact {
      decreasing := List.pairwise_cons.mpr ⟨fun frame member => nested.below frame member,
        nested.decreasing⟩
      below := by
        intro frame member
        show frame.tag < r.node + 1
        rcases later frame member with ⟨tag, _⟩ | before
        · omega
        · exact Nat.lt_succ_of_lt (nested.below frame before)
      opened := by
        intro frame member
        show frame.openedAt ≤ r.glyphs.length
        rcases later frame member with ⟨_, place⟩ | before
        · omega
        · exact nested.opened frame before
      encloses := by
        intro frame member
        rcases later frame member with ⟨_, place⟩ | before
        · intro i glyph found lower
          have inside : i < r.glyphs.length := (List.getElem?_eq_some_iff.mp found).1
          omega
        · exact nested.encloses frame before
      nodes := fun node member frame inside =>
        Nat.lt_succ_of_lt (nested.nodes node member frame inside)
      glyphs := nested.glyphs }
  close b r nested := by
    exact {
      decreasing := nested.decreasing.tail
      below := fun frame member => Nat.lt_succ_of_lt (nested.below frame (List.mem_of_mem_tail member))
      opened := fun frame member => nested.opened frame (List.mem_of_mem_tail member)
      encloses := fun frame member => nested.encloses frame (List.mem_of_mem_tail member)
      nodes := fun node member frame inside =>
        Nat.lt_succ_of_lt (nested.nodes node member frame inside)
      glyphs := nested.glyphs }
  text b r decoded sourceBytes nested := nested.text r decoded
  flag b r nested := nested
  pending b r nested := nested

end Nested

theorem read_nested (events : List Event) : Nested (read events) :=
  Nested.keeps.walk
    { decreasing := List.Pairwise.nil
      below := by simp
      opened := by simp
      encloses := by simp
      nodes := by simp
      glyphs := by simp }
    events

end Omnibus.KoboPosition
