import Omnibus.KoboPosition.Spans

/-!
# Span endpoints

A span endpoint names a character of the span by its UTF-16 offset in the span's text
node. In a kepub whose visible text is covered by spans, the boundary of an endpoint is
its character's place, and the endpoint written for that place is the endpoint again.
-/

namespace Omnibus.KoboPosition

open Omnibus.Library.Strings Omnibus.Library.Collapse

/-- Character number `j` is visible and lies in the text node of the span `(n, m)`. -/
structure InSpanText (r : Reading) (n m j : Nat) (glyph : Glyph) : Prop where
  found : r.glyphs[j]? = some glyph
  visible : glyph.visible = true
  spans : glyph.spans = [(n, m)]
  node : (r.spanText n m).map (·.node) = some glyph.node

/-- The endpoint `p`, as a start, is at character number `j`. -/
def StartsAt (r : Reading) (p : SpanPoint) (j : Nat) : Prop :=
  ∃ glyph, InSpanText r p.n p.m j glyph ∧ glyph.offset = p.charUtf16

/-- The endpoint `p`, as an exclusive end, is right after character number `j`. -/
def EndsAfter (r : Reading) (p : SpanPoint) (j : Nat) : Prop :=
  ∃ glyph, InSpanText r p.n p.m j glyph ∧ glyph.offset + utf16Width glyph.symbol = p.charUtf16

theorem StartsAt.found {r : Reading} {p : SpanPoint} {j : Nat} (starts : StartsAt r p j) :
    ∃ glyph, r.glyphs[j]? = some glyph ∧ glyph.visible = true := by
  obtain ⟨glyph, inSpan, _⟩ := starts
  exact ⟨glyph, inSpan.found, inSpan.visible⟩

theorem EndsAfter.found {r : Reading} {p : SpanPoint} {j : Nat} (ends : EndsAfter r p j) :
    ∃ glyph, r.glyphs[j]? = some glyph ∧ glyph.visible = true := by
  obtain ⟨glyph, inSpan, _⟩ := ends
  exact ⟨glyph, inSpan.found, inSpan.visible⟩

/-- Where a character of a span's text node is, and what the index finds for its span. -/
structure SpanPlace (events : List Event) (n m j : Nat) (glyph : Glyph) (cluster : Cluster)
    (left right : Text) (mark : SpanMark) : Prop where
  located : Located (indexFile events) ((read events).normAt j) cluster left glyph.symbol right
  offset : glyph.offset = utf16Length left
  found : (indexFile events).findSpan n m = some mark
  last : (indexFile events).lastMarkAt ((read events).normAt j) = some mark
  numbers : mark.n = n ∧ mark.m = m
  covering : (indexFile events).clusterCovering mark.normStart = some cluster
  first : left = [] → mark.normStart = (read events).normAt j

theorem exists_span_place (events : List Event) (covered : Covered (read events))
    (unnested : Unnested (read events)) (n m j : Nat) (glyph : Glyph)
    (inSpan : InSpanText (read events) n m j glyph) :
    ∃ cluster left right mark, SpanPlace events n m j glyph cluster left right mark := by
  obtain ⟨found, visible, spans, node⟩ := inSpan
  have member := List.mem_of_getElem? found
  obtain ⟨frame, inside, named⟩ := exists_span_frame covered glyph member visible (n, m) spans
  obtain ⟨tag, tagMember, same, opened, last⟩ :=
    exists_span_tag unnested j glyph found frame inside (n, m) named
  obtain ⟨first, firstFound, firstVisible, upper, text⟩ := span_text_eq covered tag tagMember j
    glyph found visible frame inside (by rw [same, named]) opened
  rw [same] at text
  rw [text] at node
  have sameNode : first.node = glyph.node := by simpa using node
  have mirrored := walk_mirrored events
  have placeFound := found
  have firstPlaceFound := firstFound
  rw [mirrored.glyphs] at placeFound firstPlaceFound
  obtain ⟨before, cluster, textNode, left, right, place⟩ := exists_glyph_at _ _ j glyph placeFound
  obtain ⟨before', cluster', textNode', left', right', firstPlace⟩ :=
    exists_glyph_at _ _ _ first firstPlaceFound
  obtain ⟨rfl, rfl⟩ := same_cluster events _ j first glyph before' before cluster' cluster textNode'
    textNode left' right' left right sameNode firstPlace place
  have firstLocated := located_of_glyph_at events _ first firstVisible _ _ _ _ _ firstPlace
  refine ⟨cluster', left, right, (read events).markOf tag, ?_⟩
  exact {
    located := located_of_glyph_at events j glyph visible _ _ _ _ _ place
    offset := place.offset
    found := by
      have := find_span_tag events covered.unique tag tagMember
      rwa [same] at this
    last := last_mark_at events j glyph found visible tag last
    numbers := by simp [Reading.markOf, same]
    covering := firstLocated.covering
    first := by
      intro equal
      subst equal
      have count := place.count
      have firstCount := firstPlace.count
      simp only [List.length_nil, Nat.add_zero] at count
      show (read events).normAt ((read events).firstVisible tag.openedAt) = _
      congr 1
      omega }

namespace SpanPlace

variable {events : List Event} {n m j : Nat} {glyph : Glyph} {cluster : Cluster}
  {left right : Text} {mark : SpanMark}

theorem in_cluster (place : SpanPlace events n m j glyph cluster left right mark) :
    ¬((read events).normAt j < cluster.normStart ∨
      (read events).normAt j ≥ cluster.normStart + cluster.normLen) := by
  have covers := List.find?_some place.located.covering
  simp only [Cluster.covers, Bool.and_eq_true, decide_eq_true_eq] at covers
  omega

theorem start_boundary (place : SpanPlace events n m j glyph cluster left right mark) :
    (indexFile events).spanBoundary n m glyph.offset = some ((read events).normAt j) := by
  simp only [FileIndex.spanBoundary, place.found, Option.bind_eq_bind, Option.bind_some]
  split_ifs with zero
  · have empty : left = [] := by
      cases left with
      | nil => rfl
      | cons symbol rest =>
          have := utf16_width_positive symbol
          have offset := place.offset
          simp only [utf16Length, extent_cons] at offset
          omega
    rw [place.first empty]
  · rw [place.covering, Option.bind_some, place.offset, place.located.replay_norm]

theorem end_offset (place : SpanPlace events n m j glyph cluster left right mark) :
    glyph.offset + utf16Width glyph.symbol = utf16Length (left ++ [glyph.symbol]) := by
  rw [place.offset]
  simp [utf16Length]

theorem end_boundary (place : SpanPlace events n m j glyph cluster left right mark) :
    (indexFile events).spanBoundary n m (glyph.offset + utf16Width glyph.symbol) =
      some ((read events).normAt j + 1) := by
  have positive := utf16_width_positive glyph.symbol
  simp only [FileIndex.spanBoundary, place.found, Option.bind_eq_bind, Option.bind_some]
  rw [if_neg (by omega), place.covering, Option.bind_some, place.end_offset,
    place.located.replay_norm_after]

theorem span_point (place : SpanPlace events n m j glyph cluster left right mark) :
    (indexFile events).spanPointAt ((read events).normAt j) =
        some { n, m, charUtf16 := glyph.offset } ∧
      (indexFile events).spanPointAfter ((read events).normAt j) =
        some { n, m, charUtf16 := glyph.offset + utf16Width glyph.symbol } := by
  obtain ⟨numberN, numberM⟩ := place.numbers
  rw [place.end_offset, place.offset]
  constructor
  · simp [FileIndex.spanPointAt, FileIndex.spanPoint, place.last, place.covering, place.in_cluster,
      place.located.replay_offset, numberN, numberM]
  · simp [FileIndex.spanPointAfter, FileIndex.spanPoint, place.last, place.covering,
      place.in_cluster, place.located.replay_offset_after, numberN, numberM]

end SpanPlace

section Endpoint

variable {events : List Event} {p : SpanPoint} {j : Nat}

theorem starts_at_boundary (covered : Covered (read events)) (unnested : Unnested (read events))
    (starts : StartsAt (read events) p j) :
    (indexFile events).spanBoundary p.n p.m p.charUtf16 = some ((read events).normAt j) ∧
      (indexFile events).spanPointAt ((read events).normAt j) = some p := by
  obtain ⟨glyph, inSpan, offset⟩ := starts
  obtain ⟨_, _, _, _, place⟩ := exists_span_place events covered unnested p.n p.m j glyph inSpan
  rw [← offset]
  exact ⟨place.start_boundary, by rw [place.span_point.1, offset]⟩

theorem ends_after_boundary (covered : Covered (read events)) (unnested : Unnested (read events))
    (ends : EndsAfter (read events) p j) :
    (indexFile events).spanBoundary p.n p.m p.charUtf16 = some ((read events).normAt j + 1) ∧
      (indexFile events).spanPointAfter ((read events).normAt j) = some p := by
  obtain ⟨glyph, inSpan, offset⟩ := ends
  obtain ⟨_, _, _, _, place⟩ := exists_span_place events covered unnested p.n p.m j glyph inSpan
  rw [← offset]
  exact ⟨place.end_boundary, by rw [place.span_point.2, offset]⟩

end Endpoint

end Omnibus.KoboPosition
