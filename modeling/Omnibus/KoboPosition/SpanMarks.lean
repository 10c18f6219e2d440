import Omnibus.KoboPosition.Nesting

/-!
# Where the spans start

Each span tag gets one mark, at the first visible character after it. So the last mark
at or before a visible character belongs to the last span opened before it.
-/

namespace Omnibus.KoboPosition

open Omnibus.Library.Strings

def Reading.markOf (r : Reading) (tag : SpanTag) : SpanMark where
  n := tag.span.1
  m := tag.span.2
  normStart := r.normAt (r.firstVisible tag.openedAt)

theorem first_visible_eq (r : Reading) (j i : Nat) (glyph : Glyph)
    (found : r.glyphs[i]? = some glyph) (visible : glyph.visible = true) (le : j ≤ i)
    (blank : ∀ between other, r.glyphs[between]? = some other → j ≤ between → between < i →
      other.visible = false) : r.firstVisible j = i := by
  obtain ⟨upper, first, firstFound, firstVisible⟩ := first_visible_spec r j i glyph found visible le
  by_contra other
  have := blank _ first firstFound (first_visible_ge r j) (by omega)
  rw [firstVisible] at this
  exact absurd this (by simp)

theorem first_visible_none (r : Reading) (j : Nat) (inside : j ≤ r.glyphs.length)
    (blank : ∀ i glyph, r.glyphs[i]? = some glyph → j ≤ i → glyph.visible = false) :
    r.firstVisible j = r.glyphs.length := by
  have none : (r.glyphs.drop j).findIdx (·.visible) = (r.glyphs.drop j).length := by
    rw [List.findIdx_eq_length]
    intro glyph member
    obtain ⟨i, found⟩ := List.mem_iff_getElem?.mp member
    rw [List.getElem?_drop] at found
    exact blank _ glyph found (Nat.le_add_right j i)
  rw [Reading.firstVisible, none, List.length_drop]
  omega

section Text

variable {r : Reading} {decoded : Text}

theorem text_glyphs (inBody : r.bodyDepth ≠ 0) :
    (r.text decoded).glyphs = r.glyphs ++ glyphRun r.stack r.node r.offset decoded := by
  rw [Reading.text_eq decoded r inBody]

theorem norm_at_text (inBody : r.bodyDepth ≠ 0) (j : Nat) (le : j ≤ r.glyphs.length) :
    (r.text decoded).normAt j = r.normAt j := by
  have length : r.symbols.length = r.glyphs.length := by simp [Reading.symbols]
  rw [Reading.normAt, symbols_text decoded r inBody, List.take_append_of_le_length (by omega)]
  rfl

theorem mark_text (inBody : r.bodyDepth ≠ 0) (tag : SpanTag) (i : Nat) (glyph : Glyph)
    (found : r.glyphs[i]? = some glyph) (visible : glyph.visible = true) (le : tag.openedAt ≤ i) :
    (r.text decoded).markOf tag = r.markOf tag := by
  obtain ⟨upper, first, firstFound, firstVisible⟩ :=
    first_visible_spec r tag.openedAt i glyph found visible le
  have inside := (List.getElem?_eq_some_iff.mp firstFound).1
  have kept : ∀ j, j < r.glyphs.length → (r.text decoded).glyphs[j]? = r.glyphs[j]? := by
    intro j less
    rw [text_glyphs inBody, List.getElem?_append_left less]
  have same : (r.text decoded).firstVisible tag.openedAt = r.firstVisible tag.openedAt := by
    apply first_visible_eq _ _ _ first (by rw [kept _ inside, firstFound]) firstVisible
      (first_visible_ge r _)
    intro between other otherFound lower less
    rw [kept between (by omega)] at otherFound
    exact first_visible_least r _ between other otherFound lower less
  rw [Reading.markOf, Reading.markOf, same, norm_at_text inBody _ (Nat.le_of_lt inside)]

end Text

/-- The marks written so far, and the tags still waiting for a visible character. -/
structure Marked (b : Builder) (r : Reading) (settled waiting : List SpanTag) : Prop where
  tags : r.spanTags = settled ++ waiting
  spans : b.spans = settled.map r.markOf
  pending : b.pendingSpans = waiting.map (·.span)
  opened : ∀ tag ∈ r.spanTags, tag.openedAt ≤ r.glyphs.length
  seen : ∀ tag ∈ settled, ∃ i glyph, r.glyphs[i]? = some glyph ∧ glyph.visible = true ∧
    tag.openedAt ≤ i
  blank : ∀ tag ∈ waiting, ∀ i glyph, r.glyphs[i]? = some glyph → tag.openedAt ≤ i →
    glyph.visible = false

theorem split_at_solid (text : Text) (solid : ¬text.all isWhitespace = true) :
    ∃ symbol rest, text = text.takeWhile isWhitespace ++ symbol :: rest ∧
      isWhitespace symbol = false := by
  induction text with
  | nil => simp at solid
  | cons first rest induction =>
      cases space : isWhitespace first with
      | false => exact ⟨first, rest, by simp [space], space⟩
      | true =>
          obtain ⟨symbol, after, split, found⟩ := induction (by simpa [space] using solid)
          refine ⟨symbol, after, ?_, found⟩
          rw [List.takeWhile_cons_of_pos space, List.cons_append, ← split]

namespace Marked

variable {b : Builder} {r : Reading} {settled waiting : List SpanTag}

theorem congr {other : Builder} (marked : Marked b r settled waiting)
    (spans : other.spans = b.spans) (pending : other.pendingSpans = b.pendingSpans) :
    Marked other r settled waiting :=
  { marked with
    spans := spans.trans marked.spans
    pending := pending.trans marked.pending }

theorem text_blank (marked : Marked b r settled waiting) (decoded : Text)
    (inBody : r.bodyDepth ≠ 0) (spaces : decoded.all isWhitespace = true) :
    Marked b (r.text decoded) settled waiting := by
  have glyphs : (r.text decoded).glyphs = _ := text_glyphs inBody
  have tags : (r.text decoded).spanTags = r.spanTags := by
    rw [Reading.text_eq decoded r inBody]
    rfl
  have length : r.glyphs.length ≤ (r.text decoded).glyphs.length := by
    rw [glyphs, List.length_append]
    omega
  exact {
    tags := tags.trans marked.tags
    spans := by
      rw [marked.spans]
      apply List.map_congr_left
      intro tag member
      obtain ⟨i, glyph, found, visible, le⟩ := marked.seen tag member
      exact (mark_text inBody tag i glyph found visible le).symm
    pending := marked.pending
    opened := by
      rw [tags]
      exact fun tag member => Nat.le_trans (marked.opened tag member) length
    seen := by
      intro tag member
      obtain ⟨i, glyph, found, visible, le⟩ := marked.seen tag member
      refine ⟨i, glyph, ?_, visible, le⟩
      rw [glyphs, List.getElem?_append_left (List.getElem?_eq_some_iff.mp found).1, found]
    blank := by
      intro tag member i glyph found le
      rw [glyphs, List.getElem?_append] at found
      split_ifs at found
      · exact marked.blank tag member i glyph found le
      · obtain ⟨left, right, split, _⟩ := glyph_run_at _ _ _ _ _ _ found
        have space : isWhitespace glyph.symbol = true :=
          List.all_eq_true.mp spaces _ (by rw [split]; simp)
        simp [Glyph.visible, space] }

theorem text_visible (marked : Marked b r settled waiting) (tiled : Tiled b r)
    (lead rest : Text) (symbol : Char) (inBody : r.bodyDepth ≠ 0)
    (blank : ∀ space ∈ lead, isWhitespace space = true) (solid : isWhitespace symbol = false)
    (next : Builder) (pending : next.pendingSpans = [])
    (spans : next.spans = b.spans ++ b.pendingSpans.map fun span =>
      { n := span.1, m := span.2, normStart := b.normLen + (collapsed b.run lead).length }) :
    Marked next (r.text (lead ++ symbol :: rest)) (settled ++ waiting) [] := by
  have glyphs : (r.text (lead ++ symbol :: rest)).glyphs = _ := text_glyphs inBody
  have tags : (r.text (lead ++ symbol :: rest)).spanTags = r.spanTags := by
    rw [Reading.text_eq _ r inBody]
    rfl
  have symbols := symbols_text (lead ++ symbol :: rest) r inBody
  have length : r.symbols.length = r.glyphs.length := by simp [Reading.symbols]
  obtain ⟨shown, shownAt, shownSymbol⟩ : ∃ shown,
      (r.text (lead ++ symbol :: rest)).glyphs[r.glyphs.length + lead.length]? = some shown ∧
        shown.symbol = symbol := by
    have here : (r.text (lead ++ symbol :: rest)).symbols[r.glyphs.length + lead.length]? =
        some symbol := by
      rw [symbols, ← length, List.getElem?_append_right (by omega)]
      simp
    rw [Reading.symbols, List.getElem?_map] at here
    exact Option.map_eq_some_iff.mp here
  have visible : shown.visible = true := by simp [Glyph.visible, shownSymbol, solid]
  have place : (r.text (lead ++ symbol :: rest)).normAt (r.glyphs.length + lead.length) =
      b.normLen + (collapsed b.run lead).length := by
    rw [Reading.normAt, symbols, show r.symbols ++ (lead ++ symbol :: rest) =
      (r.symbols ++ lead) ++ symbol :: rest by simp, List.take_left' (by simp [length]),
      collapsed_append, List.length_append, ← tiled.run, tiled.normLen]
  have landed : ∀ tag ∈ waiting, (r.text (lead ++ symbol :: rest)).firstVisible tag.openedAt =
      r.glyphs.length + lead.length := by
    intro tag member
    have opened := marked.opened tag (by rw [marked.tags]; exact List.mem_append_right _ member)
    apply first_visible_eq _ _ _ shown shownAt visible (by omega)
    intro between other found lower upper
    rw [glyphs, List.getElem?_append] at found
    split_ifs at found with before
    · exact marked.blank tag member between other found lower
    · obtain ⟨left, right, split, count, _⟩ := glyph_run_at _ _ _ _ _ _ found
      have member : other.symbol ∈ lead := by
        have here := congrArg (·[left.length]?) split
        simp only [List.getElem?_append_right (le_refl left.length), Nat.sub_self,
          List.getElem?_cons_zero] at here
        rw [List.getElem?_append_left (by omega)] at here
        exact List.mem_of_getElem? here
      simp [Glyph.visible, blank _ member]
  exact {
    tags := by rw [tags, marked.tags, List.append_nil]
    spans := by
      rw [spans, marked.spans, marked.pending, List.map_append, List.map_map]
      congr 1
      · apply List.map_congr_left
        intro tag member
        obtain ⟨i, glyph, found, visible, le⟩ := marked.seen tag member
        exact (mark_text inBody tag i glyph found visible le).symm
      · apply List.map_congr_left
        intro tag member
        simp only [Function.comp, Reading.markOf, landed tag member, place]
    pending := by simp [pending]
    opened := by
      rw [tags, glyphs, List.length_append]
      exact fun tag member => Nat.le_trans (marked.opened tag member) (Nat.le_add_right _ _)
    seen := by
      intro tag member
      rcases List.mem_append.mp member with before | last
      · obtain ⟨i, glyph, found, visible, le⟩ := marked.seen tag before
        refine ⟨i, glyph, ?_, visible, le⟩
        rw [glyphs, List.getElem?_append_left (List.getElem?_eq_some_iff.mp found).1, found]
      · have opened := marked.opened tag (by rw [marked.tags]; exact List.mem_append_right _ last)
        exact ⟨_, shown, shownAt, visible, by omega⟩
    blank := by simp }

theorem keeps : Keeps fun b r => Tiled b r ∧ ∃ settled waiting, Marked b r settled waiting where
  start b r localName qname id both := by
    obtain ⟨tiled, settled, waiting, marked⟩ := both
    refine ⟨Tiled.keeps.start b r localName qname id tiled, settled, waiting ++
      (r.spanOf id).toList.map fun span =>
        { tag := r.node, span, openedAt := r.glyphs.length, around := r.stack }, ?_⟩
    rw [Builder.element_start_eq]
    have fresh : ∀ tag ∈ (r.start localName id).spanTags,
        tag ∈ r.spanTags ∨ tag.openedAt = r.glyphs.length := by
      intro tag member
      rcases List.mem_append.mp member with before | last
      · exact Or.inl before
      · obtain ⟨span, _, rfl⟩ := List.mem_map.mp last
        exact Or.inr rfl
    exact {
      tags := by
        show r.spanTags ++ _ = _
        rw [marked.tags, List.append_assoc]
      spans := marked.spans
      pending := by
        simp only [marked.pending, List.map_append, List.map_map, Reading.spanOf, tiled.bodyDepth]
        congr 1
        exact (List.map_id _).symm
      opened := by
        intro tag member
        rcases fresh tag member with before | place
        · exact marked.opened tag before
        · exact Nat.le_of_eq place
      seen := marked.seen
      blank := by
        intro tag member i glyph found le
        rcases List.mem_append.mp member with before | last
        · exact marked.blank tag before i glyph found le
        · obtain ⟨span, _, rfl⟩ := List.mem_map.mp last
          have inside : i < r.glyphs.length := (List.getElem?_eq_some_iff.mp found).1
          simp only at le
          omega }
  close b r both := by
    obtain ⟨tiled, settled, waiting, marked⟩ := both
    refine ⟨Tiled.keeps.close b r tiled, settled, waiting, ?_⟩
    rw [Builder.element_end_eq]
    exact ⟨marked.tags, marked.spans, marked.pending, marked.opened, marked.seen, marked.blank⟩
  text b r decoded sourceBytes both := by
    obtain ⟨tiled, settled, waiting, marked⟩ := both
    refine ⟨Tiled.keeps.text b r decoded sourceBytes tiled, ?_⟩
    by_cases inBody : r.bodyDepth = 0
    · rw [Builder.chars, if_pos (by rw [tiled.bodyDepth, inBody]), Reading.text, if_pos inBody]
      exact ⟨settled, waiting, marked⟩
    · obtain ⟨front, cluster, last⟩ := tiled.opened_last
      have opened := tiled.opened
      have kept : b.opened.spans = b.spans ∧ b.opened.pendingSpans = b.pendingSpans := by
        cases closed : b.openCluster with
        | none => simp [Builder.opened_of_none b closed]
        | some i => simp [Builder.opened_of_some b i closed]
      rw [Builder.chars_eq decoded sourceBytes b (by rwa [tiled.bodyDepth]) front cluster last]
      by_cases spaces : decoded.all isWhitespace = true
      · refine ⟨settled, waiting, (marked.text_blank decoded inBody spaces).congr ?_ ?_⟩
        · simp [Builder.absorb, spaces, kept.1]
        · simp [Builder.absorb, spaces, kept.2]
      · obtain ⟨symbol, rest, split, solid⟩ := split_at_solid decoded spaces
        have settles := (marked.congr kept.1 kept.2).text_visible opened
          (decoded.takeWhile isWhitespace) rest symbol inBody
          (fun space member => List.mem_takeWhile_imp member) solid
          (Builder.absorb front (Builder.extendCluster decoded sourceBytes cluster) decoded
            { b.opened with
              clusters := front ++ [Builder.extendCluster decoded sourceBytes cluster] })
          (by simp [Builder.absorb, spaces]) (by simp only [Builder.absorb, spaces]; rfl)
        rw [← split] at settles
        exact ⟨_, _, settles⟩
  flag b r both := by
    obtain ⟨tiled, settled, waiting, marked⟩ := both
    refine ⟨Tiled.keeps.flag b r tiled, settled, waiting, ?_⟩
    unfold Builder.flagMarkup
    split <;>
      exact ⟨marked.tags, marked.spans, marked.pending, marked.opened, marked.seen, marked.blank⟩
  pending b r both := by
    obtain ⟨tiled, settled, waiting, marked⟩ := both
    exact ⟨Tiled.keeps.pending b r tiled, settled, waiting,
      ⟨marked.tags, marked.spans, marked.pending, marked.opened, marked.seen, marked.blank⟩⟩

end Marked

theorem spans_eq (events : List Event) :
    (indexFile events).spans = (read events).spanTags.map (read events).markOf := by
  obtain ⟨tiled, settled, waiting, marked⟩ := Marked.keeps.walk
    ⟨walk_tiled [], [], [], ⟨rfl, rfl, rfl, by simp, by simp, by simp⟩⟩ events
  show (walk events).spans ++ _ = _
  rw [marked.spans, marked.pending, marked.tags, List.map_append, List.map_map]
  congr 1
  apply List.map_congr_left
  intro tag member
  have opened := marked.opened tag (by rw [marked.tags]; exact List.mem_append_right _ member)
  have place := first_visible_none (read events) tag.openedAt opened (marked.blank tag member)
  simp only [Function.comp, Reading.markOf, place, ← norm_length, norm_eq, tiled.normLen]

end Omnibus.KoboPosition
