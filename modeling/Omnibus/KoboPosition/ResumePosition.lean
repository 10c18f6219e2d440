import Omnibus.KoboPosition.RoundTrip

/-!
# Resume positions there and back

A Kobo bookmark names a span; its CFI names the first visible character after the
span's tag. Going back finds the last span opened before that character, so a trip
never moves forward, and it returns to the span unless another one opens in between.
-/

namespace Omnibus.KoboPosition

open Omnibus.Library.Strings Omnibus.Library.Collapse

theorem visible_at_zero (events : List Event) (shape : (indexFile events).norm ≠ []) :
    (indexFile events).VisibleAt 0 := by
  obtain ⟨symbol, rest, split⟩ := List.exists_cons_of_ne_nil shape
  refine ⟨symbol, by rw [split]; rfl, ?_⟩
  rw [norm_eq] at split
  have solid := collapse_head_solid isWhitespace ' ' (read events).symbols symbol (by
    show (collapsed true (read events).symbols).head? = _
    rw [split]
    rfl)
  intro equal
  subst equal
  revert solid
  decide

theorem mark_place (events : List Event) (tag : SpanTag)
    (member : tag ∈ (read events).spanTags) :
    (∃ glyph, (read events).glyphs[(read events).firstVisible tag.openedAt]? = some glyph ∧
        glyph.visible = true) ∨
      ((read events).markOf tag).normStart = (indexFile events).norm.length := by
  by_cases shown : ∃ i glyph, (read events).glyphs[i]? = some glyph ∧ glyph.visible = true ∧
      tag.openedAt ≤ i
  · obtain ⟨i, glyph, found, visible, le⟩ := shown
    exact Or.inl (first_visible_spec (read events) tag.openedAt i glyph found visible le).2
  · right
    have opened := ((read_spanned events).below tag member).2
    have past := first_visible_none (read events) tag.openedAt opened (by
      intro i glyph found le
      by_contra visible
      exact shown ⟨i, glyph, found, by simpa using visible, le⟩)
    show (read events).normAt _ = _
    rw [past, norm_length]

theorem opened_before_inside {events : List Event} (covered : Covered (read events)) (tag : SpanTag)
    (member : tag ∈ (read events).spanTags) (j : Nat) (glyph : Glyph)
    (found : (read events).glyphs[j]? = some glyph) (frame : Frame) (inside : frame ∈ glyph.stack)
    (number : frame.tag = tag.tag) : tag.openedAt ≤ j := by
  have spanned := read_spanned events
  have fits := spanned.glyphs j glyph found
  obtain ⟨named, _⟩ := fits.inside tag member frame inside number
  obtain ⟨twin, twinMember, _, same, place⟩ := fits.owned frame inside tag.span named
  rw [← List.inj_on_of_nodup_map covered.unique twinMember member same, place]
  exact (spanned.nested.glyphs j glyph found frame inside).1

theorem offset_at_inside (index : FileIndex) (tail : CfiTail) (anchor : Anchor)
    (resolves : index.offsetAt tail = some anchor) :
    ∃ t, t < index.norm.length ∧ anchor = index.anchor t := by
  simp only [FileIndex.offsetAt, Option.bind_eq_bind, Option.bind_eq_some_iff,
    Option.some.injEq] at resolves
  obtain ⟨cluster, _, landed, landing, rfl⟩ := resolves
  exact ⟨landed, FileIndex.land_inside landing, rfl⟩

theorem exists_span_before {events : List Event} (covered : Covered (read events)) (j : Nat)
    (glyph : Glyph) (found : (read events).glyphs[j]? = some glyph)
    (visible : glyph.visible = true) :
    ∃ tag, LastOpened (read events) j tag := by
  have spanned := read_spanned events
  obtain ⟨frame, outer, span, shape, named, _⟩ :=
    covered.direct glyph (List.mem_of_getElem? found) visible
  have inside : frame ∈ glyph.stack := by
    rw [shape]
    simp
  obtain ⟨tag, tagMember, _, _, place⟩ := (spanned.glyphs j glyph found).owned frame inside span named
  have start := (spanned.nested.glyphs j glyph found frame inside).1
  exact exists_last_opened events j tag tagMember (by omega)

/-- From any offset, the mark found is the one of the last span opened before the last
visible character up to it. -/
theorem exists_last_mark {events : List Event} (covered : Covered (read events)) (t : Nat)
    (inside : t < (indexFile events).norm.length) :
    ∃ j glyph tag, (read events).glyphs[j]? = some glyph ∧ glyph.visible = true ∧
      (read events).normAt j ≤ t ∧ LastOpened (read events) j tag ∧
      (indexFile events).lastMarkAt t = some ((read events).markOf tag) := by
  have shape : (indexFile events).norm ≠ [] := by
    intro empty
    simp [empty] at inside
  obtain ⟨back, found⟩ := FileIndex.back_land_isSome (Nat.zero_le t) (visible_at_zero events shape)
  obtain ⟨le, solid, quiet⟩ := FileIndex.back_land_cases found
  obtain ⟨j, glyph, glyphFound, visible, rfl⟩ := exists_glyph events back solid
  obtain ⟨tag, last⟩ := exists_span_before covered j glyph glyphFound visible
  refine ⟨j, glyph, tag, glyphFound, visible, le, last, ?_⟩
  refine last_mark_eq events t tag last.member ?_ ?_
  · intro other _ opened
    exact Nat.le_trans ((mark_le_iff _ other j glyph glyphFound visible).mpr
      (Nat.le_trans opened last.opened)) le
  · intro other member later
    have after : ¬((read events).markOf other).normStart ≤ (read events).normAt j := by
      rw [mark_le_iff _ other j glyph glyphFound visible]
      have := last.last other member later
      omega
    rcases mark_place events other member with ⟨shown, shownFound, shownVisible⟩ | past
    · by_contra more
      exact quiet _ (Nat.lt_of_not_le after) (Nat.le_of_not_lt more)
        (visible_at_norm events _ shown shownFound shownVisible)
    · rw [past]
      exact inside

theorem visible_chars_ok (items : List SpineItem)
    (readable : ∀ item ∈ items, item.entry ≠ .missing) :
    ∃ counts, visibleChars items = .ok counts := by
  induction items with
  | nil => exact ⟨[], rfl⟩
  | cons item rest induction =>
      obtain ⟨counts, counted⟩ := induction fun other member => readable other (by simp [member])
      cases entry : item.entry with
      | missing => exact absurd entry (readable item (by simp))
      | malformed => exact ⟨0 :: counts, by simp [visibleChars, entry, counted, bind, Except.bind]⟩
      | document events =>
          exact ⟨(indexFile events).visibleCharCount :: counts, by
            simp [visibleChars, entry, counted, bind, Except.bind]⟩

theorem book_percent_ok (source : Doc) (spineIndex offsetInFile : Nat)
    (readable : ∀ item ∈ source.spine, item.entry ≠ .missing) :
    ∃ percent, bookPercent source spineIndex offsetInFile = .ok percent := by
  obtain ⟨counts, counted⟩ := visible_chars_ok source.spine readable
  simp only [bookPercent, counted, bind, Except.bind]
  split_ifs
  · exact ⟨_, rfl⟩
  · exact ⟨_, rfl⟩

namespace SharedItem

variable {source kepub : Doc} (item : SharedItem source kepub)

theorem cfi_to_span_of_mark (readable : ∀ entry ∈ source.spine, entry.entry ≠ .missing)
    (cfi : Text) (parsed : Cfi) (t : Nat) (mark : SpanMark)
    (reads : parseCfi cfi = some parsed) (here : parsed.spineIndex = item.sourceIndex)
    (resolves : (indexFile item.sourceEvents).offsetAt parsed.tail =
      some ((indexFile item.sourceEvents).anchor t))
    (last : (indexFile item.kepubEvents).lastMarkAt t = some mark) :
    ∃ derived, cfiToSpan (some kepub) source cfi = .ok derived ∧
      derived.location = some { source := item.href, n := mark.n, m := mark.m } := by
  obtain ⟨percent, counted⟩ := book_percent_ok source item.sourceIndex t readable
  have half : deriveSpanHalf kepub item.href ((indexFile item.sourceEvents).anchor t) =
      .ok (some { source := item.href, n := mark.n, m := mark.m }) := by
    simp [deriveSpanHalf, item.kepubLookup, bind, Except.bind, FileIndex.anchor, item.same_snippet,
      FileIndex.spanAt, last]
  refine ⟨{ location := some { source := item.href, n := mark.n, m := mark.m }
            percent := some percent }, ?_, rfl⟩
  rw [cfiToSpan, reads]
  simp only [here, if_neg item.in_spine, item.source_href, item.source_index_at, bind, Except.bind,
    resolves, half, Option.bind_some]
  simp only [FileIndex.anchor, counted]
  rfl

theorem span_to_cfi_of_mark (href : Text) (named : item.Named href) (tag : SpanTag)
    (unique : ((read item.kepubEvents).spanTags.map (·.span)).Nodup)
    (member : tag ∈ (read item.kepubEvents).spanTags) (glyph : Glyph)
    (found : (read item.kepubEvents).glyphs[(read item.kepubEvents).firstVisible tag.openedAt]? =
      some glyph) (visible : glyph.visible = true) :
    ∃ cfi parsed,
      spanToCfi kepub source { source := href, n := tag.span.1, m := tag.span.2 } = .ok (some cfi) ∧
      parseCfi cfi = some parsed ∧ parsed.spineIndex = item.sourceIndex ∧
      (indexFile item.sourceEvents).offsetAt parsed.tail =
        some ((indexFile item.sourceEvents).anchor
          ((read item.kepubEvents).markOf tag).normStart) := by
  have solid := visible_at_norm item.kepubEvents _ glyph found visible
  obtain ⟨start, «end», tails⟩ := item.exists_tails _ _ ((item.same_visible _).mp solid)
    ((item.same_visible _).mp solid)
  have span := find_span_tag item.kepubEvents unique tag member
  refine ⟨formatCfi item.sourceIndex start, _, ?_,
    parse_cfi_format item.sourceIndex start item.spineFits tails.startRange, rfl, tails.startBack⟩
  have anchor : (indexFile item.kepubEvents).spanStart tag.span.1 tag.span.2 =
      some ((indexFile item.kepubEvents).anchor ((read item.kepubEvents).markOf tag).normStart) := by
    rw [FileIndex.spanStart, span, Option.map_some]
  rw [spanToCfi]
  simp only [named.kepub, named.source, item.kepub_index_at, item.source_index_at, bind, Except.bind,
    anchor]
  simp only [FileIndex.anchor, item.same_snippet]
  have tail := tails.startAt
  simp only [FileIndex.anchor] at tail
  simp [Reading.markOf, tail]

end SharedItem

/-- A span with visible text, in which no other span starts before its first visible
character, survives the trip. From any CFI that resolves, the span found lies no further
on, and the trip from it stays on it. -/
theorem resume_round_trip {source kepub : Doc} (item : SharedItem source kepub)
    (readable : ∀ entry ∈ source.spine, entry.entry ≠ .missing)
    (covered : Covered (read item.kepubEvents)) :
    (∀ tag ∈ (read item.kepubEvents).spanTags, ∀ href, item.Named href →
      (∃ glyph ∈ (read item.kepubEvents).glyphs, glyph.visible = true ∧
        ∃ frame ∈ glyph.stack, frame.tag = tag.tag) →
      (∀ other ∈ (read item.kepubEvents).spanTags, tag.tag < other.tag →
        (read item.kepubEvents).firstVisible tag.openedAt < other.openedAt) →
      ∃ cfi derived,
        spanToCfi kepub source { source := href, n := tag.span.1, m := tag.span.2 } =
          .ok (some cfi) ∧
        cfiToSpan (some kepub) source cfi = .ok derived ∧
        derived.location = some { source := item.href, n := tag.span.1, m := tag.span.2 }) ∧
    ∀ cfi parsed anchor, parseCfi cfi = some parsed → parsed.spineIndex = item.sourceIndex →
      (indexFile item.sourceEvents).offsetAt parsed.tail = some anchor →
      ∃ derived loc back parsedBack anchorBack derivedBack,
        cfiToSpan (some kepub) source cfi = .ok derived ∧ derived.location = some loc ∧
        spanToCfi kepub source loc = .ok (some back) ∧ parseCfi back = some parsedBack ∧
        (indexFile item.sourceEvents).offsetAt parsedBack.tail = some anchorBack ∧
        anchorBack.normOffset ≤ anchor.normOffset ∧
        cfiToSpan (some kepub) source back = .ok derivedBack ∧ derivedBack.location = some loc := by
  constructor
  · intro tag member href named ⟨glyph, glyphMember, visible, frame, inside, number⟩ clear
    obtain ⟨j, found⟩ := List.mem_iff_getElem?.mp glyphMember
    have opened := opened_before_inside covered tag member j glyph found frame inside number
    obtain ⟨_, first, firstFound, firstVisible⟩ :=
      first_visible_spec (read item.kepubEvents) tag.openedAt j glyph found visible opened
    have last := last_mark_at item.kepubEvents _ first firstFound firstVisible tag
      ⟨member, first_visible_ge _ _, clear⟩
    obtain ⟨cfi, parsed, forward, reads, here, resolves⟩ :=
      item.span_to_cfi_of_mark href named tag covered.unique member first firstFound firstVisible
    obtain ⟨derived, back, location⟩ :=
      item.cfi_to_span_of_mark readable cfi parsed _ _ reads here resolves last
    exact ⟨cfi, derived, forward, back, location⟩
  · intro cfi parsed anchor reads here resolves
    obtain ⟨t, inBounds, rfl⟩ := offset_at_inside _ parsed.tail anchor resolves
    rw [← item.same_norm] at inBounds
    obtain ⟨j, glyph, tag, found, visible, le, last, marked⟩ := exists_last_mark covered t inBounds
    obtain ⟨derived, toSpan, location⟩ :=
      item.cfi_to_span_of_mark readable cfi parsed t _ reads here resolves marked
    obtain ⟨upper, first, firstFound, firstVisible⟩ :=
      first_visible_spec (read item.kepubEvents) tag.openedAt j glyph found visible last.opened
    obtain ⟨back, parsedBack, toCfi, readsBack, hereBack, resolvesBack⟩ :=
      item.span_to_cfi_of_mark item.href item.named_href tag covered.unique last.member first
        firstFound firstVisible
    have lastBack := last_mark_at item.kepubEvents _ first firstFound firstVisible tag
      ⟨last.member, first_visible_ge _ _, fun other member later =>
        Nat.lt_of_le_of_lt upper (last.last other member later)⟩
    obtain ⟨derivedBack, again, locationBack⟩ :=
      item.cfi_to_span_of_mark readable back parsedBack _ _ readsBack hereBack resolvesBack lastBack
    exact ⟨derived, _, back, parsedBack, _, derivedBack, toSpan, location, toCfi, readsBack,
      resolvesBack, Nat.le_trans (norm_at_mono _ upper) le, again, locationBack⟩

theorem resume_round_trip_plain :
    (∃ cfi derived,
      spanToCfi (chapterBook [spanStartTag '1', .text ['H', 'i', ' ', 'y', 'o', 'u'] 6, .close])
        (chapterBook [.text ['H', 'i', ' ', 'y', 'o', 'u'] 6])
        { source := ['c', '1'], n := 1, m := 1 } = .ok (some cfi) ∧
      cfiToSpan
        (some (chapterBook [spanStartTag '1', .text ['H', 'i', ' ', 'y', 'o', 'u'] 6, .close]))
        (chapterBook [.text ['H', 'i', ' ', 'y', 'o', 'u'] 6]) cfi = .ok derived ∧
      derived.location = some { source := ['c', '1'], n := 1, m := 1 }) := by
  exact (resume_round_trip plainItem (by decide) ⟨by decide, by decide⟩).1
    { tag := 3, span := (1, 1), openedAt := 0
      around := [⟨2, none, 0⟩, ⟨1, none, 0⟩, ⟨0, none, 0⟩] } (by decide)
    ['c', '1'] ⟨by decide, by decide⟩ (by decide) (by decide)

/-- `<span 1.1><span 1.2> </span>Hi</span>` against ` Hi`. -/
def nestedItem :
    SharedItem (chapterBook [.text [' ', 'H', 'i'] 3])
      (chapterBook [spanStartTag '1', spanStartTag '2', .text [' '] 1, .close,
        .text ['H', 'i'] 2, .close]) where
  sourceIndex := 0
  kepubIndex := 0
  href := ['c', '1']
  kepubHref := ['c', '1']
  sourceEvents := _
  kepubEvents := _
  sourceItem := rfl
  kepubItem := rfl
  sourceLookup := by decide
  kepubLookup := by decide
  single := by decide
  sameText := by decide
  spineFits := first_item_fits
  sourceFits := ⟨by decide, by decide, by decide⟩

/-- A blank span inside another takes its place. -/
theorem nested_blank_span_moves :
    Covered (read nestedItem.kepubEvents) ∧
      ((read nestedItem.kepubEvents).spanText 1 1).isSome ∧
      ¬∃ cfi derived,
        spanToCfi (chapterBook [spanStartTag '1', spanStartTag '2', .text [' '] 1, .close,
          .text ['H', 'i'] 2, .close]) (chapterBook [.text [' ', 'H', 'i'] 3])
          { source := ['c', '1'], n := 1, m := 1 } = .ok (some cfi) ∧
        cfiToSpan (some (chapterBook [spanStartTag '1', spanStartTag '2', .text [' '] 1, .close,
          .text ['H', 'i'] 2, .close])) (chapterBook [.text [' ', 'H', 'i'] 3]) cfi =
          .ok derived ∧
        derived.location = some { source := ['c', '1'], n := 1, m := 1 } := by
  refine ⟨⟨by decide, by decide⟩, by decide, ?_⟩
  intro ⟨cfi, derived, forward, back, location⟩
  have written : spanToCfi (chapterBook [spanStartTag '1', spanStartTag '2', .text [' '] 1, .close,
      .text ['H', 'i'] 2, .close]) (chapterBook [.text [' ', 'H', 'i'] 3])
      { source := ['c', '1'], n := 1, m := 1 } =
      .ok (some (formatCfi 0 { elementSteps := [2, 2], textIndex := 1, offsetUtf16 := 1 })) := by rfl
  obtain rfl := Option.some.inj (Except.ok.inj (written.symm.trans forward))
  have moved : cfiToSpan (some (chapterBook [spanStartTag '1', spanStartTag '2', .text [' '] 1,
      .close, .text ['H', 'i'] 2, .close])) (chapterBook [.text [' ', 'H', 'i'] 3])
      (formatCfi 0 { elementSteps := [2, 2], textIndex := 1, offsetUtf16 := 1 }) =
      .ok { location := some { source := ['c', '1'], n := 1, m := 2 }, percent := some 0 } := by
    rfl
  obtain rfl := Except.ok.inj (moved.symm.trans back)
  revert location
  decide

end Omnibus.KoboPosition
