import Omnibus.KoboPosition.SpanMarks

/-!
# Spans and the characters inside them

Where no span is opened inside another, the last span opened before a character of a
span is that span itself, so its mark is the one found from the character's offset.
-/

namespace Omnibus.KoboPosition

open Omnibus.Library.Strings

/-- How the span tags read so far relate to the elements open after `count` characters. -/
structure Fits (tags : List SpanTag) (stack : List Frame) (count : Nat) : Prop where
  owned : ∀ frame ∈ stack, ∀ span, frame.span = some span →
    ∃ tag ∈ tags, tag.tag = frame.tag ∧ tag.span = span ∧ tag.openedAt = frame.openedAt
  around : ∀ tag ∈ tags, tag.openedAt ≤ count → ∀ frame ∈ stack, frame.tag < tag.tag →
    frame ∈ tag.around
  inside : ∀ tag ∈ tags, ∀ frame ∈ stack, frame.tag = tag.tag →
    frame.span = some tag.span ∧ ∀ outer ∈ tag.around, outer ∈ stack ∧ outer.tag < tag.tag

structure Spanned (r : Reading) : Prop where
  nested : Nested r
  ordered : r.spanTags.Pairwise fun earlier later =>
    earlier.tag < later.tag ∧ earlier.openedAt ≤ later.openedAt
  below : ∀ tag ∈ r.spanTags, tag.tag < r.node ∧ tag.openedAt ≤ r.glyphs.length
  stack : Fits r.spanTags r.stack r.glyphs.length
  passed : ∀ glyph ∈ r.glyphs, ∀ frame ∈ glyph.stack, frame.tag < r.node
  glyphs : ∀ j glyph, r.glyphs[j]? = some glyph → Fits r.spanTags glyph.stack j

namespace Spanned

variable {r : Reading}

theorem start (spanned : Spanned r) (localName : Text) (id : Option Text) :
    Spanned (r.start localName id) := by
  have fresh : ∀ tag ∈ (r.start localName id).spanTags, tag ∈ r.spanTags ∨
      (tag.tag = r.node ∧ tag.openedAt = r.glyphs.length ∧ tag.around = r.stack ∧
        r.spanOf id = some tag.span) := by
    intro tag member
    rcases List.mem_append.mp member with before | last
    · exact Or.inl before
    · obtain ⟨span, has, rfl⟩ := List.mem_map.mp last
      exact Or.inr ⟨rfl, rfl, rfl, Option.mem_toList.mp has⟩
  have kept : ∀ tag ∈ r.spanTags, tag ∈ (r.start localName id).spanTags :=
    fun tag member => List.mem_append_left _ member
  have below := spanned.nested.below
  exact {
    nested := Nested.keeps.start {} r localName [] id spanned.nested
    ordered := by
      show List.Pairwise _ (r.spanTags ++ _)
      refine List.pairwise_append.mpr ⟨spanned.ordered, ?_, ?_⟩
      · cases r.spanOf id <;> simp
      · intro earlier member later last
        obtain ⟨span, _, rfl⟩ := List.mem_map.mp last
        exact spanned.below earlier member
    below := by
      intro tag member
      show tag.tag < r.node + 1 ∧ tag.openedAt ≤ r.glyphs.length
      rcases fresh tag member with before | ⟨number, place, _, _⟩
      · have := spanned.below tag before
        omega
      · omega
    stack := {
      owned := by
        intro frame member span found
        rcases List.mem_cons.mp member with rfl | before
        · refine ⟨{ tag := r.node, span, openedAt := r.glyphs.length, around := r.stack },
            List.mem_append_right _ (List.mem_map.mpr ⟨span, ?_, rfl⟩), rfl, rfl, rfl⟩
          rw [Option.mem_toList]
          exact found
        · obtain ⟨tag, tagMember, same⟩ := spanned.stack.owned frame before span found
          exact ⟨tag, kept tag tagMember, same⟩
      around := by
        intro tag member _ frame frameMember less
        rcases fresh tag member with before | ⟨number, _, around, _⟩ <;>
          rcases List.mem_cons.mp frameMember with rfl | frameBefore
        · have := (spanned.below tag before).1
          simp only [Reading.newFrame] at less
          omega
        · exact spanned.stack.around tag before (spanned.below tag before).2 frame frameBefore less
        · simp only [Reading.newFrame] at less
          omega
        · rwa [around]
      inside := by
        intro tag member frame frameMember same
        rcases fresh tag member with before | ⟨number, _, around, span⟩ <;>
          rcases List.mem_cons.mp frameMember with rfl | frameBefore
        · have := (spanned.below tag before).1
          simp only [Reading.newFrame] at same
          omega
        · obtain ⟨named, enclosing⟩ := spanned.stack.inside tag before frame frameBefore same
          exact ⟨named, fun outer outerMember =>
            ⟨List.mem_cons_of_mem _ (enclosing outer outerMember).1,
              (enclosing outer outerMember).2⟩⟩
        · refine ⟨span, ?_⟩
          rw [around]
          intro outer outerMember
          have := below outer outerMember
          exact ⟨List.mem_cons_of_mem _ outerMember, by omega⟩
        · have := below frame frameBefore
          omega }
    passed := fun glyph member frame frameMember =>
      Nat.lt_succ_of_lt (spanned.passed glyph member frame frameMember)
    glyphs := by
      intro j glyph found
      have fits := spanned.glyphs j glyph found
      have passed := spanned.passed glyph (List.mem_of_getElem? found)
      have inside : j < r.glyphs.length := (List.getElem?_eq_some_iff.mp found).1
      exact {
        owned := fun frame member span has => by
          obtain ⟨tag, tagMember, same⟩ := fits.owned frame member span has
          exact ⟨tag, kept tag tagMember, same⟩
        around := by
          intro tag member place frame frameMember less
          rcases fresh tag member with before | ⟨_, late, _, _⟩
          · exact fits.around tag before place frame frameMember less
          · omega
        inside := by
          intro tag member frame frameMember same
          rcases fresh tag member with before | ⟨number, _, _, _⟩
          · exact fits.inside tag before frame frameMember same
          · have := passed frame frameMember
            omega } }

theorem close (spanned : Spanned r) : Spanned r.close where
  nested := Nested.keeps.close {} r spanned.nested
  ordered := spanned.ordered
  below := fun tag member => by
    have := spanned.below tag member
    exact ⟨Nat.lt_succ_of_lt this.1, this.2⟩
  stack := {
    owned := fun frame member => spanned.stack.owned frame (List.mem_of_mem_tail member)
    around := fun tag member place frame frameMember =>
      spanned.stack.around tag member place frame (List.mem_of_mem_tail frameMember)
    inside := by
      intro tag member frame frameMember same
      obtain ⟨named, around⟩ := spanned.stack.inside tag member frame
        (List.mem_of_mem_tail frameMember) same
      refine ⟨named, fun outer outerMember => ?_⟩
      obtain ⟨enclosing, less⟩ := around outer outerMember
      refine ⟨?_, less⟩
      have decreasing := spanned.nested.decreasing
      simp only [Reading.close] at frameMember ⊢
      cases shape : r.stack with
      | nil => simp [shape] at frameMember
      | cons head tail =>
          rw [shape] at frameMember enclosing decreasing
          rcases List.mem_cons.mp enclosing with rfl | deeper
          · have := (List.pairwise_cons.mp decreasing).1 frame frameMember
            omega
          · exact deeper }
  passed := fun glyph member frame frameMember =>
    Nat.lt_succ_of_lt (spanned.passed glyph member frame frameMember)
  glyphs := spanned.glyphs

theorem text (spanned : Spanned r) (decoded : Text) : Spanned (r.text decoded) := by
  have nested := spanned.nested.text r decoded
  by_cases inBody : r.bodyDepth = 0
  · rwa [Reading.text, if_pos inBody]
  · rw [Reading.text_eq decoded r inBody] at nested ⊢
    have fits : ∀ count, Fits r.spanTags r.stack count := fun count =>
      { owned := spanned.stack.owned
        around := fun tag member _ => spanned.stack.around tag member (spanned.below tag member).2
        inside := spanned.stack.inside }
    exact {
      nested := nested
      ordered := spanned.ordered
      below := fun tag member => by
        have := spanned.below tag member
        simp only [List.length_append]
        exact ⟨this.1, by omega⟩
      stack := fits _
      passed := by
        intro glyph member frame frameMember
        rcases List.mem_append.mp member with before | last
        · exact spanned.passed glyph before frame frameMember
        · rw [glyph_run_stack _ _ _ _ _ last] at frameMember
          exact spanned.nested.below frame frameMember
      glyphs := by
        intro j glyph found
        simp only [List.getElem?_append] at found
        split_ifs at found
        · exact spanned.glyphs j glyph found
        · rw [glyph_run_stack _ _ _ _ _ (List.mem_of_getElem? found)]
          exact fits j }

theorem keeps : Keeps fun _ r => Spanned r where
  start _ _ localName _ id spanned := spanned.start localName id
  close _ _ spanned := spanned.close
  text _ _ decoded _ spanned := spanned.text decoded
  flag _ _ spanned := spanned
  pending _ _ spanned := spanned

end Spanned

theorem read_spanned (events : List Event) : Spanned (read events) :=
  Spanned.keeps.walk
    { nested := read_nested []
      ordered := List.Pairwise.nil
      below := by simp
      stack := ⟨by simp, by simp, by simp⟩
      passed := by simp
      glyphs := by simp }
    events

def Glyph.inOneSpan (glyph : Glyph) : Bool :=
  match glyph.stack with
  | [] => false
  | frame :: outer => frame.span.isSome && outer.all (·.span.isNone)

/-- Every visible character lies directly in one span, and no span id is used twice. -/
structure Covered (r : Reading) : Prop where
  inOneSpan : ∀ glyph ∈ r.glyphs, glyph.visible = true → glyph.inOneSpan = true
  unique : (r.spanTags.map (·.span)).Nodup

theorem Covered.direct {r : Reading} (covered : Covered r) (glyph : Glyph)
    (member : glyph ∈ r.glyphs) (visible : glyph.visible = true) :
    ∃ frame outer span, glyph.stack = frame :: outer ∧ frame.span = some span ∧
      ∀ other ∈ outer, other.span = none := by
  have one := covered.inOneSpan glyph member visible
  unfold Glyph.inOneSpan at one
  split at one
  · exact absurd one (by simp)
  · rename_i frame outer shape
    simp only [Bool.and_eq_true, List.all_eq_true, Option.isNone_iff_eq_none] at one
    obtain ⟨span, named⟩ := Option.isSome_iff_exists.mp one.1
    exact ⟨frame, outer, span, shape, named, one.2⟩

def Filled (r : Reading) : Prop :=
  ∀ tag ∈ r.spanTags, ∃ glyph ∈ r.glyphs, glyph.visible = true ∧
    ∃ frame ∈ glyph.stack, frame.tag = tag.tag

def Unnested (r : Reading) : Prop :=
  ∀ tag ∈ r.spanTags, ∀ frame ∈ tag.around, frame.span = none

theorem unnested_of_filled (events : List Event) (covered : Covered (read events))
    (filled : Filled (read events)) : Unnested (read events) := by
  have spanned := read_spanned events
  intro tag member frame around
  obtain ⟨glyph, glyphMember, visible, inner, innerMember, same⟩ := filled tag member
  obtain ⟨j, found⟩ := List.mem_iff_getElem?.mp glyphMember
  obtain ⟨head, outer, span, shape, headSpan, others⟩ := covered.direct glyph glyphMember visible
  obtain ⟨named, enclosing⟩ :=
    (spanned.glyphs j glyph found).inside tag member inner innerMember same
  obtain ⟨frameMember, less⟩ := enclosing frame around
  rw [shape] at innerMember frameMember
  rcases List.mem_cons.mp innerMember with rfl | deeper
  · rcases List.mem_cons.mp frameMember with rfl | frameOuter
    · omega
    · exact others frame frameOuter
  · rw [others inner deeper] at named
    exact absurd named (by simp)

theorem take_while_split {Item : Type*} (test : Item → Bool) (front back : List Item) (item : Item)
    (frontTest : ∀ other ∈ front, test other = true) (here : test item = true)
    (backTest : ∀ other ∈ back, test other = false) :
    (front ++ item :: back).takeWhile test = front ++ [item] := by
  rw [List.takeWhile_append_of_pos frontTest, List.takeWhile_cons_of_pos here]
  cases back with
  | nil => rfl
  | cons next rest => rw [List.takeWhile_cons_of_neg (by simp [backTest next])]

/-- A visible character of a span starts at or after exactly the marks of the tags before it. -/
theorem mark_le_iff (r : Reading) (tag : SpanTag) (j : Nat) (glyph : Glyph)
    (found : r.glyphs[j]? = some glyph) (visible : glyph.visible = true) :
    (r.markOf tag).normStart ≤ r.normAt j ↔ tag.openedAt ≤ j := by
  show r.normAt (r.firstVisible tag.openedAt) ≤ r.normAt j ↔ _
  constructor
  · intro le
    by_contra later
    have := (norm_at_lt_iff r j (r.firstVisible tag.openedAt) glyph found visible).mpr
      (Nat.lt_of_lt_of_le (Nat.lt_of_not_le later) (first_visible_ge r _))
    omega
  · intro le
    exact norm_at_mono r (first_visible_spec r tag.openedAt j glyph found visible le).1

/-- The last span opened before character number `j`. -/
structure LastOpened (r : Reading) (j : Nat) (tag : SpanTag) : Prop where
  member : tag ∈ r.spanTags
  opened : tag.openedAt ≤ j
  last : ∀ other ∈ r.spanTags, tag.tag < other.tag → j < other.openedAt

/-- The mark found from offset `t`, when the marks up to it are those of the tags up to `tag`. -/
theorem last_mark_eq (events : List Event) (t : Nat) (tag : SpanTag)
    (member : tag ∈ (read events).spanTags)
    (before : ∀ other ∈ (read events).spanTags, other.openedAt ≤ tag.openedAt →
      ((read events).markOf other).normStart ≤ t)
    (after : ∀ other ∈ (read events).spanTags, tag.tag < other.tag →
      t < ((read events).markOf other).normStart) :
    (indexFile events).lastMarkAt t = some ((read events).markOf tag) := by
  obtain ⟨front, back, shape⟩ := List.append_of_mem member
  have ordered := (read_spanned events).ordered
  have listed : ∀ other, other ∈ front ++ tag :: back → other ∈ (read events).spanTags := by
    rw [shape]
    exact fun _ inside => inside
  rw [shape, List.pairwise_append] at ordered
  rw [FileIndex.lastMarkAt, spans_eq, List.takeWhile_map, shape, take_while_split]
  · simp
  · intro other inside
    simpa using before other (listed other (by simp [inside]))
      (ordered.2.2 other inside tag (by simp)).2
  · simpa using before tag member (Nat.le_refl _)
  · intro other inside
    simpa using after other (listed other (by simp [inside]))
      ((List.pairwise_cons.mp ordered.2.1).1 other inside).1

theorem last_mark_at (events : List Event) (j : Nat) (glyph : Glyph)
    (found : (read events).glyphs[j]? = some glyph) (visible : glyph.visible = true)
    (tag : SpanTag) (last : LastOpened (read events) j tag) :
    (indexFile events).lastMarkAt ((read events).normAt j) = some ((read events).markOf tag) := by
  refine last_mark_eq events _ tag last.member ?_ ?_
  · intro other _ le
    exact (mark_le_iff _ other j glyph found visible).mpr (Nat.le_trans le last.opened)
  · intro other member later
    have after := last.last other member later
    rw [← Nat.not_le, mark_le_iff _ other j glyph found visible]
    omega

theorem exists_last_opened (events : List Event) (j : Nat) (tag : SpanTag)
    (member : tag ∈ (read events).spanTags) (opened : tag.openedAt ≤ j) :
    ∃ last, LastOpened (read events) j last := by
  have listed : tag ∈ (read events).spanTags.filter (·.openedAt ≤ j) :=
    List.mem_filter.mpr ⟨member, by simpa using opened⟩
  rcases ((read events).spanTags.filter (·.openedAt ≤ j)).eq_nil_or_concat with
    empty | ⟨front, last, shape⟩
  · rw [empty] at listed
    exact absurd listed (by simp)
  · rw [List.concat_eq_append] at shape
    have inside : last ∈ (read events).spanTags.filter (·.openedAt ≤ j) := by
      rw [shape]
      simp
    obtain ⟨lastMember, lastOpened⟩ := List.mem_filter.mp inside
    refine ⟨last, lastMember, by simpa using lastOpened, ?_⟩
    intro other otherMember later
    by_contra early
    have otherListed : other ∈ (read events).spanTags.filter (·.openedAt ≤ j) :=
      List.mem_filter.mpr ⟨otherMember, by simpa using early⟩
    have ordered := (read_spanned events).ordered.filter (·.openedAt ≤ j)
    rw [shape] at otherListed ordered
    rcases List.mem_append.mp otherListed with before | same
    · have := ((List.pairwise_append.mp ordered).2.2 other before last (by simp)).1
      omega
    · rw [List.mem_singleton.mp same] at later
      exact absurd later (Nat.lt_irrefl _)

theorem find_span_tag (events : List Event)
    (unique : ((read events).spanTags.map (·.span)).Nodup) (tag : SpanTag)
    (member : tag ∈ (read events).spanTags) :
    (indexFile events).findSpan tag.span.1 tag.span.2 = some ((read events).markOf tag) := by
  cases search : (indexFile events).findSpan tag.span.1 tag.span.2 with
  | none =>
      have listed : (read events).markOf tag ∈ (indexFile events).spans := by
        rw [spans_eq]
        exact List.mem_map_of_mem member
      have := List.find?_eq_none.mp search _ listed
      simp [Reading.markOf] at this
  | some mark =>
      have same : mark.n = tag.span.1 ∧ mark.m = tag.span.2 := by
        simpa using List.find?_some search
      have listed := List.mem_of_find?_eq_some search
      rw [spans_eq, List.mem_map] at listed
      obtain ⟨other, otherMember, rfl⟩ := listed
      rw [List.inj_on_of_nodup_map unique otherMember member (Prod.ext same.1 same.2)]

section Covered

variable {events : List Event}

theorem exists_span_tag (unnested : Unnested (read events)) (j : Nat) (glyph : Glyph)
    (found : (read events).glyphs[j]? = some glyph)
    (frame : Frame) (member : frame ∈ glyph.stack) (span : Nat × Nat)
    (named : frame.span = some span) :
    ∃ tag ∈ (read events).spanTags, tag.span = span ∧ tag.openedAt = frame.openedAt ∧
      LastOpened (read events) j tag := by
  have spanned := read_spanned events
  have fits := spanned.glyphs j glyph found
  obtain ⟨tag, tagMember, number, same, place⟩ := fits.owned frame member span named
  refine ⟨tag, tagMember, same, place, tagMember, ?_, ?_⟩
  · rw [place]
    exact (spanned.nested.glyphs j glyph found frame member).1
  · intro later laterMember after
    by_contra before
    have enclosing := fits.around later laterMember (by omega) frame member (by omega)
    rw [unnested later laterMember frame enclosing] at named
    exact absurd named (by simp)

theorem spans_of_covered (covered : Covered (read events)) (glyph : Glyph)
    (member : glyph ∈ (read events).glyphs) (visible : glyph.visible = true) (frame : Frame)
    (inside : frame ∈ glyph.stack) (span : Nat × Nat) (named : frame.span = some span) :
    glyph.spans = [span] := by
  obtain ⟨head, outer, first, shape, firstNamed, others⟩ := covered.direct glyph member visible
  have rest : outer.filterMap (·.span) = [] := by
    rw [List.filterMap_eq_nil_iff]
    exact others
  rw [shape] at inside
  rw [Glyph.spans, shape, List.filterMap_cons_some firstNamed, rest]
  rcases List.mem_cons.mp inside with rfl | deeper
  · rw [← Option.some.inj (firstNamed.symm.trans named)]
  · rw [others frame deeper] at named
    exact absurd named (by simp)

theorem exists_span_frame (covered : Covered (read events)) (glyph : Glyph)
    (member : glyph ∈ (read events).glyphs) (visible : glyph.visible = true) (span : Nat × Nat)
    (spans : glyph.spans = [span]) : ∃ frame ∈ glyph.stack, frame.span = some span := by
  obtain ⟨head, outer, first, shape, firstNamed, others⟩ := covered.direct glyph member visible
  have inside : head ∈ glyph.stack := by
    rw [shape]
    simp
  have same := spans_of_covered covered glyph member visible head inside first firstNamed
  rw [spans] at same
  exact ⟨head, inside, by rw [firstNamed, List.singleton_injective same]⟩

end Covered

/-- The first visible character of a span; its text node is the one the span's character
offsets count in. -/
def Reading.spanText (r : Reading) (n m : Nat) : Option Glyph :=
  r.glyphs.find? fun glyph => glyph.visible && glyph.spans == [(n, m)]

theorem span_text_eq {events : List Event} (covered : Covered (read events)) (tag : SpanTag)
    (member : tag ∈ (read events).spanTags) (j : Nat) (glyph : Glyph)
    (found : (read events).glyphs[j]? = some glyph) (visible : glyph.visible = true)
    (frame : Frame) (inside : frame ∈ glyph.stack)
    (named : frame.span = some tag.span) (opened : tag.openedAt = frame.openedAt) :
    ∃ first, (read events).glyphs[(read events).firstVisible tag.openedAt]? = some first ∧
      first.visible = true ∧ (read events).firstVisible tag.openedAt ≤ j ∧
      (read events).spanText tag.span.1 tag.span.2 = some first := by
  have spanned := read_spanned events
  obtain ⟨lower, encloses⟩ := spanned.nested.glyphs j glyph found frame inside
  obtain ⟨upper, first, firstFound, firstVisible⟩ :=
    first_visible_spec (read events) tag.openedAt j glyph found visible (by omega)
  have firstInside : frame ∈ first.stack :=
    encloses _ first firstFound (by rw [← opened]; exact first_visible_ge _ _) upper
  refine ⟨first, firstFound, firstVisible, upper, ?_⟩
  rw [Reading.spanText, List.find?_eq_some_iff_getElem]
  obtain ⟨inBounds, here⟩ := List.getElem?_eq_some_iff.mp firstFound
  have spans := spans_of_covered covered first (List.mem_of_getElem? firstFound) firstVisible frame
    firstInside tag.span named
  refine ⟨by simp [firstVisible, spans], _, inBounds, here, ?_⟩
  intro i less
  by_contra both
  simp only [Bool.not_eq_true', Bool.not_eq_false, Bool.and_eq_true, beq_iff_eq] at both
  obtain ⟨otherVisible, otherSpans⟩ := both
  have otherFound : (read events).glyphs[i]? = some (read events).glyphs[i] :=
    List.getElem?_eq_getElem (by omega)
  obtain ⟨other, otherInside, otherNamed⟩ := exists_span_frame covered _
    (List.mem_of_getElem? otherFound) otherVisible tag.span otherSpans
  obtain ⟨otherTag, otherMember, otherNumber, same, place⟩ :=
    (spanned.glyphs i _ otherFound).owned other otherInside tag.span otherNamed
  have twin : otherTag = tag := List.inj_on_of_nodup_map covered.unique otherMember member same
  have start := (spanned.nested.glyphs i _ otherFound other otherInside).1
  have blank := first_visible_least (read events) tag.openedAt i _ otherFound
    (by rw [← twin, place]; exact start) less
  rw [otherVisible] at blank
  exact absurd blank (by simp)

end Omnibus.KoboPosition
