import Omnibus.KoboPosition.Spans

/-!
# The boundary of a span's own text

A span that holds one text node, and the boundary the index gives for an offset into it. The
index finds the text node as the cluster of the span's mark. The mark of a blank span stands
behind it, so that the offset is then counted in another text.
-/

namespace Omnibus.KoboPosition

open Omnibus.Library.Strings Omnibus.Library.Collapse

def Event.nodeCharacters : Event → Option Text
  | .text decoded _ => some decoded
  | .generalRef name charRef => (resolveEntity name charRef).map fun symbol => [symbol]
  | _ => none

def nodeText : List Event → Option Text
  | [] => some []
  | event :: rest => do
      let characters ← event.nodeCharacters
      let later ← nodeText rest
      some (characters ++ later)

/-- A document with an element whose content is the events of a text node. -/
structure TextSpan where
  before : List Event
  localName : Text
  qname : Text
  id : Text
  inner : List Event
  after : List Event
  n : Nat
  m : Nat

namespace TextSpan

def opening (span : TextSpan) : Event := .start span.localName span.qname (some span.id)

def events (span : TextSpan) : List Event :=
  span.before ++ span.opening :: (span.inner ++ .close :: span.after)

def first (span : TextSpan) : Nat := (read span.before).glyphs.length

def node (span : TextSpan) : Nat := (read span.before).node + 1

/-- The element is a span of the body, the only one of its id, and holds the text. -/
structure Holds (span : TextSpan) (text : Text) : Prop where
  named : parseSpanId span.id = some (span.n, span.m)
  inBody : (read span.before).bodyDepth > 0
  text : nodeText span.inner = some text
  unique : ∀ tag ∈ (read span.events).spanTags, tag.span = (span.n, span.m) →
    tag.tag = (read span.before).node

/-- Character number `j` precedes the point at the offset of the span's text node. -/
def Precedes (span : TextSpan) (offset j : Nat) (glyph : Glyph) : Prop :=
  j < span.first ∨ glyph.node = span.node ∧ glyph.offset < offset

/-- The boundary of the offset parts the visible characters before the point from the others. -/
def BoundaryHolds (span : TextSpan) (offset : Nat) : Prop :=
  ∃ t, (indexFile span.events).spanBoundary span.n span.m offset = some t ∧
    ∀ j glyph, (read span.events).glyphs[j]? = some glyph → glyph.visible = true →
      (span.Precedes offset j glyph → (read span.events).normAt j < t) ∧
        (¬span.Precedes offset j glyph → t ≤ (read span.events).normAt j)

end TextSpan

/-! ## The characters of the text node -/

structure Extends (r later : Reading) : Prop where
  node : r.node ≤ later.node
  glyphs : ∃ more, later.glyphs = r.glyphs ++ more ∧ ∀ glyph ∈ more, r.node ≤ glyph.node
  tags : r.spanTags <+: later.spanTags

theorem Extends.refl (r : Reading) : Extends r r :=
  ⟨le_rfl, ⟨[], by simp, by simp⟩, List.prefix_rfl⟩

theorem Extends.trans {first middle last : Reading} (early : Extends first middle)
    (late : Extends middle last) : Extends first last := by
  obtain ⟨node, ⟨more, shape, above⟩, tags⟩ := early
  obtain ⟨node', ⟨more', shape', above'⟩, tags'⟩ := late
  refine ⟨node.trans node', ⟨more ++ more', by rw [shape', shape, List.append_assoc], ?_⟩,
    tags.trans tags'⟩
  intro glyph member
  obtain member | member := List.mem_append.mp member
  · exact above glyph member
  · exact node.trans (above' glyph member)

theorem text_extends (r : Reading) (decoded : Text) : Extends r (r.text decoded) := by
  rw [Reading.text]
  split
  · exact Extends.refl r
  · refine ⟨le_rfl, ⟨_, rfl, fun glyph member => ?_⟩, List.prefix_rfl⟩
    obtain ⟨i, found⟩ := List.mem_iff_getElem?.mp member
    obtain ⟨_, _, _, _, _, node, _⟩ := glyph_run_at _ _ _ _ _ _ found
    exact node.ge

theorem event_extends (r : Reading) (event : Event) : Extends r (r.event event) := by
  have started (localName : Text) (id : Option Text) : Extends r (r.start localName id) :=
    ⟨Nat.le_succ _, ⟨[], by simp [Reading.start], by simp⟩, List.prefix_append _ _⟩
  have closed (r : Reading) : Extends r r.close :=
    ⟨Nat.le_succ _, ⟨[], by simp [Reading.close], by simp⟩, List.prefix_rfl⟩
  cases event with
  | start localName qname id => exact started localName id
  | empty localName qname => exact (started localName none).trans (closed _)
  | close => exact closed r
  | text decoded sourceBytes => exact text_extends r decoded
  | cdata decoded sourceBytes => exact text_extends r decoded
  | generalRef name charRef =>
      rw [Reading.event]
      split
      · exact text_extends r _
      · exact Extends.refl r
  | comment | pi | decl | docType => exact Extends.refl r

theorem events_extend (r : Reading) (events : List Event) :
    Extends r (events.foldl Reading.event r) := by
  induction events generalizing r with
  | nil => exact Extends.refl r
  | cons event rest induction => exact (event_extends r event).trans (induction _)

theorem node_characters_event (r : Reading) (event : Event) (characters : Text)
    (adds : event.nodeCharacters = some characters) : r.event event = r.text characters := by
  cases event with
  | text decoded sourceBytes =>
      obtain rfl := Option.some.inj adds
      rfl
  | generalRef name charRef =>
      obtain ⟨symbol, found, rfl⟩ := Option.map_eq_some_iff.mp adds
      rw [Reading.event, found]
  | _ => cases adds

theorem node_text_glyphs (r : Reading) (events : List Event) (text : Text)
    (inBody : r.bodyDepth ≠ 0) (adds : nodeText events = some text) :
    (events.foldl Reading.event r).glyphs = r.glyphs ++ glyphRun r.stack r.node r.offset text ∧
      (events.foldl Reading.event r).node = r.node := by
  induction events generalizing r text with
  | nil =>
      obtain rfl := Option.some.inj adds
      simp [glyphRun]
  | cons event rest induction =>
      simp only [nodeText, Option.bind_eq_bind, Option.bind_eq_some_iff, Option.some.injEq] at adds
      obtain ⟨characters, here, later, behind, rfl⟩ := adds
      have done := induction (r.text characters) later
        (by rw [Reading.text, if_neg inBody]; exact inBody) behind
      rw [List.foldl_cons, node_characters_event r event characters here, glyph_run_append]
      rw [done.1, done.2]
      rw [Reading.text, if_neg inBody]
      simp

structure Parts (span : TextSpan) (text : Text) (stack : List Frame) (more : List Glyph)
    (tag : SpanTag) : Prop where
  glyphs : (read span.events).glyphs =
    (read span.before).glyphs ++ glyphRun stack span.node 0 text ++ more
  later : ∀ glyph ∈ more, span.node < glyph.node
  member : tag ∈ (read span.events).spanTags
  openedAt : tag.openedAt = span.first
  found : (indexFile span.events).findSpan span.n span.m = some ((read span.events).markOf tag)

theorem find_span_only (events : List Event) (n m : Nat) (tag : SpanTag)
    (member : tag ∈ (read events).spanTags) (named : tag.span = (n, m))
    (unique : ∀ other ∈ (read events).spanTags, other.span = (n, m) → other.tag = tag.tag) :
    (indexFile events).findSpan n m = some ((read events).markOf tag) := by
  have same (other : SpanTag) (there : other ∈ (read events).spanTags)
      (number : other.tag = tag.tag) : other = tag := by
    have distinct : ((read events).spanTags.map (·.tag)).Nodup := by
      rw [List.Nodup, List.pairwise_map]
      exact (read_spanned events).ordered.imp fun less => less.1.ne
    exact List.inj_on_of_nodup_map distinct there member number
  cases search : (indexFile events).findSpan n m with
  | none =>
      have listed : (read events).markOf tag ∈ (indexFile events).spans := by
        rw [spans_eq]
        exact List.mem_map_of_mem member
      have missed := List.find?_eq_none.mp search _ listed
      simp [Reading.markOf, named] at missed
  | some mark =>
      have numbers : mark.n = n ∧ mark.m = m := by simpa using List.find?_some search
      have listed := List.mem_of_find?_eq_some search
      rw [spans_eq, List.mem_map] at listed
      obtain ⟨other, there, rfl⟩ := listed
      rw [same other there (unique other there (Prod.ext numbers.1 numbers.2))]

theorem exists_parts (span : TextSpan) (text : Text) (holds : span.Holds text) :
    ∃ stack more tag, Parts span text stack more tag := by
  obtain ⟨named, inBody, adds, unique⟩ := holds
  have whole : read span.events = span.after.foldl Reading.event
      (span.inner.foldl Reading.event
        ((read span.before).start span.localName (some span.id))).close := by
    simp [read, TextSpan.events, TextSpan.opening, List.foldl_append, Reading.event]
  have inside : ((read span.before).start span.localName (some span.id)).bodyDepth ≠ 0 := by
    simp [Reading.start, inBody]
  obtain ⟨glyphs, node⟩ := node_text_glyphs _ span.inner text inside adds
  obtain ⟨-, ⟨more, shape, later⟩, -⟩ := events_extend (span.inner.foldl Reading.event
    ((read span.before).start span.localName (some span.id))).close span.after
  have tags : ((read span.before).start span.localName (some span.id)).spanTags <+:
      (read span.events).spanTags := by
    rw [whole]
    exact (events_extend _ span.inner).tags.trans
      ((event_extends _ .close).tags.trans (events_extend _ span.after).tags)
  have member : (⟨(read span.before).node, (span.n, span.m), span.first,
      (read span.before).stack⟩ : SpanTag) ∈ (read span.events).spanTags := by
    refine tags.subset ?_
    simp [Reading.start, Reading.spanOf, inBody, named, TextSpan.first]
  refine ⟨((read span.before).start span.localName (some span.id)).stack, more, _,
    { glyphs := ?_, later := ?_, member := member, openedAt := rfl
      found := find_span_only span.events span.n span.m _ member rfl unique }⟩
  · rw [whole, shape]
    exact congrArg (· ++ more) glyphs
  · intro glyph there
    have above : _ + 1 ≤ glyph.node := later glyph there
    rw [node] at above
    exact above

/-! ## The boundary in a cluster -/

def startBefore (target : Nat) : Nat → Text → Text
  | _, [] => []
  | utf16, symbol :: rest =>
      if utf16 ≥ target then [] else symbol :: startBefore target (utf16 + utf16Width symbol) rest

theorem start_before_initial (target utf16 : Nat) (text : Text) :
    startBefore target utf16 text <+: text := by
  induction text generalizing utf16 with
  | nil => exact List.prefix_rfl
  | cons symbol rest induction =>
      rw [startBefore]
      split
      · exact List.nil_prefix
      · exact (List.prefix_cons_inj symbol).mpr (induction _)

theorem replay_norm_start_before (target : Nat) (text : Text) (normPos utf16 : Nat) (run : Bool) :
    replayNormFrom target text normPos utf16 run =
      normPos + (collapsed run (startBefore target utf16 text)).length := by
  induction text generalizing normPos utf16 run with
  | nil => rfl
  | cons symbol rest induction =>
      rw [replayNormFrom, startBefore]
      by_cases reached : utf16 ≥ target
      · rw [if_pos reached, if_pos reached]
        rfl
      · rw [if_neg reached, if_neg reached, collapsed_cons_length, ← Nat.add_assoc]
        cases space : isWhitespace symbol <;> cases run <;>
          simp [induction, emits, space, Nat.add_assoc]

theorem start_before_length (target utf16 : Nat) (left right : Text) (symbol : Char) :
    left.length < (startBefore target utf16 (left ++ symbol :: right)).length ↔
      utf16 + utf16Length left < target := by
  induction left generalizing utf16 with
  | nil =>
      rw [List.nil_append, startBefore]
      split <;> simp [utf16Length] <;> omega
  | cons first rest induction =>
      have width := utf16_width_positive first
      have later := induction (utf16 + utf16Width first)
      rw [List.cons_append, startBefore]
      have length : utf16Length (first :: rest) = utf16Width first + utf16Length rest := by
        simp [utf16Length]
      split
      · simp only [List.length_cons, List.length_nil]
        omega
      · simp only [List.length_cons]
        omega

theorem start_before_append (target utf16 : Nat) (text more : Text)
    (inside : target ≤ utf16 + utf16Length text) :
    startBefore target utf16 (text ++ more) = startBefore target utf16 text := by
  induction text generalizing utf16 with
  | nil =>
      have reached : utf16 ≥ target := by simpa [utf16Length] using inside
      cases more with
      | nil => rfl
      | cons symbol rest => simp [startBefore, reached]
  | cons symbol rest induction =>
      rw [List.cons_append, startBefore, startBefore]
      split
      · rfl
      · rw [induction _ (by simp [utf16Length] at inside ⊢; omega)]

section Place

variable {events : List Event} {j : Nat} {glyph : Glyph} {before : List Cluster}
  {cluster : Cluster} {node : TextNode} {left right : Text}

/-- The offsets replayed in a cluster are those of its characters in the document. -/
theorem replay_norm_place
    (place : GlyphAt (walk events).clusters (read events).textNodes j glyph before cluster node
      left right) (target : Nat) :
    replayNorm cluster target =
      (read events).normAt
        ((rawText before).length + (startBefore target 0 cluster.raw).length) := by
  have tiled := walk_tiled events
  obtain ⟨after, shape⟩ := place.clusters
  have tiles := tiled.tiles
  rw [shape] at tiles
  obtain ⟨start, entered, -⟩ := tiles_at before after cluster tiles
  obtain ⟨unread, parts⟩ := start_before_initial target 0 cluster.raw
  have symbols : (read events).symbols =
      (rawText before ++ startBefore target 0 cluster.raw) ++ (unread ++ rawText after) := by
    rw [← tiled.symbols, shape, raw_text_append, show rawText (cluster :: after) =
      cluster.raw ++ rawText after from rfl]
    conv_lhs => rw [← parts]
    simp
  rw [replayNorm, replay_norm_start_before, Reading.normAt, symbols,
    List.take_left' (by simp), collapsed_append, List.length_append, start, entered]

theorem covering_end (events : List Event) :
    (indexFile events).clusterCovering (indexFile events).norm.length = none := by
  rw [FileIndex.clusterCovering, List.find?_eq_none]
  intro cluster member
  obtain ⟨before, after, shape⟩ := List.append_of_mem member
  have tiled := walk_tiled events
  have tiles := tiled.tiles
  change (walk events).clusters = before ++ cluster :: after at shape
  rw [shape] at tiles
  obtain ⟨start, entered, length⟩ := tiles_at before after cluster tiles
  have whole : (indexFile events).norm.length =
      cluster.normStart + cluster.normLen +
        (collapsed (runAfter isWhitespace true (rawText before ++ cluster.raw))
          (rawText after)).length := by
    rw [norm_eq, ← tiled.symbols, shape, raw_text_append,
      show rawText (cluster :: after) = cluster.raw ++ rawText after from rfl, ← List.append_assoc,
      collapsed_append, collapsed_append, List.length_append,
      List.length_append, start, length, entered]
  simp only [Cluster.covers, Bool.and_eq_true, decide_eq_true_eq]
  omega

end Place

/-! ## The span's boundary -/

theorem glyph_place (events : List Event) (j : Nat) (glyph : Glyph)
    (found : (read events).glyphs[j]? = some glyph) :
    ∃ before cluster node left right,
      GlyphAt (walk events).clusters (read events).textNodes j glyph before cluster node left
        right := by
  rw [(walk_mirrored events).glyphs] at found
  exact exists_glyph_at _ _ j glyph found

theorem lt_of_lt_first_visible (r : Reading) (openedAt j : Nat) (glyph : Glyph)
    (found : r.glyphs[j]? = some glyph) (visible : glyph.visible = true)
    (less : j < r.firstVisible openedAt) : j < openedAt := by
  by_contra past
  have unseen := first_visible_least r openedAt j glyph found (Nat.le_of_not_lt past) less
  rw [visible] at unseen
  cases unseen

section Boundary

variable {span : TextSpan} {text : Text} {stack : List Frame} {more : List Glyph} {tag : SpanTag}

theorem glyph_within (parts : Parts span text stack more tag) (left right : Text) (symbol : Char)
    (split : text = left ++ symbol :: right) :
    ∃ glyph, (read span.events).glyphs[span.first + left.length]? = some glyph ∧
      glyph.symbol = symbol ∧ glyph.node = span.node ∧ glyph.offset = utf16Length left := by
  have found : (glyphRun stack span.node 0 text)[left.length]? =
      some ⟨symbol, stack, span.node, utf16Length left⟩ := by
    rw [split, glyph_run_append, List.getElem?_append_right (by rw [glyph_run_length]),
      glyph_run_length]
    simp [glyphRun]
  refine ⟨⟨symbol, stack, span.node, utf16Length left⟩, ?_, rfl, rfl, rfl⟩
  have place : span.first + left.length = (read span.before).glyphs.length + left.length := rfl
  rw [parts.glyphs, List.append_assoc, place, List.getElem?_append_right (Nat.le_add_right _ _),
    Nat.add_sub_cancel_left, List.getElem?_append_left (List.getElem?_eq_some_iff.mp found).1,
    found]

theorem glyph_behind (parts : Parts span text stack more tag) (j : Nat) (glyph : Glyph)
    (found : (read span.events).glyphs[j]? = some glyph) (late : span.first + text.length ≤ j) :
    span.node < glyph.node := by
  rw [parts.glyphs, List.getElem?_append_right
    (by rw [List.length_append, glyph_run_length]; exact late)] at found
  exact parts.later glyph (List.mem_of_getElem? found)

/-- The characters before the point are those up to the last one of the text node that starts
before the offset. -/
theorem precedes_iff (parts : Parts span text stack more tag) (offset j : Nat) (glyph : Glyph)
    (found : (read span.events).glyphs[j]? = some glyph) :
    span.Precedes offset j glyph ↔ j < span.first + (startBefore offset 0 text).length := by
  have initial := (start_before_initial offset 0 text).length_le
  rw [TextSpan.Precedes]
  by_cases early : j < span.first
  · simp only [early, true_or, true_iff]
    omega
  · by_cases late : span.first + text.length ≤ j
    · have other := glyph_behind parts j glyph found late
      constructor
      · rintro (earlier | ⟨same, -⟩) <;> omega
      · intro less
        omega
    · obtain ⟨symbol, here⟩ : ∃ symbol, text[j - span.first]? = some symbol :=
        ⟨_, List.getElem?_eq_getElem (by omega)⟩
      obtain ⟨inside, same⟩ := List.getElem?_eq_some_iff.mp here
      have split : text =
          text.take (j - span.first) ++ symbol :: text.drop (j - span.first + 1) := by
        rw [← same, List.getElem_cons_drop, List.take_append_drop]
      have length : (text.take (j - span.first)).length = j - span.first := by
        rw [List.length_take]
        omega
      obtain ⟨only, there, -, node, place⟩ := glyph_within parts _ _ symbol split
      rw [length, Nat.add_sub_cancel' (Nat.le_of_not_lt early), found] at there
      obtain rfl := Option.some.inj there
      have starts := start_before_length offset 0 (text.take (j - span.first))
        (text.drop (j - span.first + 1)) symbol
      rw [← split, length, Nat.zero_add, ← place] at starts
      constructor
      · rintro (earlier | ⟨-, less⟩)
        · omega
        · have := starts.mpr less
          omega
      · intro less
        exact .inr ⟨node, starts.mp (by omega)⟩

/-- A boundary at a character number holds exactly when that number and the point part the
visible characters alike. -/
theorem boundary_at_iff (parts : Parts span text stack more tag) (offset place : Nat) :
    (∀ j glyph, (read span.events).glyphs[j]? = some glyph → glyph.visible = true →
      (span.Precedes offset j glyph →
          (read span.events).normAt j < (read span.events).normAt place) ∧
        (¬span.Precedes offset j glyph →
          (read span.events).normAt place ≤ (read span.events).normAt j)) ↔
      ∀ j glyph, (read span.events).glyphs[j]? = some glyph → glyph.visible = true →
        (j < span.first + (startBefore offset 0 text).length ↔ j < place) := by
  refine forall_congr' fun j => forall_congr' fun glyph => forall_congr' fun found =>
    forall_congr' fun visible => ?_
  have order := norm_at_lt_iff (read span.events) j place glyph found visible
  rw [precedes_iff parts offset j glyph found, ← order]
  constructor
  · rintro ⟨below, above⟩
    constructor
    · exact below
    · intro less
      by_contra past
      have := above past
      omega
  · intro same
    exact ⟨same.mp, fun past => Nat.le_of_not_lt fun less => past (same.mpr less)⟩

theorem suffix_eq_of_length (whole left lead : Text) (first : left <:+ whole)
    (second : lead <:+ whole) (same : utf16Length left = utf16Length lead) : left = lead := by
  have nothing (extra rest : Text) (units : utf16Length (extra ++ rest) = utf16Length rest) :
      extra = [] := by
    cases extra with
    | nil => rfl
    | cons symbol extra =>
        have := utf16_width_positive symbol
        simp [utf16Length] at units
        omega
  obtain ⟨extra, split⟩ | ⟨extra, split⟩ := List.suffix_or_suffix_of_suffix first second
  · rw [← split] at same
    rw [nothing extra left same.symm] at split
    exact split
  · rw [← split] at same
    rw [nothing extra lead same] at split
    exact split.symm

theorem symbols_around {events : List Event} {j : Nat} {glyph : Glyph} {before : List Cluster}
    {cluster : Cluster} {node : TextNode} {left right : Text}
    (place : GlyphAt (walk events).clusters (read events).textNodes j glyph before cluster node
      left right) :
    ∃ after, (read events).symbols = rawText before ++ (cluster.raw ++ after) := by
  obtain ⟨after, shape⟩ := place.clusters
  refine ⟨rawText after, ?_⟩
  rw [← (walk_tiled events).symbols, shape, raw_text_append]
  rfl

theorem symbols_parts (parts : Parts span text stack more tag) :
    ∃ after, (read span.events).symbols = (read span.before).symbols ++ (text ++ after) := by
  refine ⟨more.map (·.symbol), ?_⟩
  simp [Reading.symbols, parts.glyphs, glyph_run_symbols]

theorem last_within (parts : Parts span text stack more tag) (filled : text ≠ []) :
    ∃ glyph, (read span.events).glyphs[span.first + (text.length - 1)]? = some glyph ∧
      glyph.node = span.node := by
  obtain ⟨front, last, rfl⟩ := (List.eq_nil_or_concat' text).resolve_left filled
  obtain ⟨glyph, found, -, node, -⟩ := glyph_within parts front [] last rfl
  exact ⟨glyph, by simpa using found, node⟩

/-- In the text node of the span, the cluster's characters are those of the text. -/
theorem text_cluster (parts : Parts span text stack more tag) (lead rest : Text) (symbol : Char)
    (split : text = lead ++ symbol :: rest) (glyph : Glyph)
    (found : (read span.events).glyphs[span.first + lead.length]? = some glyph)
    (before : List Cluster) (cluster : Cluster) (node : TextNode) (left right : Text)
    (place : GlyphAt (walk span.events).clusters (read span.events).textNodes
      (span.first + lead.length) glyph before cluster node left right) :
    (rawText before).length = span.first ∧ text <+: cluster.raw := by
  obtain ⟨after, around⟩ := symbols_around place
  obtain ⟨after', around'⟩ := symbols_parts parts
  have count := place.count
  have firstLength : (read span.before).symbols.length = span.first := by
    simp [Reading.symbols, TextSpan.first]
  obtain ⟨only, there, -, sameNode, offset⟩ := glyph_within parts lead rest symbol split
  rw [found] at there
  obtain rfl := Option.some.inj there
  have same : left = lead := by
    refine suffix_eq_of_length ((read span.events).symbols.take (span.first + lead.length)) left
      lead ⟨rawText before, ?_⟩ ⟨(read span.before).symbols, ?_⟩ (place.offset.symm.trans offset)
    · rw [around, place.raw, count, List.take_append, List.take_of_length_le (by omega)]
      simp
    · rw [around', split, List.take_append, List.take_of_length_le (by omega), firstLength]
      simp
  have start : (rawText before).length = span.first := by
    rw [same] at count
    omega
  refine ⟨start, ?_⟩
  have enough : text.length ≤ cluster.raw.length := by
    obtain ⟨last, ending, endNode⟩ := last_within parts (by rw [split]; simp)
    obtain ⟨before', cluster', node', left', right', place'⟩ := glyph_place _ _ last ending
    obtain ⟨rfl, rfl⟩ := same_cluster span.events _ _ glyph last before before' cluster cluster'
      node node' left right left' right' (sameNode.trans endNode.symm) place place'
    have counted := place'.count
    have held := congrArg List.length place'.raw
    rw [List.length_append, List.length_cons] at held
    omega
  have behind : (read span.events).symbols.drop span.first = cluster.raw ++ after := by
    rw [around, ← start, List.drop_left]
  have behind' : (read span.events).symbols.drop span.first = text ++ after' := by
    rw [around', ← firstLength, List.drop_left]
  exact List.prefix_of_prefix_length_le ⟨after', behind'.symm⟩ ⟨after, behind.symm⟩ enough

theorem before_le {clusters first second after after' : List Cluster} {own other : Cluster}
    (shape : clusters = first ++ own :: after) (shape' : clusters = second ++ other :: after')
    (place : Nat) (within : place < (rawText first).length + own.raw.length)
    (start : (rawText second).length ≤ place) : second.length ≤ first.length := by
  by_contra longer
  have equal := shape.symm.trans shape'
  obtain ⟨tail, parts, here⟩ | ⟨tail, parts, -⟩ := List.append_eq_append_iff.mp equal
  · cases tail with
    | nil => simp [parts] at longer
    | cons head tail =>
        obtain ⟨rfl, -⟩ := List.cons.inj here
        have length := congrArg (fun clusters => (rawText clusters).length) parts
        simp only [rawText, List.flatMap_append, List.flatMap_cons, List.length_append]
          at length start within
        omega
  · have length := congrArg List.length parts
    rw [List.length_append] at length
    omega

theorem cluster_behind (parts : Parts span text stack more tag) (filled : text ≠ []) (j : Nat)
    (glyph : Glyph) (found : (read span.events).glyphs[j]? = some glyph)
    (late : span.first + text.length ≤ j)
    (before : List Cluster) (cluster : Cluster) (node : TextNode) (left right : Text)
    (place : GlyphAt (walk span.events).clusters (read span.events).textNodes j glyph before
      cluster node left right) :
    span.first + text.length ≤ (rawText before).length := by
  by_contra overlaps
  obtain ⟨last, ending, endNode⟩ := last_within parts filled
  obtain ⟨before', cluster', node', left', right', place'⟩ := glyph_place _ _ last ending
  have counted := place.count
  have counted' := place'.count
  have held := congrArg List.length place.raw
  have held' := congrArg List.length place'.raw
  rw [List.length_append, List.length_cons] at held held'
  have positive := List.length_pos_iff.mpr filled
  obtain ⟨after, shape⟩ := place.clusters
  obtain ⟨after', shape'⟩ := place'.clusters
  have same : before.length = before'.length := Nat.le_antisymm
    (before_le shape' shape (span.first + (text.length - 1)) (by omega) (by omega))
    (before_le shape shape' (span.first + (text.length - 1)) (by omega) (by omega))
  have nodes := place.nodes.symm.trans ((congrArg _ same).trans place'.nodes)
  have behind := glyph_behind parts j glyph found late
  rw [place.node, Option.some.inj nodes, ← place'.node, endNode] at behind
  exact Nat.lt_irrefl _ behind

/-- No character of the span's text is visible when the first visible one from its start on lies
behind it. -/
theorem blank_text (parts : Parts span text stack more tag)
    (hidden : ∀ j glyph, (read span.events).glyphs[j]? = some glyph → span.first ≤ j →
      j < span.first + text.length → glyph.visible = false) : text.all isWhitespace = true := by
  rw [List.all_eq_true]
  intro symbol member
  obtain ⟨lead, rest, split⟩ := List.append_of_mem member
  obtain ⟨glyph, found, same, -, -⟩ := glyph_within parts lead rest symbol split
  have unseen := hidden _ glyph found (Nat.le_add_right _ _) (by rw [split]; simp)
  simpa [Glyph.visible, same] using unseen

theorem unseen_in_blank (parts : Parts span text stack more tag)
    (blank : text.all isWhitespace = true) (j : Nat) (glyph : Glyph)
    (found : (read span.events).glyphs[j]? = some glyph) (lower : span.first ≤ j)
    (upper : j < span.first + text.length) : glyph.visible = false := by
  obtain ⟨length, rfl⟩ := Nat.exists_eq_add_of_le lower
  have short : length < text.length := Nat.lt_of_add_lt_add_left upper
  have split : text = text.take length ++ text[length] :: text.drop (length + 1) := by
    rw [List.getElem_cons_drop, List.take_append_drop]
  obtain ⟨own, there, symbol, -, -⟩ := glyph_within parts _ _ _ split
  rw [List.length_take, Nat.min_eq_left short.le, found] at there
  obtain rfl := Option.some.inj there
  have space := List.all_eq_true.mp blank _ (List.getElem_mem short)
  rw [Glyph.visible, symbol, space]
  rfl

theorem boundary_holds_at (parts : Parts span text stack more tag) (offset place : Nat)
    (boundary : (indexFile span.events).spanBoundary span.n span.m offset =
      some ((read span.events).normAt place)) :
    span.BoundaryHolds offset ↔
      ∀ j glyph, (read span.events).glyphs[j]? = some glyph → glyph.visible = true →
        (j < span.first + (startBefore offset 0 text).length ↔ j < place) := by
  rw [← boundary_at_iff parts offset place, TextSpan.BoundaryHolds, boundary]
  simp only [Option.some.injEq, exists_eq_left']

theorem boundary_of_mark (parts : Parts span text stack more tag) (offset : Nat)
    (ahead : offset ≠ 0) :
    (indexFile span.events).spanBoundary span.n span.m offset =
      ((indexFile span.events).clusterCovering
        ((read span.events).normAt ((read span.events).firstVisible span.first))).map
          (replayNorm · offset) := by
  have mark : ((read span.events).markOf tag).normStart =
      (read span.events).normAt ((read span.events).firstVisible span.first) := by
    rw [Reading.markOf, parts.openedAt]
  simp only [FileIndex.spanBoundary, parts.found, Option.bind_eq_bind, Option.bind_some,
    if_neg ahead, mark]
  cases (indexFile span.events).clusterCovering
    ((read span.events).normAt ((read span.events).firstVisible span.first)) <;> rfl

theorem boundary_at_start (parts : Parts span text stack more tag) : span.BoundaryHolds 0 := by
  have boundary : (indexFile span.events).spanBoundary span.n span.m 0 =
      some ((read span.events).normAt ((read span.events).firstVisible span.first)) := by
    simp only [FileIndex.spanBoundary, parts.found, Option.bind_eq_bind, Option.bind_some,
      if_true, Reading.markOf, parts.openedAt]
  have nothing : startBefore 0 0 text = [] := by
    cases text <;> simp [startBefore]
  rw [boundary_holds_at parts 0 _ boundary, nothing]
  intro j glyph found visible
  constructor
  · intro early
    exact Nat.lt_of_lt_of_le early (first_visible_ge _ _)
  · exact lt_of_lt_first_visible _ _ j glyph found visible

theorem boundary_in_text (parts : Parts span text stack more tag) (offset : Nat)
    (inside : offset ≤ utf16Length text) (ahead : offset ≠ 0) (glyph : Glyph)
    (found : (read span.events).glyphs[(read span.events).firstVisible span.first]? = some glyph)
    (visible : glyph.visible = true)
    (within : (read span.events).firstVisible span.first < span.first + text.length) :
    span.BoundaryHolds offset := by
  obtain ⟨length, lead⟩ : ∃ length, (read span.events).firstVisible span.first =
      span.first + length := ⟨_, (Nat.add_sub_cancel' (first_visible_ge _ _)).symm⟩
  have boundary := boundary_of_mark parts offset ahead
  rw [lead] at found within boundary
  have short : length < text.length := by omega
  have split : text = text.take length ++ text[length] :: text.drop (length + 1) := by
    rw [List.getElem_cons_drop, List.take_append_drop]
  have taken : (text.take length).length = length := by
    rw [List.length_take]
    omega
  obtain ⟨before, cluster, node, left, right, place⟩ := glyph_place _ _ glyph found
  have located := located_of_glyph_at span.events _ glyph visible _ _ _ _ _ place
  rw [← taken] at found place
  obtain ⟨start, initial⟩ := text_cluster parts _ _ _ split glyph found before cluster node left
    right place
  obtain ⟨unread, whole⟩ := initial
  rw [located.covering, Option.map_some, replay_norm_place place, start, ← whole,
    start_before_append offset 0 text unread (by omega)] at boundary
  rw [boundary_holds_at parts offset _ boundary]
  exact fun j glyph _ _ => Iff.rfl

/-- Where it lies behind, the offset is counted in the text node of that character. -/
theorem boundary_behind_iff (parts : Parts span text stack more tag) (offset : Nat)
    (inside : offset ≤ utf16Length text) (ahead : offset ≠ 0) (glyph : Glyph)
    (found : (read span.events).glyphs[(read span.events).firstVisible span.first]? = some glyph)
    (visible : glyph.visible = true)
    (late : span.first + text.length ≤ (read span.events).firstVisible span.first) :
    span.BoundaryHolds offset ↔ offset ≤ glyph.offset := by
  have boundary := boundary_of_mark parts offset ahead
  obtain ⟨before, cluster, node, left, right, place⟩ := glyph_place _ _ glyph found
  have located := located_of_glyph_at span.events _ glyph visible _ _ _ _ _ place
  have filled : text ≠ [] := by
    rintro rfl
    exact ahead (Nat.le_zero.mp inside)
  have behind := cluster_behind parts filled _ glyph found late before cluster node left right place
  have count := place.count
  have starts := start_before_length offset 0 left right glyph.symbol
  rw [← place.raw, Nat.zero_add, ← place.offset] at starts
  have initial := (start_before_initial offset 0 text).length_le
  rw [located.covering, Option.map_some, replay_norm_place place] at boundary
  rw [boundary_holds_at parts offset _ boundary]
  constructor
  · intro same
    by_contra past
    have counted := starts.mpr (Nat.lt_of_not_le past)
    have less := (same _ glyph found visible).mpr (by omega)
    omega
  · intro reaches j other there seen
    have few : (startBefore offset 0 cluster.raw).length ≤ left.length := by
      by_contra more'
      have := starts.mp (Nat.lt_of_not_le more')
      omega
    constructor
    · intro less
      have := lt_of_lt_first_visible _ span.first j other there seen (by omega)
      omega
    · intro less
      have := lt_of_lt_first_visible _ span.first j other there seen (by omega)
      omega

end Boundary

/-- The boundary of an offset into a span's text parts the visible characters at that point
exactly when the text is not blank, the offset is its start, or the next visible character stands
as far into its own text node. -/
theorem span_boundary_holds_iff (span : TextSpan) (text : Text) (holds : span.Holds text)
    (offset : Nat) (inside : offset ≤ utf16Length text) :
    span.BoundaryHolds offset ↔
      text.all isWhitespace = false ∨ offset = 0 ∨
        ∃ glyph, (read span.events).glyphs[(read span.events).firstVisible span.first]? =
          some glyph ∧ offset ≤ glyph.offset := by
  obtain ⟨stack, more, tag, parts⟩ := exists_parts span text holds
  by_cases start : offset = 0
  · subst start
    exact iff_of_true (boundary_at_start parts) (.inr (.inl rfl))
  · by_cases shown : ∃ j glyph, (read span.events).glyphs[j]? = some glyph ∧
        glyph.visible = true ∧ span.first ≤ j
    · obtain ⟨j, other, there, seen, le⟩ := shown
      obtain ⟨-, glyph, found, visible⟩ :=
        first_visible_spec (read span.events) span.first j other there seen le
      by_cases late : span.first + text.length ≤ (read span.events).firstVisible span.first
      · have blank := blank_text parts fun i unseen here lower upper =>
          first_visible_least (read span.events) span.first i unseen here lower (by omega)
        rw [boundary_behind_iff parts offset inside start glyph found visible late]
        simp [blank, start, found]
      · have within := boundary_in_text parts offset inside start glyph found visible
          (Nat.lt_of_not_le late)
        refine iff_of_true within (.inl ?_)
        by_contra blank
        have unseen := unseen_in_blank parts (by simpa using blank) _ glyph found
          (first_visible_ge _ _) (Nat.lt_of_not_le late)
        rw [visible] at unseen
        cases unseen
    · have hidden (j : Nat) (glyph : Glyph) (found : (read span.events).glyphs[j]? = some glyph)
          (le : span.first ≤ j) : glyph.visible = false := by
        by_contra visible
        exact shown ⟨j, glyph, found, by simpa using visible, le⟩
      have length : span.first ≤ (read span.events).glyphs.length := by
        rw [parts.glyphs, List.append_assoc, List.length_append]
        exact Nat.le_add_right _ _
      have past := first_visible_none (read span.events) span.first length hidden
      have boundary := boundary_of_mark parts offset start
      rw [past, ← norm_length, covering_end] at boundary
      have blank := blank_text parts fun j glyph found lower _ => hidden j glyph found lower
      simp [TextSpan.BoundaryHolds, boundary, blank, start, past]

def blankSpan : TextSpan where
  before := [.start ['b', 'o', 'd', 'y'] ['b', 'o', 'd', 'y'] none, .start ['p'] ['p'] none,
    .start ['s', 'p', 'a', 'n'] ['s', 'p', 'a', 'n'] (some "kobo.1.1".toList),
    .text ['A'] 1, .close]
  localName := ['s', 'p', 'a', 'n']
  qname := ['s', 'p', 'a', 'n']
  id := "kobo.1.2".toList
  inner := [.text [' '] 1]
  after := [.start ['s', 'p', 'a', 'n'] ['s', 'p', 'a', 'n'] (some "kobo.1.3".toList),
    .text ['B', 'C'] 2, .close, .close, .close]
  n := 1
  m := 2

def lastSpan : TextSpan where
  before := blankSpan.before ++ blankSpan.opening :: (blankSpan.inner ++ [.close])
  localName := ['s', 'p', 'a', 'n']
  qname := ['s', 'p', 'a', 'n']
  id := "kobo.1.3".toList
  inner := [.text ['B', 'C'] 2]
  after := [.close, .close, .close]
  n := 1
  m := 3

theorem blank_span_holds : blankSpan.Holds [' '] :=
  ⟨by decide, by decide, by decide, by decide⟩

theorem last_span_holds : lastSpan.Holds ['B', 'C'] :=
  ⟨by decide, by decide, by decide, by decide⟩

theorem span_boundary_holds_last : lastSpan.BoundaryHolds 1 :=
  (span_boundary_holds_iff lastSpan ['B', 'C'] last_span_holds 1 (by decide)).mpr
    (.inl (by decide))

/-- One character into a blank span is counted from the next span's text. -/
theorem blank_span_boundary_late :
    blankSpan.Holds [' '] ∧ 1 ≤ utf16Length [' '] ∧ ¬blankSpan.BoundaryHolds 1 := by
  refine ⟨blank_span_holds, by decide, ?_⟩
  rintro ⟨t, boundary, sides⟩
  have late : (indexFile blankSpan.events).spanBoundary 1 2 1 = some 3 := by decide
  obtain rfl := Option.some.inj (late.symm.trans boundary)
  have past := (sides 2 (⟨'B', _, _, _⟩ : Glyph) rfl (by decide)).2 (by
    rintro (early | ⟨other, -⟩)
    · revert early
      decide
    · revert other
      decide)
  revert past
  decide

end Omnibus.KoboPosition
