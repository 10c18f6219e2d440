import Omnibus.KoboPosition.Book
import Omnibus.KoboPosition.Endpoints
import Omnibus.KoboPosition.Reading
import Omnibus.KoboPosition.Tiling

/-!
# Annotations there and back

A spine item both containers hold: the same characters in the body, cut into different
elements. The range CFI derived from a span range leads back to the same span range.
-/

namespace Omnibus.KoboPosition

open Omnibus.Library.Strings Omnibus.Library.Collapse

/-- The counters of an index fit the fields that carry them in a CFI. -/
structure FitsU32 (index : FileIndex) : Prop where
  steps : ∀ cluster ∈ index.clusters, ∀ step ∈ cluster.elementSteps, step < u32Bound
  text : ∀ cluster ∈ index.clusters, cluster.textIndex < u32Bound
  offset : ∀ cluster ∈ index.clusters, utf16Length cluster.raw < u32Bound

/-- One spine item of a source book and of its kepub. -/
structure SharedItem (source kepub : Doc) where
  sourceIndex : Nat
  kepubIndex : Nat
  href : Text
  kepubHref : Text
  sourceEvents : List Event
  kepubEvents : List Event
  sourceItem : source.spine[sourceIndex]? =
    some { href := some href, entry := .document sourceEvents }
  kepubItem : kepub.spine[kepubIndex]? =
    some { href := some kepubHref, entry := .document kepubEvents }
  sourceLookup : source.spineIndexForSource href = some sourceIndex
  kepubLookup : kepub.spineIndexForSource href = some kepubIndex
  single : SingleRoot sourceEvents
  /-- Wrapper elements add no character to the body and take none away. -/
  sameText : (read kepubEvents).symbols = (read sourceEvents).symbols
  spineFits : 2 * (sourceIndex + 1) < u32Bound
  sourceFits : FitsU32 (indexFile sourceEvents)

namespace SharedItem

variable {source kepub : Doc} (item : SharedItem source kepub)

structure Named (href : Text) : Prop where
  source : source.spineIndexForSource href = some item.sourceIndex
  kepub : kepub.spineIndexForSource href = some item.kepubIndex

theorem named_href : item.Named item.href := ⟨item.sourceLookup, item.kepubLookup⟩

@[simp] theorem source_index_at :
    source.indexAt item.sourceIndex = .ok (indexFile item.sourceEvents) := by
  simp [Doc.indexAt, Doc.readSpineEntry, item.sourceItem, bind, Except.bind, Doc.indexEntry]

@[simp] theorem kepub_index_at :
    kepub.indexAt item.kepubIndex = .ok (indexFile item.kepubEvents) := by
  simp [Doc.indexAt, Doc.readSpineEntry, item.kepubItem, bind, Except.bind, Doc.indexEntry]

@[simp] theorem source_cached_index :
    source.cachedIndex item.sourceIndex = some (indexFile item.sourceEvents) := by
  rw [Doc.cachedIndex, item.source_index_at]
  rfl

@[simp] theorem kepub_cached_index :
    kepub.cachedIndex item.kepubIndex = some (indexFile item.kepubEvents) := by
  rw [Doc.cachedIndex, item.kepub_index_at]
  rfl

@[simp] theorem source_href : source.spineHref item.sourceIndex = some item.href := by
  simp [Doc.spineHref, item.sourceItem]

@[simp] theorem kepub_href : kepub.spineHref item.kepubIndex = some item.kepubHref := by
  simp [Doc.spineHref, item.kepubItem]

theorem in_spine : ¬item.sourceIndex ≥ source.spine.length := by
  have := (List.getElem?_eq_some_iff.mp item.sourceItem).1
  omega

theorem same_norm : (indexFile item.kepubEvents).norm = (indexFile item.sourceEvents).norm := by
  rw [norm_eq, norm_eq, item.sameText]

theorem same_snippet (t : Nat) :
    (indexFile item.kepubEvents).snippetAt t = (indexFile item.sourceEvents).snippetAt t := by
  rw [FileIndex.snippetAt, FileIndex.snippetAt, item.same_norm]

theorem same_visible (t : Nat) : (indexFile item.kepubEvents).VisibleAt t ↔
    (indexFile item.sourceEvents).VisibleAt t := by
  rw [FileIndex.VisibleAt, FileIndex.VisibleAt, item.same_norm]

theorem tail_in_range (cluster : Cluster) (left rest : Text)
    (member : cluster ∈ (indexFile item.sourceEvents).clusters) (raw : cluster.raw = left ++ rest) :
    (cluster.tail (utf16Length left)).InRange := by
  have parity := walk_parity item.sourceEvents cluster member
  have length := item.sourceFits.offset cluster member
  rw [raw] at length
  simp only [utf16Length, extent_append] at length
  exact {
    steps := fun step inside => ⟨parity.1 step inside, item.sourceFits.steps cluster member step inside⟩
    textOdd := parity.2
    text := item.sourceFits.text cluster member
    offset := by
      show extent utf16Width left < u32Bound
      omega }

end SharedItem

/-- The offset of the first character of a range starting at `p`. -/
def FileIndex.firstCharacter (index : FileIndex) (p : SpanPoint) : Option Nat :=
  ((index.spanBoundary p.n p.m p.charUtf16).bind index.anchorAt).map (·.normOffset)

/-- The offset of the last character of a range ending at `p`. -/
def FileIndex.lastCharacter (index : FileIndex) (p : SpanPoint) : Option Nat :=
  ((index.spanBoundary p.n p.m p.charUtf16).bind index.backAnchorBefore).map (·.normOffset)

theorem FileIndex.anchor_at_visible {index : FileIndex} {t : Nat} (visible : index.VisibleAt t) :
    index.anchorAt t = some (index.anchor t) := by
  rw [anchorAt, land_of_visible visible, Option.map_some]

theorem FileIndex.back_anchor_visible {index : FileIndex} {t : Nat}
    (visible : index.VisibleAt t) :
    index.backAnchorBefore (t + 1) = some (index.anchor t) := by
  rw [backAnchorBefore, land_before_of_visible visible, Option.map_some]

namespace SharedItem

variable {source kepub : Doc} (item : SharedItem source kepub)

/-- The tails the source writes around the characters at `first` and `last`. -/
structure Tails (first last : Nat) (start «end» : CfiTail) : Prop where
  startAt : (indexFile item.sourceEvents).tailAt first =
    some (start, (indexFile item.sourceEvents).anchor first)
  endAt : (indexFile item.sourceEvents).tailEndAt (last + 1) =
    some («end», (indexFile item.sourceEvents).anchor last)
  startBack : (indexFile item.sourceEvents).offsetAt start =
    some ((indexFile item.sourceEvents).anchor first)
  endBack : (indexFile item.sourceEvents).offsetEndAt «end» =
    some ((indexFile item.sourceEvents).anchor last)
  startRange : start.InRange
  endRange : end.InRange

theorem exists_tails (first last : Nat)
    (firstVisible : (indexFile item.sourceEvents).VisibleAt first)
    (lastVisible : (indexFile item.sourceEvents).VisibleAt last) :
    ∃ start «end», item.Tails first last start «end» := by
  have distinct := addresses_nodup item.sourceEvents item.single
  obtain ⟨cluster, left, symbol, right, located⟩ :=
    exists_located item.sourceEvents first firstVisible.inside
  obtain ⟨cluster', left', symbol', right', located'⟩ :=
    exists_located item.sourceEvents last lastVisible.inside
  have landing := FileIndex.land_of_visible firstVisible
  refine ⟨_, _, {
    startAt := tail_at_located _ first first cluster left symbol right landing located
    endAt := tail_end_at_located _ (last + 1) last cluster' left' symbol' right'
      (FileIndex.land_before_of_visible lastVisible) located'
    startBack := offset_at_located _ distinct first first cluster left symbol right landing located
    endBack := offset_end_at_located _ distinct last cluster' left' symbol' right' lastVisible
      located'
    startRange := item.tail_in_range cluster left (symbol :: right) located.member located.raw
    endRange := item.tail_in_range cluster' (left' ++ [symbol']) right' located'.member (by
      rw [located'.raw]
      simp) }⟩

end SharedItem

/-- A span range between visible characters becomes a range CFI, and that CFI becomes a
span range of the same characters. -/
theorem annotation_round_trip {source kepub : Doc} (item : SharedItem source kepub)
    (covered : Covered (read item.kepubEvents)) (filled : Filled (read item.kepubEvents))
    (range : KoboSpanRange) (named : item.Named range.source) (first last : Nat)
    (starts : StartsAt (read item.kepubEvents) range.start first)
    (ends : EndsAfter (read item.kepubEvents) range.end last) (ordered : first ≤ last) :
    ∃ cfi back, annotationCfi kepub source range = some cfi ∧
      annotationLocation kepub source cfi = some back ∧
      (indexFile item.kepubEvents).firstCharacter range.start =
        some ((read item.kepubEvents).normAt first) ∧
      (indexFile item.kepubEvents).firstCharacter back.start =
        some ((read item.kepubEvents).normAt first) ∧
      (indexFile item.kepubEvents).lastCharacter range.end =
        some ((read item.kepubEvents).normAt last) ∧
      (indexFile item.kepubEvents).lastCharacter back.end =
        some ((read item.kepubEvents).normAt last) := by
  have unnested := unnested_of_filled item.kepubEvents covered filled
  obtain ⟨startBoundary, startPoint⟩ := starts_at_boundary covered unnested starts
  obtain ⟨endBoundary, endPoint⟩ := ends_after_boundary covered unnested ends
  obtain ⟨firstGlyph, firstFound, firstSeen⟩ := starts.found
  obtain ⟨lastGlyph, lastFound, lastSeen⟩ := ends.found
  have firstVisible := visible_at_norm item.kepubEvents first firstGlyph firstFound firstSeen
  have lastVisible := visible_at_norm item.kepubEvents last lastGlyph lastFound lastSeen
  have mono := norm_at_mono (read item.kepubEvents) ordered
  obtain ⟨start, «end», tails⟩ := item.exists_tails _ _ ((item.same_visible _).mp firstVisible)
    ((item.same_visible _).mp lastVisible)
  have startAnchor := FileIndex.anchor_at_visible firstVisible
  have endAnchor := FileIndex.back_anchor_visible lastVisible
  have forward : annotationCfi kepub source range =
      some (formatRangeCfi item.sourceIndex start «end») := by
    simp [annotationCfi, named.kepub, named.source, startBoundary, endBoundary, startAnchor,
      endAnchor, item.same_snippet, tails.startAt, tails.endAt, FileIndex.anchor, mono]
  have parsed := parse_range_cfi_format item.sourceIndex start «end» item.spineFits
    tails.startRange tails.endRange
  have back : annotationLocation kepub source (formatRangeCfi item.sourceIndex start «end») =
      some { source := item.kepubHref, start := range.start, «end» := range.end } := by
    simp [annotationLocation, parsed, item.in_spine, tails.startBack, tails.endBack,
      item.kepubLookup, item.same_snippet, FileIndex.anchor, mono, startPoint, endPoint]
  refine ⟨_, _, forward, back, ?_⟩
  simp [FileIndex.firstCharacter, FileIndex.lastCharacter, startBoundary, endBoundary, startAnchor,
    endAnchor, FileIndex.anchor]

/-- A one-chapter book holding the paragraph `inner`. -/
def chapter (inner : List Event) : List Event :=
  ([.start ['h', 't', 'm', 'l'] ['h', 't', 'm', 'l'] none,
    .start ['b', 'o', 'd', 'y'] ['b', 'o', 'd', 'y'] none,
    .start ['p'] ['p'] none] : List Event) ++ inner ++ ([.close, .close, .close] : List Event)

def chapterBook (inner : List Event) : Doc where
  spine := [{ href := some ['c', '1'], entry := .document (chapter inner) }]

def spanStartTag (m : Char) : Event :=
  .start ['s', 'p', 'a', 'n'] ['s', 'p', 'a', 'n'] (some ['k', 'o', 'b', 'o', '.', '1', '.', m])

theorem first_item_fits : 2 * (0 + 1) < u32Bound := by decide

/-- `Hi you` in a paragraph, and the same in one span. -/
def plainItem :
    SharedItem (chapterBook [.text ['H', 'i', ' ', 'y', 'o', 'u'] 6])
      (chapterBook [spanStartTag '1', .text ['H', 'i', ' ', 'y', 'o', 'u'] 6, .close]) where
  sourceIndex := 0
  kepubIndex := 0
  href := ['c', '1']
  kepubHref := ['c', '1']
  sourceEvents := _
  kepubEvents := _
  sourceItem := rfl
  kepubItem := rfl
  sourceLookup := by decide
  kepubLookup := by decide
  single := by decide
  sameText := by decide
  spineFits := first_item_fits
  sourceFits := ⟨by decide, by decide, by decide⟩

theorem annotation_round_trip_plain :
    ∃ cfi back,
      annotationCfi (chapterBook [spanStartTag '1', .text ['H', 'i', ' ', 'y', 'o', 'u'] 6, .close])
        (chapterBook [.text ['H', 'i', ' ', 'y', 'o', 'u'] 6])
        { source := ['c', '1'], start := ⟨1, 1, 0⟩, «end» := ⟨1, 1, 6⟩ } = some cfi ∧
      annotationLocation
        (chapterBook [spanStartTag '1', .text ['H', 'i', ' ', 'y', 'o', 'u'] 6, .close])
        (chapterBook [.text ['H', 'i', ' ', 'y', 'o', 'u'] 6]) cfi = some back ∧
      (indexFile plainItem.kepubEvents).firstCharacter ⟨1, 1, 0⟩ = some 0 ∧
      (indexFile plainItem.kepubEvents).firstCharacter back.start = some 0 ∧
      (indexFile plainItem.kepubEvents).lastCharacter ⟨1, 1, 6⟩ = some 5 ∧
      (indexFile plainItem.kepubEvents).lastCharacter back.end = some 5 := by
  exact annotation_round_trip plainItem ⟨by decide, by decide⟩ (by unfold Filled; decide)
    { source := ['c', '1'], start := ⟨1, 1, 0⟩, «end» := ⟨1, 1, 6⟩ } ⟨by decide, by decide⟩ 0 5
    ⟨_, ⟨rfl, by decide, by decide, by decide⟩, rfl⟩
    ⟨_, ⟨rfl, by decide, by decide, by decide⟩, rfl⟩ (by decide)

end Omnibus.KoboPosition
