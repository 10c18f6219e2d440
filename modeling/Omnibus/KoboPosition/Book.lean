import Omnibus.KoboPosition.Spans

/-!
# Books and the translations between them

`kobo_position/book.rs` and `kobo_position/mod.rs`: the spine of an EPUB container, and
the derivations between the Kobo spans of a kepub and the CFIs of its source. A container
is its spine as the `epub` crate hands it out, with each document already tokenised.
-/

namespace Omnibus.KoboPosition

open Omnibus.Library.Strings

/-- What reading a spine entry gives: no such resource, not well-formed, or its events. -/
inductive Entry where
  | missing
  | malformed
  | document (events : List Event)
  deriving DecidableEq, Repr

structure SpineItem where
  href : Option Text
  entry : Entry
  deriving DecidableEq, Repr

structure Doc where
  spine : List SpineItem
  deriving DecidableEq, Repr

inductive ReadError where
  | missing
  | malformed
  deriving DecidableEq, Repr

def trimDotSlash : Text → Text
  | '.' :: '/' :: rest => trimDotSlash rest
  | text => text

namespace Doc

def spineHref (doc : Doc) (i : Nat) : Option Text := doc.spine[i]?.bind (·.href)

def spineIndexForSource (doc : Doc) (source : Text) : Option Nat :=
  let normalized := trimDotSlash source
  let indices := List.range doc.spine.length
  (indices.find? fun i => doc.spineHref i = some normalized).or
    (indices.find? fun i => (doc.spineHref i).any fun href =>
      normalized.isSuffixOf href || href.isSuffixOf normalized)

def readSpineEntry (doc : Doc) (i : Nat) : Except ReadError Entry :=
  match doc.spine[i]? with
  | none => .error .missing
  | some item => if item.entry = .missing then .error .missing else .ok item.entry

def indexEntry : Entry → Except ReadError FileIndex
  | .document events => .ok (indexFile events)
  | _ => .error .malformed

/-- `read_spine_entry` then `index_file`. -/
def indexAt (doc : Doc) (i : Nat) : Except ReadError FileIndex := do
  let entry ← doc.readSpineEntry i
  indexEntry entry

/-- The batch cache holds what a fresh read gives, and forgets why a read failed. -/
def cachedIndex (doc : Doc) (i : Nat) : Option FileIndex := (doc.indexAt i).toOption

end Doc

/-- `span_to_cfi`, both containers open. -/
def spanToCfi (kepub source : Doc) (loc : KoboLoc) : Except ReadError (Option Text) :=
  match kepub.spineIndexForSource loc.source with
  | none => .ok none
  | some kIdx => do
      let kIndex ← kepub.indexAt kIdx
      match kIndex.spanStart loc.n loc.m with
      | none => .ok none
      | some anchor =>
          match source.spineIndexForSource loc.source with
          | none => .ok none
          | some sIdx => do
              let sIndex ← source.indexAt sIdx
              match sIndex.tailAt anchor.normOffset with
              | none => .ok none
              | some (tail, sAnchor) =>
                  if sAnchor.normOffset ≠ anchor.normOffset ∨ sAnchor.snippet ≠ anchor.snippet
                  then .ok none
                  else .ok (some (formatCfi sIdx tail))

/-- The start lands forward on its first character; the end is the exclusive boundary
after its last one. Both are proved by snippet. -/
def annotationCfi (kepub source : Doc) (range : KoboSpanRange) : Option Text := do
  let kIdx ← kepub.spineIndexForSource range.source
  let kIndex ← kepub.cachedIndex kIdx
  let startBoundary ← kIndex.spanBoundary range.start.n range.start.m range.start.charUtf16
  let endBoundary ← kIndex.spanBoundary range.end.n range.end.m range.end.charUtf16
  let kStart ← kIndex.anchorAt startBoundary
  let kEndCheck ← kIndex.backAnchorBefore endBoundary
  if kEndCheck.normOffset < kStart.normOffset then none
  else
    let sIdx ← source.spineIndexForSource range.source
    let sIndex ← source.cachedIndex sIdx
    let (startTail, sStart) ← sIndex.tailAt kStart.normOffset
    if sStart.normOffset ≠ kStart.normOffset ∨ sStart.snippet ≠ kStart.snippet then none
    else
      let (endTail, sEnd) ← sIndex.tailEndAt endBoundary
      if sEnd.normOffset ≠ kEndCheck.normOffset ∨ sEnd.snippet ≠ kEndCheck.snippet then none
      else some (formatRangeCfi sIdx startTail endTail)

def annotationLocation (kepub source : Doc) (cfi : Text) : Option KoboSpanRange := do
  let range ← parseRangeCfi cfi
  if range.spineIndex ≥ source.spine.length then none
  else
    let href ← source.spineHref range.spineIndex
    let sIndex ← source.cachedIndex range.spineIndex
    let sStart ← sIndex.offsetAt range.start
    let sEnd ← sIndex.offsetEndAt range.end
    if sEnd.normOffset < sStart.normOffset then none
    else
      let kIdx ← kepub.spineIndexForSource href
      let kIndex ← kepub.cachedIndex kIdx
      if kIndex.snippetAt sStart.normOffset ≠ sStart.snippet ∨
          kIndex.snippetAt sEnd.normOffset ≠ sEnd.snippet then none
      else
        let start ← kIndex.spanPointAt sStart.normOffset
        let «end» ← kIndex.spanPointAfter sEnd.normOffset
        let kHref ← kepub.spineHref kIdx
        some { source := kHref, start, «end» }

structure DerivedSpan where
  location : Option KoboLoc
  percent : Option Nat
  deriving DecidableEq, Repr

def visibleChars : List SpineItem → Except ReadError (List Nat)
  | [] => .ok []
  | item :: rest =>
      match item.entry with
      | .missing => .error .missing
      | .malformed => do
          let counts ← visibleChars rest
          .ok (0 :: counts)
      | .document events => do
          let counts ← visibleChars rest
          .ok ((indexFile events).visibleCharCount :: counts)

/-- Visible characters before the spine item plus the offset in it, over the total. -/
def bookPercent (source : Doc) (spineIndex offsetInFile : Nat) : Except ReadError Nat := do
  let counts ← visibleChars source.spine
  let before := (counts.take spineIndex).sum
  let total := counts.sum
  if total = 0 then .ok 0 else .ok (min (100 * (before + offsetInFile) / total) 100)

/-- The span at the source anchor, proved by snippet at the same offset. -/
def deriveSpanHalf (kepub : Doc) (href : Text) (anchor : Anchor) :
    Except ReadError (Option KoboLoc) :=
  match kepub.spineIndexForSource href with
  | none => .ok none
  | some kIdx => do
      let kIndex ← kepub.indexAt kIdx
      if kIndex.snippetAt anchor.normOffset ≠ anchor.snippet then .ok none
      else .ok ((kIndex.spanAt anchor.normOffset).map fun span =>
        { source := href, n := span.1, m := span.2 })

/-- `cfi_to_span`; a failing kepub walk leaves the percent half. -/
def cfiToSpan (kepub : Option Doc) (source : Doc) (cfi : Text) : Except ReadError DerivedSpan :=
  match parseCfi cfi with
  | none => .ok { location := none, percent := none }
  | some parsed =>
      if parsed.spineIndex ≥ source.spine.length then .ok { location := none, percent := none }
      else
        match source.spineHref parsed.spineIndex with
        | none => .ok { location := none, percent := none }
        | some href => do
            let sIndex ← source.indexAt parsed.spineIndex
            match sIndex.offsetAt parsed.tail with
            | none => .ok { location := none, percent := none }
            | some anchor => do
                let percent ← bookPercent source parsed.spineIndex anchor.normOffset
                let location := (kepub.bind fun kepub =>
                  (deriveSpanHalf kepub href anchor).toOption.join)
                .ok { location, percent := some percent }

end Omnibus.KoboPosition
