import Omnibus.KoboPosition.Book

/-!
# Which document a source names

`spine_index_for_source` falls back on a suffix match in either direction. The table of
contents resolves the same kind of path by `segment_suffix_match`, which never matches in
the middle of a path segment. The two are compared here: when the fallback stays on
documents the source names at a segment boundary, and what the derivations place then.
-/

namespace Omnibus.KoboPosition

open Omnibus.Library.Strings

/-- The matcher of the table of contents: aligned on a `/` boundary, never mid-segment. -/
def segmentSuffixMatch (a b : Text) : Bool :=
  ('/' :: b).isSuffixOf a || ('/' :: a).isSuffixOf b

def rawSuffixMatch (href normalized : Text) : Bool :=
  normalized.isSuffixOf href || href.isSuffixOf normalized

theorem raw_of_segment_suffix_match (a b : Text) (aligned : segmentSuffixMatch a b = true) :
    rawSuffixMatch a b = true := by
  simp only [segmentSuffixMatch, rawSuffixMatch, Bool.or_eq_true,
    List.isSuffixOf_iff_suffix] at aligned ⊢
  apply aligned.imp
  · exact (List.suffix_cons '/' b).trans
  · exact (List.suffix_cons '/' a).trans

namespace Doc

def DistinctHrefs (doc : Doc) : Prop :=
  ∀ i j href, doc.spineHref i = some href → doc.spineHref j = some href → i = j

/-- Item `i` is the source's document: the same path, or one path continues the other at a
segment boundary. -/
def NamedBy (doc : Doc) (i : Nat) (source : Text) : Prop :=
  ∃ href, doc.spineHref i = some href ∧
    (href = trimDotSlash source ∨ segmentSuffixMatch href (trimDotSlash source) = true)

/-- What resolving a source should give: a document the source names, and the exact match
where there is one. -/
def Resolves (doc : Doc) (source : Text) : Prop :=
  (∀ i, doc.spineIndexForSource source = some i → doc.NamedBy i source) ∧
    ∀ i, doc.spineHref i = some (trimDotSlash source) → doc.spineIndexForSource source = some i

/-- The spine has the source itself, or every item that only shares trailing characters with
it comes after one that matches at a segment boundary. -/
def SegmentFirst (doc : Doc) (source : Text) : Prop :=
  (∃ i, doc.spineHref i = some (trimDotSlash source)) ∨
    ∀ i href, doc.spineHref i = some href →
      rawSuffixMatch href (trimDotSlash source) = true →
      segmentSuffixMatch href (trimDotSlash source) = false →
      ∃ j < i, ∃ earlier, doc.spineHref j = some earlier ∧
        segmentSuffixMatch earlier (trimDotSlash source) = true

theorem spine_href_in_range (doc : Doc) (i : Nat) (href : Text)
    (found : doc.spineHref i = some href) : i < doc.spine.length := by
  by_contra outside
  have absent : doc.spine[i]? = none := List.getElem?_eq_none (Nat.le_of_not_lt outside)
  simp [spineHref, absent] at found

theorem first_index_some (doc : Doc) (test : Option Text → Bool) (i : Nat)
    (first : (List.range doc.spine.length).find? (fun i => test (doc.spineHref i)) = some i) :
    test (doc.spineHref i) = true ∧ ∀ j < i, test (doc.spineHref j) = false := by
  rw [List.find?_range_eq_some] at first
  obtain ⟨accepted, -, before⟩ := first
  refine ⟨accepted, ?_⟩
  intro j earlier
  simpa using before j earlier

theorem first_index_none (doc : Doc) (test : Option Text → Bool)
    (absent : (List.range doc.spine.length).find? (fun i => test (doc.spineHref i)) = none)
    (i : Nat) (href : Text) (found : doc.spineHref i = some href) :
    test (some href) = false := by
  rw [List.find?_range_eq_none] at absent
  have rejected := absent i (doc.spine_href_in_range i href found)
  simpa [found] using rejected

theorem spine_index_of_exact (doc : Doc) (source : Text) (distinct : doc.DistinctHrefs) (i : Nat)
    (exactly : doc.spineHref i = some (trimDotSlash source)) :
    doc.spineIndexForSource source = some i := by
  let test : Option Text → Bool := fun href => href = some (trimDotSlash source)
  cases found : (List.range doc.spine.length).find? (fun i => test (doc.spineHref i)) with
  | none =>
      have rejected := doc.first_index_none test found i _ exactly
      simp [test] at rejected
  | some j =>
      have accepted := (doc.first_index_some test j found).1
      have same : i = j := distinct i j _ exactly (by simpa [test] using accepted)
      have returned : doc.spineIndexForSource source = some j := by
        simp only [spineIndexForSource]
        rw [show (List.range doc.spine.length).find?
          (fun i => decide (doc.spineHref i = some (trimDotSlash source))) = some j from found]
        rfl
      rw [returned, same]

theorem spine_index_of_no_exact (doc : Doc) (source : Text)
    (none : ¬∃ i, doc.spineHref i = some (trimDotSlash source)) :
    doc.spineIndexForSource source = (List.range doc.spine.length).find? (fun i =>
      (doc.spineHref i).any fun href => rawSuffixMatch href (trimDotSlash source)) := by
  have absent : (List.range doc.spine.length).find?
      (fun i => decide (doc.spineHref i = some (trimDotSlash source))) = .none := by
    rw [List.find?_range_eq_none]
    intro i _
    have differs : doc.spineHref i ≠ some (trimDotSlash source) := fun same => none ⟨i, same⟩
    simp [differs]
  simp only [spineIndexForSource]
  rw [absent]
  rfl

theorem named_of_segment_first (doc : Doc) (source : Text) (distinct : doc.DistinctHrefs)
    (condition : doc.SegmentFirst source) (i : Nat)
    (returned : doc.spineIndexForSource source = some i) : doc.NamedBy i source := by
  by_cases exactly : ∃ j, doc.spineHref j = some (trimDotSlash source)
  · obtain ⟨j, exactly⟩ := exactly
    have same := doc.spine_index_of_exact source distinct j exactly
    rw [returned, Option.some.injEq] at same
    subst same
    exact ⟨_, exactly, Or.inl rfl⟩
  · rw [doc.spine_index_of_no_exact source exactly] at returned
    obtain ⟨accepted, before⟩ := doc.first_index_some
      (fun href => href.any fun href => rawSuffixMatch href (trimDotSlash source)) i returned
    obtain ⟨href, found, raw⟩ : ∃ href, doc.spineHref i = some href ∧
        rawSuffixMatch href (trimDotSlash source) = true := by
      cases found : doc.spineHref i with
      | none => simp [found] at accepted
      | some href => exact ⟨href, rfl, by simpa [found] using accepted⟩
    refine ⟨href, found, Or.inr ?_⟩
    by_contra misaligned
    -- A misaligned first match would follow an aligned one, which is itself a raw match.
    obtain ⟨j, earlier, path, foundEarlier, aligned⟩ :=
      (condition.resolve_left exactly) i href found raw (by simpa using misaligned)
    have rejected := before j earlier
    simp [foundEarlier, raw_of_segment_suffix_match _ _ aligned] at rejected

theorem segment_first_of_named (doc : Doc) (source : Text)
    (named : ∀ i, doc.spineIndexForSource source = some i → doc.NamedBy i source) :
    doc.SegmentFirst source := by
  by_cases exactly : ∃ j, doc.spineHref j = some (trimDotSlash source)
  · exact Or.inl exactly
  apply Or.inr
  intro i href found raw misaligned
  let test : Option Text → Bool := fun href =>
    href.any fun href => rawSuffixMatch href (trimDotSlash source)
  cases first : (List.range doc.spine.length).find? (fun i => test (doc.spineHref i)) with
  | none =>
      have rejected := doc.first_index_none test first i href found
      simp [test, raw] at rejected
  | some j =>
      have returned : doc.spineIndexForSource source = some j := by
        rw [doc.spine_index_of_no_exact source exactly]
        exact first
      obtain ⟨earlier, foundEarlier, same | aligned⟩ := named j returned
      · exact absurd ⟨j, same ▸ foundEarlier⟩ exactly
      · have notLater : ¬i < j := fun later => by
          have rejected := (doc.first_index_some test j first).2 i later
          simp [test, found, raw] at rejected
        have differs : j ≠ i := by
          intro equal
          subst equal
          rw [found, Option.some.injEq] at foundEarlier
          rw [foundEarlier, aligned] at misaligned
          exact absurd misaligned (by decide)
        exact ⟨j, by omega, earlier, foundEarlier, aligned⟩

theorem resolves_iff (doc : Doc) (source : Text) (distinct : doc.DistinctHrefs) :
    doc.Resolves source ↔ doc.SegmentFirst source := by
  constructor
  · intro resolves
    exact doc.segment_first_of_named source resolves.1
  · intro condition
    exact ⟨doc.named_of_segment_first source distinct condition,
      doc.spine_index_of_exact source distinct⟩

end Doc

theorem span_to_cfi_document (kepub source : Doc) (loc : KoboLoc) (cfi : Text)
    (derived : spanToCfi kepub source loc = .ok (some cfi)) :
    ∃ i tail, cfi = formatCfi i tail ∧ source.spineIndexForSource loc.source = some i := by
  simp only [spanToCfi] at derived
  cases kFound : kepub.spineIndexForSource loc.source with
  | none => simp [kFound] at derived
  | some kIdx =>
  simp only [kFound] at derived
  cases kRead : kepub.indexAt kIdx with
  | error _ => simp [kRead, bind, Except.bind] at derived
  | ok kIndex =>
  simp only [kRead, bind, Except.bind] at derived
  cases started : kIndex.spanStart loc.n loc.m with
  | none => simp [started] at derived
  | some anchor =>
  simp only [started] at derived
  cases sFound : source.spineIndexForSource loc.source with
  | none => simp [sFound] at derived
  | some sIdx =>
  simp only [sFound] at derived
  cases sRead : source.indexAt sIdx with
  | error _ => simp [sRead] at derived
  | ok sIndex =>
  simp only [sRead] at derived
  cases placed : sIndex.tailAt anchor.normOffset with
  | none => simp [placed] at derived
  | some place =>
  simp only [placed] at derived
  split at derived
  · simp at derived
  · simp only [Except.ok.injEq, Option.some.injEq] at derived
    exact ⟨sIdx, place.1, derived.symm, rfl⟩

theorem annotation_cfi_document (kepub source : Doc) (range : KoboSpanRange) (cfi : Text)
    (derived : annotationCfi kepub source range = some cfi) :
    ∃ i first last, cfi = formatRangeCfi i first last ∧
      source.spineIndexForSource range.source = some i := by
  simp only [annotationCfi, Option.bind_eq_bind, Option.bind_eq_some_iff] at derived
  obtain ⟨kIdx, -, kIndex, -, startBoundary, -, endBoundary, -, kStart, -, kEnd, -, rest⟩ :=
    derived
  split at rest
  · exact absurd rest (by simp)
  simp only [Option.bind_eq_some_iff] at rest
  obtain ⟨sIdx, sFound, sIndex, -, startPlace, -, rest⟩ := rest
  split at rest
  · exact absurd rest (by simp)
  simp only [Option.bind_eq_some_iff] at rest
  obtain ⟨endPlace, -, rest⟩ := rest
  split at rest
  · exact absurd rest (by simp)
  · exact ⟨sIdx, startPlace.1, endPlace.1, (Option.some.inj rest).symm, sFound⟩

/-- A source resolves to a document it names exactly when no raw match at less than a segment
boundary comes first; both derivations then stand in a named document. -/
theorem source_stays_in_its_document (kepub source : Doc) (path : Text)
    (distinctKepub : kepub.DistinctHrefs) (distinctSource : source.DistinctHrefs) :
    ((kepub.Resolves path ↔ kepub.SegmentFirst path) ∧
      (source.Resolves path ↔ source.SegmentFirst path)) ∧
    (source.SegmentFirst path →
      (∀ n m cfi, spanToCfi kepub source ⟨path, n, m⟩ = .ok (some cfi) →
        ∃ i tail, cfi = formatCfi i tail ∧ source.NamedBy i path) ∧
      ∀ start «end» cfi, annotationCfi kepub source ⟨path, start, «end»⟩ = some cfi →
        ∃ i first last, cfi = formatRangeCfi i first last ∧ source.NamedBy i path) := by
  refine ⟨⟨kepub.resolves_iff path distinctKepub, source.resolves_iff path distinctSource⟩, ?_⟩
  intro condition
  constructor
  · intro n m cfi derived
    obtain ⟨i, tail, written, returned⟩ := span_to_cfi_document kepub source _ cfi derived
    exact ⟨i, tail, written,
      source.named_of_segment_first path distinctSource condition i returned⟩
  · intro start «end» cfi derived
    obtain ⟨i, first, last, written, returned⟩ :=
      annotation_cfi_document kepub source _ cfi derived
    exact ⟨i, first, last, written,
      source.named_of_segment_first path distinctSource condition i returned⟩

def twoChapters : Doc :=
  ⟨[⟨some "1.xhtml".toList, .missing⟩, ⟨some "chapter1.xhtml".toList, .missing⟩]⟩

theorem two_chapters_distinct : twoChapters.DistinctHrefs := by
  intro i j href first second
  have smallFirst : i < 2 := twoChapters.spine_href_in_range i href first
  have smallSecond : j < 2 := twoChapters.spine_href_in_range j href second
  have names : twoChapters.spineHref 0 ≠ twoChapters.spineHref 1 := by decide +kernel
  have cases : (i = 0 ∨ i = 1) ∧ (j = 0 ∨ j = 1) := by omega
  obtain ⟨rfl | rfl, rfl | rfl⟩ := cases
  · rfl
  · exact absurd (first.trans second.symm) names
  · exact absurd (second.trans first.symm) names
  · rfl

theorem source_stays_in_its_document_two_chapters :
    twoChapters.Resolves "./chapter1.xhtml".toList :=
  (source_stays_in_its_document twoChapters twoChapters _ two_chapters_distinct
    two_chapters_distinct).1.1.mpr (Or.inl ⟨1, by decide +kernel⟩)

/-- The location of `chapter1.xhtml` under its folder resolves to `1.xhtml`. -/
theorem source_in_another_document :
    ¬∀ (doc : Doc) (source : Text), doc.DistinctHrefs → doc.Resolves source := by
  intro claimed
  have resolves := claimed twoChapters "OEBPS/chapter1.xhtml".toList two_chapters_distinct
  obtain ⟨href, found, same | aligned⟩ := resolves.1 0 (by decide +kernel)
  · simp only [twoChapters, Doc.spineHref, List.getElem?_cons_zero, Option.bind_some,
      Option.some.injEq] at found
    subst found
    exact absurd same (by decide +kernel)
  · simp only [twoChapters, Doc.spineHref, List.getElem?_cons_zero, Option.bind_some,
      Option.some.injEq] at found
    subst found
    exact absurd aligned (by decide +kernel)

end Omnibus.KoboPosition
