import Mathlib.Algebra.Order.Field.Rat
import Mathlib.Data.List.Induction
import Mathlib.Data.List.Sort
import Mathlib.Data.String.Basic

/-!
# The chapter at a spine document

Annotations are placed by `AnchorIndex::locate_spine`, reading positions by `chapter_at_spine`.
Both read the stored table of contents; the first takes the opening chapter of the furthest
document reached, the second the last entry of the table that has been reached.
-/

namespace Omnibus.Placement

/-- A row of `epub_spine_stats`. -/
structure SpineStatRow where
  spineIndex : Int
  href : String
  visibleChars : Int
  charsBefore : Int
  deriving DecidableEq, Repr

/-- A row of `ebook_chapters`. -/
structure EbookChapterRow where
  ordinal : Int
  title : String
  href : String
  spineIndex : Int
  startChars : Int
  anchorPath : Option String
  deriving DecidableEq, Repr

structure AnchorPlacement where
  spineIndex : Option Int := none
  chapterTitle : Option String := none
  percentThroughBook : Option ℚ := none
  deriving DecidableEq, Repr

variable {rows : List EbookChapterRow} {spine : List SpineStatRow} {spineIndex : Int}

section Model

/-- `ORDER BY ordinal`. -/
def getChapters (rows : List EbookChapterRow) : List EbookChapterRow :=
  rows.insertionSort (·.ordinal ≤ ·.ordinal)

structure Structure where
  spine : List SpineStatRow
  chapters : List EbookChapterRow
  totalChars : Int
  deriving DecidableEq, Repr

def saturatingAdd (left right : Int) : Int :=
  max (-2 ^ 63) (min (2 ^ 63 - 1) (left + right))

def Structure.load (spine : List SpineStatRow) (rows : List EbookChapterRow) : Structure where
  spine := spine
  chapters := getChapters rows
  totalChars := spine.foldl (fun total row => saturatingAdd total (max row.visibleChars 0)) 0

/-- The key of `max_by_key`: the spine index, then the smaller ordinal. -/
def opensAfter (left right : EbookChapterRow) : Bool :=
  left.spineIndex < right.spineIndex ||
    left.spineIndex = right.spineIndex && right.ordinal ≤ left.ordinal

/-- `max_by_key`, the later of equals. -/
def maxByKey (chapters : List EbookChapterRow) : Option EbookChapterRow :=
  chapters.foldl (fun best chapter =>
    match best with
    | none => some chapter
    | some held => if opensAfter held chapter then some chapter else some held) none

def locateSpine (structured : Structure) (spineIndex : Int) : AnchorPlacement :=
  match structured.spine.find? (·.spineIndex = spineIndex) with
  | none => { spineIndex := some spineIndex }
  | some row =>
      { spineIndex := some spineIndex
        chapterTitle :=
          (maxByKey (structured.chapters.filter (·.spineIndex ≤ spineIndex))).map (·.title)
        percentThroughBook :=
          if 0 < structured.totalChars then
            some (max 0 (min 100 ((max row.charsBefore 0 : Int) / structured.totalChars * 100)))
          else none }

/-- The last index whose chapter starts at or before the document. -/
def chapterAtSpine (chapters : List EbookChapterRow) (spineIndex : Int) : Option Nat :=
  ((chapters.zipIdx.filter fun entry => entry.1.spineIndex ≤ spineIndex).map (·.2)).getLast?

def resolvedChapterTitle (chapters : List EbookChapterRow) (spineIndex : Int) : Option String :=
  (chapterAtSpine chapters spineIndex).bind fun index => chapters[index]?.map (·.title)

end Model

section Statement

/-- The first entry of the furthest document reached. -/
structure Opens (rows : List EbookChapterRow) (spineIndex : Int) (chapter : EbookChapterRow) :
    Prop where
  member : chapter ∈ rows
  reached : chapter.spineIndex ≤ spineIndex
  furthest : ∀ other ∈ rows, other.spineIndex ≤ spineIndex →
    other.spineIndex ≤ chapter.spineIndex
  first : ∀ other ∈ rows, other.spineIndex = chapter.spineIndex →
    chapter.ordinal ≤ other.ordinal

/-- No entry that has been reached and comes after the opening chapter in the table closes it
under another title. -/
def OpensLast (rows : List EbookChapterRow) (spineIndex : Int) : Prop :=
  ∀ chapter, Opens rows spineIndex chapter → ∀ later ∈ rows, later.spineIndex ≤ spineIndex →
    chapter.ordinal < later.ordinal →
      (∀ other ∈ rows, other.spineIndex ≤ spineIndex → other.ordinal ≤ later.ordinal) →
        later.title = chapter.title

end Statement

section Selectors

theorem mem_get_chapters (chapter : EbookChapterRow) :
    chapter ∈ getChapters rows ↔ chapter ∈ rows := List.mem_insertionSort _

theorem get_chapters_sorted (ordinals : (rows.map (·.ordinal)).Nodup) :
    (getChapters rows).Pairwise (·.ordinal < ·.ordinal) := by
  have sorted : (getChapters rows).Pairwise (·.ordinal ≤ ·.ordinal) := by
    apply List.pairwise_insertionSort
  have distinct : (getChapters rows).Pairwise (·.ordinal ≠ ·.ordinal) := by
    rw [← List.pairwise_map (f := EbookChapterRow.ordinal)]
    exact ((List.perm_insertionSort _ rows).map _).nodup_iff.mpr ordinals
  exact (sorted.and distinct).imp fun ⟨le, ne⟩ => lt_of_le_of_ne le ne

theorem opens_after_total (left right : EbookChapterRow)
    (not : ¬opensAfter left right = true) : opensAfter right left = true := by
  simp only [opensAfter, Bool.or_eq_true, Bool.and_eq_true, decide_eq_true_eq] at *
  omega

theorem opens_after_trans {first second third : EbookChapterRow}
    (one : opensAfter first second = true) (two : opensAfter second third = true) :
    opensAfter first third = true := by
  simp only [opensAfter, Bool.or_eq_true, Bool.and_eq_true, decide_eq_true_eq] at *
  omega

theorem max_by_key_spec (chapters : List EbookChapterRow) :
    match maxByKey chapters with
    | none => chapters = []
    | some best => best ∈ chapters ∧ ∀ other ∈ chapters, opensAfter other best = true := by
  induction chapters using List.reverseRecOn with
  | nil => rfl
  | append_singleton chapters chapter induction =>
      unfold maxByKey at induction ⊢
      rw [List.foldl_append, List.foldl_cons, List.foldl_nil]
      have itself : opensAfter chapter chapter = true := by simp [opensAfter]
      cases found : chapters.foldl (fun best chapter =>
          match best with
          | none => some chapter
          | some held => if opensAfter held chapter then some chapter else some held) none with
      | none =>
          rw [found] at induction
          dsimp only at induction ⊢
          rw [induction]
          simpa using itself
      | some held =>
          rw [found] at induction
          obtain ⟨member, greatest⟩ := induction
          dsimp only
          split_ifs with after
          · refine ⟨List.mem_append_right _ List.mem_cons_self, fun other otherMem => ?_⟩
            rcases List.mem_append.mp otherMem with old | isLast
            · exact opens_after_trans (greatest other old) after
            · rw [List.mem_singleton.mp isLast]
              exact itself
          · refine ⟨List.mem_append_left _ member, fun other otherMem => ?_⟩
            rcases List.mem_append.mp otherMem with old | isLast
            · exact greatest other old
            · rw [List.mem_singleton.mp isLast]
              exact opens_after_total _ _ after

theorem max_by_key_opens {chapter : EbookChapterRow} (found : maxByKey
    ((getChapters rows).filter (·.spineIndex ≤ spineIndex)) = some chapter) :
    Opens rows spineIndex chapter := by
  have spec := max_by_key_spec ((getChapters rows).filter (·.spineIndex ≤ spineIndex))
  rw [found] at spec
  obtain ⟨member, greatest⟩ := spec
  rw [List.mem_filter, mem_get_chapters, decide_eq_true_eq] at member
  have key (other : EbookChapterRow) (otherMem : other ∈ rows)
      (reached : other.spineIndex ≤ spineIndex) : opensAfter other chapter = true :=
    greatest other (List.mem_filter.mpr ⟨(mem_get_chapters other).mpr otherMem,
      decide_eq_true reached⟩)
  constructor
  · exact member.1
  · exact member.2
  · intro other otherMem reached
    have after := key other otherMem reached
    simp only [opensAfter, Bool.or_eq_true, Bool.and_eq_true, decide_eq_true_eq] at after
    omega
  · intro other otherMem same
    have after := key other otherMem (same.trans_le member.2)
    simp only [opensAfter, Bool.or_eq_true, Bool.and_eq_true, decide_eq_true_eq] at after
    omega

theorem resolved_chapter_title_eq (chapters : List EbookChapterRow) (spineIndex : Int) :
    resolvedChapterTitle chapters spineIndex =
      ((chapters.filter (·.spineIndex ≤ spineIndex)).getLast?).map (·.title) := by
  unfold resolvedChapterTitle chapterAtSpine
  rw [List.getLast?_map]
  have entries : chapters.filter (·.spineIndex ≤ spineIndex) =
      (chapters.zipIdx.filter fun entry => entry.1.spineIndex ≤ spineIndex).map (·.1) := by
    conv_lhs => rw [← List.zipIdx_map_fst 0 chapters]
    rw [List.filter_map]
    rfl
  rw [entries, List.getLast?_map]
  cases found : (chapters.zipIdx.filter fun entry => entry.1.spineIndex ≤ spineIndex).getLast? with
  | none => rfl
  | some entry =>
      have member := List.mem_of_mem_filter (List.mem_of_getLast? found)
      have indexed := List.mem_zipIdx_iff_getElem?.mp member
      simp [indexed]

theorem last_reached (ordinals : (rows.map (·.ordinal)).Nodup) {chapter : EbookChapterRow}
    (found : ((getChapters rows).filter (·.spineIndex ≤ spineIndex)).getLast? = some chapter) :
    chapter ∈ rows ∧ chapter.spineIndex ≤ spineIndex ∧
      ∀ other ∈ rows, other.spineIndex ≤ spineIndex → other.ordinal ≤ chapter.ordinal := by
  have member := List.mem_of_getLast? found
  rw [List.mem_filter, mem_get_chapters, decide_eq_true_eq] at member
  refine ⟨member.1, member.2, fun other otherMem reached => ?_⟩
  obtain ⟨front, split⟩ := List.getLast?_eq_some_iff.mp found
  have sorted := (get_chapters_sorted ordinals).sublist
    (List.filter_sublist (p := fun chapter => decide (chapter.spineIndex ≤ spineIndex)))
  have inReached : other ∈ (getChapters rows).filter (·.spineIndex ≤ spineIndex) :=
    List.mem_filter.mpr ⟨(mem_get_chapters other).mpr otherMem, decide_eq_true reached⟩
  rw [split] at sorted inReached
  rcases List.mem_append.mp inReached with before | isLast
  · exact le_of_lt ((List.pairwise_append.mp sorted).2.2 other before chapter
      List.mem_cons_self)
  · rw [List.mem_singleton.mp isLast]

end Selectors

/-- An anchor and a position in one document name the same chapter exactly when the opening
chapter of the furthest document is the last entry reached, or shares its title. -/
theorem same_chapter_iff (rows : List EbookChapterRow) (spine : List SpineStatRow)
    (spineIndex : Int) (ordinals : (rows.map (·.ordinal)).Nodup)
    (measured : ∃ row ∈ spine, row.spineIndex = spineIndex) :
    (locateSpine (Structure.load spine rows) spineIndex).chapterTitle =
      resolvedChapterTitle (getChapters rows) spineIndex ↔ OpensLast rows spineIndex := by
  have located : (locateSpine (Structure.load spine rows) spineIndex).chapterTitle =
      (maxByKey ((getChapters rows).filter (·.spineIndex ≤ spineIndex))).map (·.title) := by
    unfold locateSpine
    cases found : (Structure.load spine rows).spine.find? (·.spineIndex = spineIndex) with
    | some row => rfl
    | none =>
        obtain ⟨row, member, same⟩ := measured
        have absent := List.find?_eq_none.mp found row member
        exact absurd (decide_eq_true same) absent
  rw [located, resolved_chapter_title_eq]
  have spec := max_by_key_spec ((getChapters rows).filter (·.spineIndex ≤ spineIndex))
  cases opened : maxByKey ((getChapters rows).filter (·.spineIndex ≤ spineIndex)) with
  | none =>
      rw [opened] at spec
      dsimp only at spec
      rw [spec]
      apply iff_of_true rfl
      intro chapter opens
      have inReached : chapter ∈ (getChapters rows).filter (·.spineIndex ≤ spineIndex) :=
        List.mem_filter.mpr ⟨(mem_get_chapters chapter).mpr opens.member,
          decide_eq_true opens.reached⟩
      rw [spec] at inReached
      exact absurd inReached List.not_mem_nil
  | some chapter =>
      have opens := max_by_key_opens opened
      rw [opened] at spec
      obtain ⟨last, isLast⟩ := Option.ne_none_iff_exists'.mp
        (mt List.getLast?_eq_none_iff.mp (List.ne_nil_of_mem spec.1))
      obtain ⟨lastMem, lastReached, greatest⟩ := last_reached ordinals isLast
      rw [isLast, Option.map_some, Option.map_some, Option.some.injEq]
      constructor
      · intro same other otherOpens later laterMem laterReached after closes
        have isOpening : other = chapter := by
          apply List.inj_on_of_nodup_map ordinals otherOpens.member opens.member
          have document := le_antisymm
            (opens.furthest other otherOpens.member otherOpens.reached)
            (otherOpens.furthest chapter opens.member opens.reached)
          exact le_antisymm (otherOpens.first chapter opens.member document.symm)
            (opens.first other otherOpens.member document)
        have isLater : later = last := by
          apply List.inj_on_of_nodup_map ordinals laterMem lastMem
          exact le_antisymm (greatest later laterMem laterReached)
            (closes last lastMem lastReached)
        rw [isOpening, isLater]
        exact same.symm
      · intro opensLast
        rcases lt_or_eq_of_le (greatest chapter opens.member opens.reached) with after | same
        · exact (opensLast chapter opens last lastMem lastReached after greatest).symm
        · rw [List.inj_on_of_nodup_map ordinals opens.member lastMem same]

section Example

def chapterRow (ordinal : Int) (title : String) (spineIndex : Int) : EbookChapterRow :=
  ⟨ordinal, title, "", spineIndex, 0, none⟩

theorem same_chapter_in_order : (locateSpine (Structure.load [⟨1, "", 10, 0⟩]
      [chapterRow 0 "One" 0, chapterRow 1 "Two" 1]) 1).chapterTitle =
    resolvedChapterTitle (getChapters [chapterRow 0 "One" 0, chapterRow 1 "Two" 1]) 1 :=
  (same_chapter_iff _ [⟨1, "", 10, 0⟩] 1 (by decide) ⟨_, List.mem_cons_self, rfl⟩).mpr (by
    intro chapter opens later member _ after _
    have furthest := opens.furthest _ (List.mem_cons_of_mem _ List.mem_cons_self) le_rfl
    have first := opens.member
    simp only [List.mem_cons, List.not_mem_nil, or_false] at member first
    rcases first with rfl | rfl
    · exact absurd furthest (by decide)
    · rcases member with rfl | rfl
      · exact absurd after (by decide)
      · rfl)

/-- Of two chapters in one document, annotations name the first and positions the last. -/
theorem chapters_of_one_document :
    ¬∀ (rows : List EbookChapterRow) (spine : List SpineStatRow) (spineIndex : Int),
      (rows.map (·.ordinal)).Nodup → (∃ row ∈ spine, row.spineIndex = spineIndex) →
        (locateSpine (Structure.load spine rows) spineIndex).chapterTitle =
          resolvedChapterTitle (getChapters rows) spineIndex := by
  intro claimed
  have same := claimed [chapterRow 0 "One" 0, chapterRow 1 "Two" 0] [⟨0, "", 10, 0⟩] 0
    (by decide) ⟨_, List.mem_cons_self, rfl⟩
  revert same
  decide

end Example

end Omnibus.Placement
