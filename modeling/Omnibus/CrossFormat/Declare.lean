import Omnibus.CrossFormat.Anchors

/-!
# Declaring a sync point

`cross_format/declare.rs`: the fold of a declared pair into a link's stored pairs, and the
map the resume path then runs through.
-/

namespace Omnibus.CrossFormat

def syncPointReplaceSlack : ℚ := 5 / 1000

/-- A stored pair: a fraction of the text and global seconds of the audio. -/
abbrev Pair := ℚ × ℚ

/-- `store_anchor`: the pairs written back once the declared one is folded in. -/
def storeAnchor (userAnchors : List Pair) (textFrac audioGlobal : ℚ) : List Pair :=
  (userAnchors.filter (fun pair => syncPointReplaceSlack ≤ |pair.1 - textFrac|) ++
    [(textFrac, audioGlobal)]).insertionSort fun left right => left.1 ≤ right.1

/-- The reader's pairs as `anchor_context` reads them on a timeline. -/
def userAnchors (pairs : List Pair) (totalSeconds : ℚ) : List Anchor :=
  if totalSeconds > 0 then
    pairs.map fun pair => ⟨clamp pair.1, clamp (pair.2 / totalSeconds)⟩
  else []

def anchorContext (pairs : List Pair) (totalSeconds : ℚ) (chapterMap : Option AnchorMap) :
    Option AnchorMap :=
  mergeUserAnchors (userAnchors pairs totalSeconds) chapterMap

/-- The audio fraction `audio_candidate` maps a text fraction to. -/
def mappedFraction (map : Option AnchorMap) (frac : ℚ) : ℚ :=
  match map with
  | some map => interpolate map.anchors frac true
  | none => frac

theorem mem_store_anchor (pairs : List Pair) (textFrac audioGlobal : ℚ) (pair : Pair) :
    pair ∈ storeAnchor pairs textFrac audioGlobal ↔
      (pair ∈ pairs ∧ syncPointReplaceSlack ≤ |pair.1 - textFrac|) ∨
        pair = (textFrac, audioGlobal) := by
  rw [storeAnchor, (List.perm_insertionSort _ _).mem_iff]
  simp

section Newest

variable {stored : List Pair} {chapter : Option AnchorMap} {total textFrac seconds : ℚ}

/-- The anchors before the declared text fraction that the increasing filter keeps. -/
def keptBefore (stored : List Pair) (total textFrac seconds : ℚ) : List Anchor :=
  monotonic ((byText (userAnchors (storeAnchor stored textFrac seconds) total)).filter
    fun anchor => anchor.textFrac < textFrac)

theorem by_text_sorted (anchors : List Anchor) :
    (byText anchors).Pairwise fun left right => left.textFrac ≤ right.textFrac :=
  List.pairwise_insertionSort _ _

theorem sorted_split (anchors : List Anchor) (frac : ℚ)
    (sorted : anchors.Pairwise fun left right => left.textFrac ≤ right.textFrac) :
    anchors = anchors.filter (fun anchor => anchor.textFrac < frac) ++
      anchors.filter fun anchor => frac ≤ anchor.textFrac := by
  induction anchors with
  | nil => rfl
  | cons anchor rest induction =>
      rw [List.pairwise_cons] at sorted
      by_cases below : anchor.textFrac < frac
      · simp only [List.filter_cons, below, decide_true, if_true, not_le.mpr below, decide_false,
          Bool.false_eq_true, if_false, List.cons_append]
        congr 1
        exact induction sorted.2
      · have none : rest.filter (fun anchor => decide (anchor.textFrac < frac)) = [] := by
          rw [List.filter_eq_nil_iff]
          intro later member
          have order := sorted.1 later member
          simpa using le_trans (not_lt.mp below) order
        have all : rest.filter (fun anchor => decide (frac ≤ anchor.textFrac)) = rest := by
          rw [List.filter_eq_self]
          intro later member
          have order := sorted.1 later member
          simpa using le_trans (not_lt.mp below) order
        simp [below, not_lt.mp below, none, all]

/-- The declared pair is among the reader's anchors, and every other one is off its text
fraction. -/
theorem declared_anchor (stored : List Pair) (positive : 0 < total) (lower : 0 < textFrac)
    (upper : textFrac < 1)
    (secondsLower : 0 < seconds) (secondsUpper : seconds < total) :
    ⟨textFrac, seconds / total⟩ ∈ userAnchors (storeAnchor stored textFrac seconds) total ∧
      ∀ anchor ∈ userAnchors (storeAnchor stored textFrac seconds) total,
        anchor.textFrac = textFrac → anchor = ⟨textFrac, seconds / total⟩ := by
  have fracLower : 0 < seconds / total := div_pos secondsLower positive
  have fracUpper : seconds / total < 1 := (div_lt_one positive).mpr secondsUpper
  have own : (⟨clamp textFrac, clamp (seconds / total)⟩ : Anchor) =
      ⟨textFrac, seconds / total⟩ := by
    rw [clamp_of_mem lower.le upper.le, clamp_of_mem fracLower.le fracUpper.le]
  unfold userAnchors
  rw [if_pos positive]
  constructor
  · rw [List.mem_map]
    exact ⟨(textFrac, seconds), (mem_store_anchor _ _ _ _).mpr (.inr rfl), own⟩
  · intro anchor member sameText
    obtain ⟨pair, pairMem, rfl⟩ := List.mem_map.mp member
    rcases (mem_store_anchor _ _ _ _).mp pairMem with ⟨_, far⟩ | isOwn
    · have samePair := clamp_eq_inner lower upper sameText
      rw [samePair, sub_self, abs_zero] at far
      norm_num [syncPointReplaceSlack] at far
    · rw [isOwn]
      exact own

/-- Unless an earlier pair reaches past it, the declared pair survives the increasing
filter. -/
theorem declared_kept (positive : 0 < total) (lower : 0 < textFrac) (upper : textFrac < 1)
    (secondsLower : 0 < seconds) (secondsUpper : seconds < total)
    (uncrossed : ∀ anchor ∈ keptBefore stored total textFrac seconds,
      anchor.audioFrac < seconds / total) :
    ⟨textFrac, seconds / total⟩ ∈
      monotonic (byText (userAnchors (storeAnchor stored textFrac seconds) total)) := by
  obtain ⟨own, others⟩ := declared_anchor stored positive lower upper secondsLower
    secondsUpper
  set anchors := userAnchors (storeAnchor stored textFrac seconds) total with isAnchors
  have members (anchor : Anchor) : anchor ∈ byText anchors ↔ anchor ∈ anchors :=
    (List.perm_insertionSort _ _).mem_iff
  set above := (byText anchors).filter fun anchor => textFrac ≤ anchor.textFrac with isAbove
  have aboveSorted : above.Pairwise fun left right => left.textFrac ≤ right.textFrac :=
    (by_text_sorted anchors).sublist List.filter_sublist
  have ownAbove : (⟨textFrac, seconds / total⟩ : Anchor) ∈ above := by
    rw [isAbove, List.mem_filter]
    exact ⟨(members _).mpr own, by simp⟩
  -- the first anchor not before the declared text fraction is the declared pair
  obtain ⟨first, rest, shape⟩ := List.exists_cons_of_ne_nil (List.ne_nil_of_mem ownAbove)
  have isOwn : first = ⟨textFrac, seconds / total⟩ := by
    have firstMem : first ∈ above := by simp [shape]
    have inAnchors : first ∈ anchors := (members _).mp (List.mem_of_mem_filter firstMem)
    have notBelow : textFrac ≤ first.textFrac := by
      simpa using (List.mem_filter.mp firstMem).2
    rw [shape, List.pairwise_cons] at aboveSorted
    rw [shape] at ownAbove
    refine others first inAnchors (le_antisymm ?_ notBelow)
    rcases List.mem_cons.mp ownAbove with same | later
    · rw [← same]
    · exact aboveSorted.1 _ later
  have kept : ∀ last ∈ (keptBefore stored total textFrac seconds).getLast?,
      last.textFrac < textFrac ∧ last.audioFrac < seconds / total := by
    intro last isLast
    have lastMem := List.mem_of_getLast? isLast
    refine ⟨?_, uncrossed last lastMem⟩
    have filtered := (monotonic_after_sublist none _).subset lastMem
    simpa using (List.mem_filter.mp filtered).2
  unfold monotonic
  rw [sorted_split (byText anchors) textFrac (by_text_sorted anchors), monotonic_after_append,
    ← isAbove, shape, isOwn, Option.or_none, List.mem_append]
  right
  have free : ¬(((keptBefore stored total textFrac seconds).getLast?).any fun last =>
      decide (textFrac ≤ last.textFrac) ||
        decide (seconds / total ≤ last.audioFrac)) = true := by
    cases shape' : (keptBefore stored total textFrac seconds).getLast? with
    | none => simp
    | some last =>
        obtain ⟨text, audio⟩ := kept last shape'
        simp [text, audio]
  change _ ∈ monotonicAfter (keptBefore stored total textFrac seconds).getLast? _
  rw [monotonicAfter, if_neg free]
  exact List.mem_cons_self

theorem user_anchor_room (fromStart : epsilon ≤ textFrac) (upper : textFrac < 1) {anchor : Anchor}
    (member : anchor ∈ userAnchors (storeAnchor stored textFrac seconds) total)
    (before : anchor.textFrac < textFrac) : epsilon ≤ textFrac - anchor.textFrac := by
  unfold userAnchors at member
  split at member
  · obtain ⟨pair, pairMem, rfl⟩ := List.mem_map.mp member
    have lower : 0 < textFrac := lt_of_lt_of_le (by norm_num [epsilon]) fromStart
    have tiny : epsilon ≤ syncPointReplaceSlack := by norm_num [epsilon, syncPointReplaceSlack]
    simp only at before ⊢
    by_cases negative : pair.1 < 0
    · have isZero : clamp pair.1 = 0 := max_eq_left ((min_le_right _ _).trans negative.le)
      rw [isZero, sub_zero]
      exact fromStart
    · have notOver : pair.1 ≤ 1 := by
        by_contra beyond
        have isOne : clamp pair.1 = 1 := by
          rw [clamp, min_eq_left (not_le.mp beyond).le, max_eq_right zero_le_one]
        rw [isOne] at before
        linarith
      rw [clamp_of_mem (not_lt.mp negative) notOver] at before ⊢
      rcases (mem_store_anchor _ _ _ _).mp pairMem with ⟨_, far⟩ | isOwn
      · rw [abs_of_neg (by linarith)] at far
        linarith
      · rw [isOwn] at before
        exact absurd before (lt_irrefl _)
  · cases member

/-- The map through the merged anchors honours the newest pair, unless an earlier one kept
by the increasing filter reaches past it. -/
theorem newest_sync_point_honoured (stored : List Pair) (chapter : Option AnchorMap)
    (total textFrac seconds : ℚ) (positive : 0 < total) (upper : textFrac < 1)
    (secondsLower : 0 < seconds) (secondsUpper : seconds < total)
    (uncrossed : ∀ anchor ∈ keptBefore stored total textFrac seconds,
      anchor.audioFrac < seconds / total)
    (fromStart : epsilon ≤ textFrac)
    (room : ∀ map ∈ chapter, ∀ anchor ∈ map.anchors, anchor.textFrac < textFrac →
      epsilon ≤ textFrac - anchor.textFrac) :
    mappedFraction (anchorContext (storeAnchor stored textFrac seconds) total chapter) textFrac =
      seconds / total := by
  have lower : 0 < textFrac := lt_of_lt_of_le (by norm_num [epsilon]) fromStart
  have fracLower : 0 < seconds / total := div_pos secondsLower positive
  have fracUpper : seconds / total < 1 := (div_lt_one positive).mpr secondsUpper
  have own := (declared_anchor stored positive lower upper secondsLower
    secondsUpper).1
  have kept := declared_kept positive lower upper secondsLower secondsUpper uncrossed
  set user := userAnchors (storeAnchor stored textFrac seconds) total with isUser
  have userRoom : ∀ anchor ∈ monotonic (byText user), anchor.textFrac < textFrac →
      epsilon ≤ textFrac - anchor.textFrac := by
    intro anchor member before
    have inUser := (List.perm_insertionSort _ _).mem_iff.mp
      ((monotonic_after_sublist none _).subset member)
    exact user_anchor_room fromStart upper inUser before
  have nonempty : user.isEmpty = false := by
    rw [List.isEmpty_eq_false_iff]
    exact List.ne_nil_of_mem own
  have increasing := monotonic_increasing (byText user)
  unfold anchorContext mergeUserAnchors
  rw [← isUser]
  simp only [nonempty, Bool.false_eq_true, if_false]
  split
  · exact interpolate_at _ increasing textFrac _ upper.le fracLower.le fracUpper.le kept
      fromStart userRoom
  · obtain ⟨stays, within, members⟩ :=
      insert_all ((chapter.map (·.anchors)).getD []) (monotonic (byText user)) increasing
    refine interpolate_at _ stays textFrac _ upper.le fracLower.le fracUpper.le
      (within.subset kept) fromStart fun anchor member before => ?_
    rcases members anchor member with isUserAnchor | isChapter
    · exact userRoom anchor isUserAnchor before
    · cases chapter with
      | none => cases isChapter
      | some map => exact room map rfl anchor isChapter before

/-- A pair declared between two chapter marks, after an earlier one it agrees with. -/
theorem newest_sync_point_honoured_between_chapters :
    mappedFraction (anchorContext (storeAnchor [(1 / 5, 20)] (1 / 2) 60) 100
      (some ⟨[⟨1 / 10, 1 / 10⟩, ⟨9 / 10, 9 / 10⟩], 2, 3⟩)) (1 / 2) = 60 / 100 := by
  refine newest_sync_point_honoured _ _ _ _ _ (by norm_num) (by norm_num) (by norm_num)
    (by norm_num) (by decide +kernel) (by norm_num [epsilon]) ?_
  rintro map ⟨⟩ anchor member before
  simp only [List.mem_cons, List.not_mem_nil, or_false] at member
  rcases member with rfl | rfl
  · norm_num [epsilon]
  · norm_num at before

/-- An earlier pair further into the audio decides instead of the newest one. -/
theorem older_pair_outranks_newest :
    ¬∀ (stored : List Pair) (chapter : Option AnchorMap) (total textFrac seconds : ℚ),
      0 < total → 0 < textFrac → textFrac < 1 → 0 < seconds → seconds < total →
      (∀ map ∈ chapter, Increasing map.anchors) →
      mappedFraction (anchorContext (storeAnchor stored textFrac seconds) total chapter)
        textFrac = seconds / total := by
  intro claimed
  have mapped := claimed [(1 / 5, 90)] none 100 (1 / 2) 50 (by norm_num) (by norm_num)
    (by norm_num) (by norm_num) (by norm_num) nofun
  revert mapped
  decide +kernel

end Newest

end Omnibus.CrossFormat
