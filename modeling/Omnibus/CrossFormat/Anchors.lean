import Mathlib.Algebra.Order.Field.Rat
import Mathlib.Data.List.Sort
import Mathlib.Data.Rat.Defs
import Mathlib.Tactic.FieldSimp
import Mathlib.Tactic.Linarith
import Mathlib.Tactic.NormNum
import Mathlib.Tactic.Positivity

/-!
# Anchors between the text and the audio

`cross_format/anchors.rs` over exact rationals: the increasing filter, the piecewise-linear
map through the anchors, and the fold of a reader's own pairs into the chapter map.
-/

namespace Omnibus.CrossFormat

structure Anchor where
  textFrac : ℚ
  audioFrac : ℚ
  deriving DecidableEq, Repr

structure AnchorMap where
  anchors : List Anchor
  matched : Nat
  ebookChapters : Nat
  deriving DecidableEq, Repr

/-- `f64::EPSILON`, below which a segment has no slope. -/
def epsilon : ℚ := 1 / 2 ^ 52

def clamp (frac : ℚ) : ℚ := max 0 (min 1 frac)

/-- `monotonic`, after the last anchor kept. -/
def monotonicAfter : Option Anchor → List Anchor → List Anchor
  | _, [] => []
  | last, anchor :: rest =>
      if last.any fun kept =>
          anchor.textFrac ≤ kept.textFrac || anchor.audioFrac ≤ kept.audioFrac then
        monotonicAfter last rest
      else anchor :: monotonicAfter (some anchor) rest

def monotonic (anchors : List Anchor) : List Anchor := monotonicAfter none anchors

/-- An anchor as `(from, to)` in the direction of the map. -/
def Anchor.ends (textToAudio : Bool) (anchor : Anchor) : ℚ × ℚ :=
  if textToAudio then (anchor.textFrac, anchor.audioFrac)
  else (anchor.audioFrac, anchor.textFrac)

/-- Past the last of two or more anchors, the slope between the last two goes on. -/
def extended (anchors : List Anchor) (frac : ℚ) (textToAudio : Bool) : Option ℚ :=
  match anchors.reverse with
  | last :: prev :: _ =>
      let (fromLast, toLast) := last.ends textToAudio
      let (fromPrev, toPrev) := prev.ends textToAudio
      if frac > fromLast && fromLast - fromPrev > epsilon then
        some (clamp (toLast + (toLast - toPrev) / (fromLast - fromPrev) * (frac - fromLast)))
      else none
  | _ => none

/-- The first segment that reaches `frac`, from the anchor before the rest. -/
def segment (frac : ℚ) (textToAudio : Bool) (prev : Anchor) : List Anchor → ℚ
  | [] => frac
  | anchor :: rest =>
      let (fromHere, toHere) := anchor.ends textToAudio
      let (fromPrev, toPrev) := prev.ends textToAudio
      if frac ≤ fromHere then
        if |fromHere - fromPrev| < epsilon then toPrev
        else clamp (toPrev + (frac - fromPrev) / (fromHere - fromPrev) * (toHere - toPrev))
      else segment frac textToAudio anchor rest

def interpolate (anchors : List Anchor) (frac : ℚ) (textToAudio : Bool) : ℚ :=
  let frac := clamp frac
  (extended anchors frac textToAudio).getD
    (segment frac textToAudio ⟨0, 0⟩ (anchors ++ [⟨1, 1⟩]))

/-- Median distance between consecutive anchors on the audio axis. -/
def typicalAnchorGap (chapter : List Anchor) : Option ℚ :=
  let gaps := ((chapter.zip chapter.tail).map fun pair =>
    pair.2.audioFrac - pair.1.audioFrac).insertionSort (· ≤ ·)
  gaps[gaps.length / 2]?

/-- Whether the chapter map is more than about one chapter off a reader's own pair. -/
def contradicts (user chapter : List Anchor) : Bool :=
  match typicalAnchorGap chapter with
  | none => false
  | some tolerance =>
      user.any fun pair =>
        |interpolate chapter pair.textFrac true - pair.audioFrac| > tolerance

/-- Insert a chapter anchor strictly between its neighbours on both axes, or not at all. -/
def insertBetween (out : List Anchor) (chapter : Anchor) : List Anchor :=
  let below := out.takeWhile fun anchor => anchor.textFrac < chapter.textFrac
  let above := out.dropWhile fun anchor => anchor.textFrac < chapter.textFrac
  if below.getLast?.all (fun anchor =>
        anchor.textFrac < chapter.textFrac && anchor.audioFrac < chapter.audioFrac) &&
      above.head?.all (fun anchor =>
        chapter.textFrac < anchor.textFrac && chapter.audioFrac < anchor.audioFrac) then
    below ++ chapter :: above
  else out

def byText (anchors : List Anchor) : List Anchor :=
  anchors.insertionSort fun left right => left.textFrac ≤ right.textFrac

/-- Fold the reader's own pairs into the chapter map. -/
def mergeUserAnchors (user : List Anchor) (chapter : Option AnchorMap) : Option AnchorMap :=
  if user.isEmpty then chapter
  else
    let merged := monotonic (byText user)
    let chapterAnchors := (chapter.map (·.anchors)).getD []
    let ebookChapters := (chapter.map (·.ebookChapters)).getD 0
    if contradicts merged chapterAnchors then some ⟨merged, 0, ebookChapters⟩
    else
      some ⟨chapterAnchors.foldl insertBetween merged, (chapter.map (·.matched)).getD 0,
        ebookChapters⟩

def Increasing (anchors : List Anchor) : Prop :=
  anchors.Pairwise fun left right =>
    left.textFrac < right.textFrac ∧ left.audioFrac < right.audioFrac

theorem clamp_of_mem {frac : ℚ} (lower : 0 ≤ frac) (upper : frac ≤ 1) : clamp frac = frac := by
  rw [clamp, min_eq_right upper, max_eq_right lower]

theorem clamp_eq_inner {frac inner : ℚ} (lower : 0 < inner) (upper : inner < 1)
    (same : clamp frac = inner) : frac = inner := by
  unfold clamp at same
  rcases max_choice 0 (min 1 frac) with isZero | isMin
  · rw [isZero] at same
    linarith
  · rw [isMin] at same
    rcases min_choice 1 frac with isOne | isFrac
    · rw [isOne] at same
      linarith
    · rw [isFrac] at same
      exact same

section Monotonic

theorem monotonic_after_sublist (last : Option Anchor) (anchors : List Anchor) :
    (monotonicAfter last anchors).Sublist anchors := by
  induction anchors generalizing last with
  | nil => exact List.Sublist.refl _
  | cons anchor rest induction =>
      unfold monotonicAfter
      split
      · exact (induction last).cons anchor
      · exact (induction (some anchor)).cons_cons anchor

theorem monotonic_after_increasing (last : Option Anchor) (anchors : List Anchor) :
    Increasing (monotonicAfter last anchors) ∧
      ∀ kept ∈ last, ∀ anchor ∈ monotonicAfter last anchors,
        kept.textFrac < anchor.textFrac ∧ kept.audioFrac < anchor.audioFrac := by
  induction anchors generalizing last with
  | nil => exact ⟨List.Pairwise.nil, nofun⟩
  | cons anchor rest induction =>
      unfold monotonicAfter
      split
      · exact induction last
      · rename_i free
        obtain ⟨increasing, above⟩ := induction (some anchor)
        have past : ∀ kept ∈ last,
            kept.textFrac < anchor.textFrac ∧ kept.audioFrac < anchor.audioFrac := by
          intro kept equal
          subst equal
          simpa [not_or] using free
        refine ⟨List.Pairwise.cons (fun later member => above anchor rfl later member) increasing,
          fun kept isLast later member => ?_⟩
        rcases List.mem_cons.mp member with rfl | member
        · exact past kept isLast
        · have next := above anchor rfl later member
          have first := past kept isLast
          exact ⟨first.1.trans next.1, first.2.trans next.2⟩

theorem monotonic_increasing (anchors : List Anchor) : Increasing (monotonic anchors) :=
  (monotonic_after_increasing none anchors).1

theorem monotonic_after_append (last : Option Anchor) (anchors rest : List Anchor) :
    monotonicAfter last (anchors ++ rest) = monotonicAfter last anchors ++
      monotonicAfter ((monotonicAfter last anchors).getLast?.or last) rest := by
  induction anchors generalizing last with
  | nil => rfl
  | cons anchor tail induction =>
      rw [List.cons_append, monotonicAfter, monotonicAfter]
      split
      · exact induction last
      · rw [induction (some anchor), List.cons_append]
        congr 2
        cases shape : (monotonicAfter (some anchor) tail).getLast? with
        | none => simp [List.getLast?_eq_none_iff.mp shape]
        | some final => simp [List.getLast?_cons, shape]

end Monotonic

section Insertion

theorem insert_between_sublist (out : List Anchor) (chapter : Anchor) :
    out.Sublist (insertBetween out chapter) := by
  unfold insertBetween
  simp only
  split
  · nth_rewrite 1 [← List.takeWhile_append_dropWhile
      (p := fun anchor : Anchor => decide (anchor.textFrac < chapter.textFrac)) (l := out)]
    exact (List.Sublist.refl _).append (List.sublist_cons_self _ _)
  · exact List.Sublist.refl _

theorem insert_between_mem (out : List Anchor) (chapter anchor : Anchor)
    (member : anchor ∈ insertBetween out chapter) : anchor ∈ out ∨ anchor = chapter := by
  unfold insertBetween at member
  simp only at member
  split at member
  · rw [List.mem_append, List.mem_cons] at member
    rcases member with below | rfl | above
    · exact .inl ((List.takeWhile_sublist _).subset below)
    · exact .inr rfl
    · exact .inl ((List.dropWhile_sublist _).subset above)
  · exact .inl member

theorem insert_between_increasing (out : List Anchor) (chapter : Anchor)
    (increasing : Increasing out) : Increasing (insertBetween out chapter) := by
  unfold insertBetween
  simp only
  split
  · rename_i fits
    rw [Bool.and_eq_true] at fits
    set below := out.takeWhile fun anchor => decide (anchor.textFrac < chapter.textFrac)
      with isBelow
    set above := out.dropWhile fun anchor => decide (anchor.textFrac < chapter.textFrac)
      with isAbove
    have whole : below ++ above = out := List.takeWhile_append_dropWhile
    unfold Increasing at increasing ⊢
    rw [← whole, List.pairwise_append] at increasing
    obtain ⟨belowIncreasing, aboveIncreasing, apart⟩ := increasing
    have under : ∀ anchor ∈ below,
        anchor.textFrac < chapter.textFrac ∧ anchor.audioFrac < chapter.audioFrac := by
      intro anchor member
      obtain ⟨front, last, shape⟩ := List.eq_nil_or_concat below |>.resolve_left
        (List.ne_nil_of_mem member)
      have lastFits : last.textFrac < chapter.textFrac ∧ last.audioFrac < chapter.audioFrac := by
        simpa [shape] using fits.1
      rw [shape, List.concat_eq_append] at member belowIncreasing
      rcases List.mem_append.mp member with inFront | isLast
      · have before := (List.pairwise_append.mp belowIncreasing).2.2 anchor inFront last
          (by simp)
        exact ⟨before.1.trans lastFits.1, before.2.trans lastFits.2⟩
      · rw [List.mem_singleton] at isLast
        exact isLast ▸ lastFits
    have beyond : ∀ anchor ∈ above,
        chapter.textFrac < anchor.textFrac ∧ chapter.audioFrac < anchor.audioFrac := by
      intro anchor member
      obtain ⟨first, rest, shape⟩ := List.exists_cons_of_ne_nil (List.ne_nil_of_mem member)
      have firstFits : chapter.textFrac < first.textFrac ∧
          chapter.audioFrac < first.audioFrac := by
        simpa [shape] using fits.2
      rw [shape] at member aboveIncreasing
      rcases List.mem_cons.mp member with rfl | inRest
      · exact firstFits
      · have after := (List.pairwise_cons.mp aboveIncreasing).1 anchor inRest
        exact ⟨firstFits.1.trans after.1, firstFits.2.trans after.2⟩
    rw [List.pairwise_append]
    refine ⟨belowIncreasing, List.Pairwise.cons beyond aboveIncreasing, fun left leftMem right
      rightMem => ?_⟩
    rcases List.mem_cons.mp rightMem with rfl | rightMem
    · exact under left leftMem
    · exact apart left leftMem right rightMem
  · exact increasing

/-- What the chapter anchors are folded into stays increasing and keeps its anchors. -/
theorem insert_all (chapter : List Anchor) (out : List Anchor) (increasing : Increasing out) :
    Increasing (chapter.foldl insertBetween out) ∧
      out.Sublist (chapter.foldl insertBetween out) ∧
      ∀ anchor ∈ chapter.foldl insertBetween out, anchor ∈ out ∨ anchor ∈ chapter := by
  induction chapter generalizing out with
  | nil => exact ⟨increasing, List.Sublist.refl _, fun anchor member => .inl member⟩
  | cons first rest induction =>
      obtain ⟨stays, within, members⟩ :=
        induction (insertBetween out first) (insert_between_increasing out first increasing)
      refine ⟨stays, (insert_between_sublist out first).trans within, fun anchor member => ?_⟩
      rcases members anchor member with inserted | inRest
      · rcases insert_between_mem out first anchor inserted with inOut | rfl
        · exact .inl inOut
        · exact .inr List.mem_cons_self
      · exact .inr (List.mem_cons_of_mem _ inRest)

/-- A merged map is increasing, keeps the reader's pairs in order and adds chapter anchors only;
a map the pairs contradict adds none and has matched nothing. -/
theorem merge_keeps_pairs (user : List Anchor) (chapter : Option AnchorMap)
    (increasing : ∀ map ∈ chapter, Increasing map.anchors) :
    (mergeUserAnchors user chapter = none ↔ user = [] ∧ chapter = none) ∧
      ∀ merged ∈ mergeUserAnchors user chapter,
        Increasing merged.anchors ∧
          (monotonic (byText user)).Sublist merged.anchors ∧
          (∀ anchor ∈ merged.anchors, anchor ∈ monotonic (byText user) ∨
            ∃ map ∈ chapter, anchor ∈ map.anchors) ∧
          ∀ map ∈ chapter, contradicts (monotonic (byText user)) map.anchors →
            merged.anchors = monotonic (byText user) ∧ merged.matched = 0 := by
  have own := monotonic_increasing (byText user)
  unfold mergeUserAnchors
  by_cases undeclared : user = []
  · have unpaired : monotonic (byText user) = [] := by
      rw [undeclared]
      rfl
    rw [if_pos (by simp [undeclared]), unpaired]
    constructor
    · simp [undeclared]
    · intro merged isChapter
      have contradicted : ∀ anchors, contradicts [] anchors = false := by
        intro anchors
        unfold contradicts
        split <;> simp
      exact ⟨increasing merged isChapter, List.nil_sublist _,
        fun anchor member => .inr ⟨merged, isChapter, member⟩,
        fun map isMap against => by simp [contradicted] at against⟩
  · rw [if_neg (by simpa using undeclared)]
    by_cases against : contradicts (monotonic (byText user))
        ((chapter.map (·.anchors)).getD []) = true
    · rw [if_pos against]
      constructor
      · simp [undeclared]
      · intro merged isMerged
        rw [Option.mem_some_iff] at isMerged
        subst isMerged
        exact ⟨own, List.Sublist.refl _, fun anchor member => .inl member,
          fun map isMap other => ⟨rfl, rfl⟩⟩
    · rw [if_neg against]
      constructor
      · simp [undeclared]
      · intro merged isMerged
        rw [Option.mem_some_iff] at isMerged
        subst isMerged
        obtain ⟨stays, within, members⟩ :=
          insert_all ((chapter.map (·.anchors)).getD []) (monotonic (byText user)) own
        refine ⟨stays, within, fun anchor member => ?_, fun map isMap other => ?_⟩
        · rcases members anchor member with isUsers | isChapters
          · exact .inl isUsers
          · cases chapter with
            | none => cases isChapters
            | some map => exact .inr ⟨map, rfl, isChapters⟩
        · rw [Option.mem_def] at isMap
          rw [isMap] at against
          exact absurd other against

/-- Two pairs about a chapter map that agrees with both. -/
theorem merge_keeps_pairs_about_chapters :
    ∃ merged, mergeUserAnchors [⟨4 / 5, 4 / 5⟩, ⟨1 / 5, 1 / 5⟩]
        (some ⟨[⟨1 / 10, 1 / 10⟩, ⟨1 / 2, 1 / 2⟩, ⟨9 / 10, 9 / 10⟩], 3, 4⟩) = some merged ∧
      Increasing merged.anchors := by
  have kept := merge_keeps_pairs [⟨4 / 5, 4 / 5⟩, ⟨1 / 5, 1 / 5⟩]
    (some ⟨[⟨1 / 10, 1 / 10⟩, ⟨1 / 2, 1 / 2⟩, ⟨9 / 10, 9 / 10⟩], 3, 4⟩) (by
      intro map isMap
      cases isMap
      simp only [Increasing]
      decide +kernel)
  obtain ⟨merged, isMerged⟩ := Option.ne_none_iff_exists'.mp fun isNone =>
    List.cons_ne_nil _ _ (kept.1.mp isNone).1
  exact ⟨merged, isMerged, (kept.2 merged isMerged).1⟩

/-- A chapter anchor the reader declared too stays in a map that is dropped for another pair. -/
theorem declared_chapter_anchor_stays :
    ∃ (user : List Anchor) (map : AnchorMap) (anchor : Anchor),
      Increasing map.anchors ∧ contradicts (monotonic (byText user)) map.anchors = true ∧
        anchor ∈ map.anchors ∧ ∃ merged ∈ mergeUserAnchors user (some map),
          anchor ∈ merged.anchors := by
  refine ⟨[⟨1 / 10, 1 / 10⟩, ⟨1 / 2, 19 / 20⟩],
    ⟨[⟨1 / 10, 1 / 10⟩, ⟨1 / 2, 1 / 2⟩, ⟨9 / 10, 9 / 10⟩], 3, 4⟩, ⟨1 / 10, 1 / 10⟩, ?_⟩
  simp only [Increasing]
  decide +kernel

end Insertion

section Value

theorem segment_at (frac value : ℚ) (prev : Anchor) (anchors rest : List Anchor)
    (nonneg : 0 ≤ value) (atMost : value ≤ 1)
    (before : ∀ anchor ∈ anchors, anchor.textFrac < frac)
    (room : ∀ anchor ∈ prev :: anchors, epsilon ≤ frac - anchor.textFrac) :
    segment frac true prev (anchors ++ ⟨frac, value⟩ :: rest) = value := by
  induction anchors generalizing prev with
  | nil =>
      have far := room prev (by simp)
      have positive : (0 : ℚ) < epsilon := by norm_num [epsilon]
      have apart : frac - prev.textFrac ≠ 0 := by linarith
      have wide : ¬|frac - prev.textFrac| < epsilon := by
        rw [abs_of_nonneg (by linarith)]
        linarith
      simp only [List.nil_append, segment, Anchor.ends, if_true, le_refl, if_neg wide]
      rw [div_self apart, one_mul, add_sub_cancel]
      exact clamp_of_mem nonneg atMost
  | cons anchor tail induction =>
      have short : ¬frac ≤ anchor.textFrac := by
        have := before anchor (by simp)
        linarith
      simp only [List.cons_append, segment, Anchor.ends, if_true, if_neg short]
      apply induction anchor (fun other member => before other (by simp [member]))
      intro other member
      exact room other (List.mem_cons_of_mem _ member)

theorem interpolate_at (anchors : List Anchor) (increasing : Increasing anchors)
    (frac value : ℚ) (upper : frac ≤ 1) (nonneg : 0 ≤ value)
    (atMost : value ≤ 1) (member : ⟨frac, value⟩ ∈ anchors) (fromStart : epsilon ≤ frac)
    (room : ∀ anchor ∈ anchors, anchor.textFrac < frac → epsilon ≤ frac - anchor.textFrac) :
    interpolate anchors frac true = value := by
  obtain ⟨before, after, split⟩ := List.append_of_mem member
  have below : ∀ anchor ∈ before, anchor.textFrac < frac := by
    intro anchor isBefore
    rw [split] at increasing
    exact ((List.pairwise_append.mp increasing).2.2 anchor isBefore ⟨frac, value⟩ (by simp)).1
  have unextended : extended anchors frac true = none := by
    unfold extended
    split
    · rename_i last prev front reversed
      have isLast : last ∈ anchors := by
        rw [← List.mem_reverse, reversed]
        exact List.mem_cons_self
      have reach : frac ≤ last.textFrac := by
        have order := List.pairwise_reverse.mpr increasing
        rw [reversed, List.pairwise_cons] at order
        have inReverse : (⟨frac, value⟩ : Anchor) ∈ last :: prev :: front := by
          rw [← reversed, List.mem_reverse]
          exact member
        rcases List.mem_cons.mp inReverse with isSame | earlier
        · rw [← isSame]
        · exact (order.1 _ earlier).1.le
      simp [Anchor.ends, not_lt.mpr reach]
    · rfl
  have lower : 0 ≤ frac := le_trans (by norm_num [epsilon]) fromStart
  unfold interpolate
  simp only
  rw [clamp_of_mem lower upper, unextended, Option.getD_none, split, List.append_assoc,
    List.cons_append]
  apply segment_at frac value ⟨0, 0⟩ before _ nonneg atMost below
  intro anchor isPrev
  rcases List.mem_cons.mp isPrev with rfl | isBefore
  · simpa using fromStart
  · exact room anchor (by rw [split]; simp [isBefore]) (below anchor isBefore)

end Value

end Omnibus.CrossFormat
