import Mathlib.Tactic.Ring
import Omnibus.CrossFormat.Anchors

/-!
# The piecewise-linear map

`interpolate` over anchors as the increasing filter lets them through: what it gives at the
anchors, its order, and that one direction undoes the other. The direction from the audio is
the direction to it with the axes exchanged, so each fact is proved in one direction.
-/

namespace Omnibus.CrossFormat

/-- The right anchor lies past the left by more than `epsilon` on both axes. -/
def Apart (left right : Anchor) : Prop :=
  epsilon < right.textFrac - left.textFrac ∧ epsilon < right.audioFrac - left.audioFrac

instance : DecidableRel Apart := fun left right => by
  unfold Apart
  infer_instance

def InUnit (anchor : Anchor) : Prop :=
  0 ≤ anchor.textFrac ∧ anchor.textFrac ≤ 1 ∧ 0 ≤ anchor.audioFrac ∧ anchor.audioFrac ≤ 1

instance : DecidablePred InUnit := fun anchor => by
  unfold InUnit
  infer_instance

/-- Anchors of clamped marks, each gap to the next one larger than `epsilon`. -/
structure Spaced (anchors : List Anchor) : Prop where
  inUnit : ∀ anchor ∈ anchors, InUnit anchor
  apart : anchors.IsChain Apart

/-- The first anchor is the implicit start itself, or `epsilon` or more from it on both axes. -/
def StartsClear (anchors : List Anchor) : Prop :=
  ∀ first ∈ anchors.head?, first = ⟨0, 0⟩ ∨ epsilon ≤ first.textFrac ∧ epsilon ≤ first.audioFrac

def Anchor.swap (anchor : Anchor) : Anchor := ⟨anchor.audioFrac, anchor.textFrac⟩

@[simp] theorem swap_text_frac (anchor : Anchor) : anchor.swap.textFrac = anchor.audioFrac := rfl

@[simp] theorem swap_audio_frac (anchor : Anchor) : anchor.swap.audioFrac = anchor.textFrac := rfl

theorem epsilon_pos : 0 < epsilon := by
  norm_num [epsilon]

theorem epsilon_lt_one : epsilon < 1 := by
  norm_num [epsilon]

theorem clamp_mono {left right : ℚ} (le : left ≤ right) : clamp left ≤ clamp right := by
  unfold clamp
  exact max_le_max le_rfl (min_le_min le_rfl le)

theorem clamp_mem (frac : ℚ) : 0 ≤ clamp frac ∧ clamp frac ≤ 1 := by
  unfold clamp
  exact ⟨le_max_left _ _, max_le zero_le_one (min_le_left _ _)⟩

theorem interpolate_of_mem (anchors : List Anchor) {frac : ℚ} (nonneg : 0 ≤ frac)
    (atMost : frac ≤ 1) :
    interpolate anchors frac true = (extended anchors frac true).getD
      (segment frac true ⟨0, 0⟩ (anchors ++ [⟨1, 1⟩])) := by
  unfold interpolate
  simp only
  rw [clamp_of_mem nonneg atMost]

section Exchange

theorem extended_swap (anchors : List Anchor) (frac : ℚ) :
    extended anchors frac false = extended (anchors.map Anchor.swap) frac true := by
  unfold extended
  rw [← List.map_reverse]
  cases anchors.reverse with
  | nil => rfl
  | cons last front =>
      cases front with
      | nil => rfl
      | cons prev front => rfl

theorem segment_swap (frac : ℚ) (prev : Anchor) (anchors : List Anchor) :
    segment frac false prev anchors = segment frac true prev.swap (anchors.map Anchor.swap) := by
  induction anchors generalizing prev with
  | nil => rfl
  | cons anchor rest induction =>
      rw [List.map_cons, segment, segment, induction anchor]
      rfl

theorem interpolate_swap (anchors : List Anchor) (frac : ℚ) :
    interpolate anchors frac false = interpolate (anchors.map Anchor.swap) frac true := by
  unfold interpolate
  simp only
  rw [extended_swap, segment_swap, List.map_append]
  rfl

theorem apart_trans {left middle right : Anchor} (first : Apart left middle)
    (second : Apart middle right) : Apart left right := by
  have positive := epsilon_pos
  unfold Apart at *
  constructor <;> linarith

instance : Trans Apart Apart Apart := ⟨apart_trans⟩

theorem Spaced.pairwise {anchors : List Anchor} (spaced : Spaced anchors) :
    anchors.Pairwise Apart := List.isChain_iff_pairwise.mp spaced.apart

theorem Spaced.increasing {anchors : List Anchor} (spaced : Spaced anchors) :
    Increasing anchors := by
  refine spaced.pairwise.imp fun {left right} apart => ?_
  have positive := epsilon_pos
  unfold Apart at apart
  constructor <;> linarith

theorem Spaced.swap {anchors : List Anchor} (spaced : Spaced anchors) :
    Spaced (anchors.map Anchor.swap) where
  inUnit := by
    intro exchanged member
    rcases List.mem_map.mp member with ⟨anchor, isAnchor, rfl⟩
    have unit := spaced.inUnit anchor isAnchor
    exact ⟨unit.2.2.1, unit.2.2.2, unit.1, unit.2.1⟩
  apart := by
    rw [List.isChain_map]
    exact spaced.apart.imp fun left right apart => ⟨apart.2, apart.1⟩

theorem StartsClear.swap {anchors : List Anchor} (clear : StartsClear anchors) :
    StartsClear (anchors.map Anchor.swap) := by
  intro first isFirst
  cases anchors with
  | nil => cases isFirst
  | cons anchor rest =>
      cases isFirst
      rcases clear anchor rfl with isStart | far
      · rw [isStart]
        exact .inl rfl
      · exact .inr ⟨far.2, far.1⟩

end Exchange

section Anchors

theorem segment_start (prev : Anchor) (anchor : Anchor) (rest : List Anchor)
    (frac : ℚ) (within : frac ≤ anchor.textFrac)
    (narrow : |anchor.textFrac - prev.textFrac| < epsilon) :
    segment frac true prev (anchor :: rest) = prev.audioFrac := by
  simp only [segment, Anchor.ends, if_true, if_pos within, if_pos narrow]

theorem extended_within {anchors : List Anchor} {frac : ℚ} (last : Anchor)
    (isLast : anchors.getLast? = some last) (within : frac ≤ last.textFrac) :
    extended anchors frac true = none := by
  unfold extended
  rw [← List.head?_reverse] at isLast
  cases shape : anchors.reverse with
  | nil => rfl
  | cons final front =>
      rw [shape, List.head?_cons, Option.some_inj] at isLast
      subst isLast
      cases front with
      | nil => rfl
      | cons prev front => simp [Anchor.ends, not_lt.mpr within]

theorem Spaced.le_last {anchors : List Anchor} (spaced : Spaced anchors) {anchor last : Anchor}
    (member : anchor ∈ anchors) (isLast : anchors.getLast? = some last) :
    anchor.textFrac ≤ last.textFrac ∧ anchor.audioFrac ≤ last.audioFrac := by
  obtain ⟨front, rfl⟩ := List.getLast?_eq_some_iff.mp isLast
  rcases List.mem_append.mp member with earlier | same
  · have before := (List.pairwise_append.mp spaced.increasing).2.2 anchor earlier last (by simp)
    exact ⟨before.1.le, before.2.le⟩
  · rw [List.mem_singleton] at same
    rw [same]
    exact ⟨le_rfl, le_rfl⟩

theorem interpolate_first (first : Anchor) (rest : List Anchor) (spaced : Spaced (first :: rest))
    (narrow : first.textFrac < epsilon) :
    interpolate (first :: rest) first.textFrac true = 0 := by
  have unit := spaced.inUnit first (by simp)
  rw [interpolate_of_mem _ unit.1 unit.2.1]
  obtain ⟨last, isLast⟩ : ∃ last, (first :: rest).getLast? = some last :=
    ⟨_, List.getLast?_eq_some_getLast (by simp)⟩
  rw [extended_within last isLast (spaced.le_last (by simp) isLast).1, Option.getD_none,
    List.cons_append]
  apply segment_start ⟨0, 0⟩ first _ _ le_rfl
  rw [sub_zero, abs_of_nonneg unit.1]
  exact narrow

theorem Spaced.apart_of_lt {anchors : List Anchor} (spaced : Spaced anchors)
    {left right : Anchor} (isLeft : left ∈ anchors) (isRight : right ∈ anchors)
    (before : left.textFrac < right.textFrac) : Apart left right := by
  obtain ⟨front, back, rfl⟩ := List.append_of_mem isRight
  have increasing := spaced.increasing
  rcases List.mem_append.mp isLeft with earlier | later
  · exact (List.pairwise_append.mp spaced.pairwise).2.2 left earlier right (by simp)
  · rcases List.mem_cons.mp later with same | after
    · rw [same] at before
      exact absurd before (lt_irrefl _)
    · have beyond := (List.pairwise_cons.mp (List.pairwise_append.mp increasing).2.1).1 left after
      exact absurd beyond.1 (not_lt.mpr before.le)

/-- The map to the audio passes through every anchor of a list that starts clear. -/
theorem passes_anchor {anchors : List Anchor} (spaced : Spaced anchors)
    (clear : StartsClear anchors) {anchor : Anchor} (member : anchor ∈ anchors) :
    interpolate anchors anchor.textFrac true = anchor.audioFrac := by
  have unit := spaced.inUnit anchor member
  by_cases far : epsilon ≤ anchor.textFrac
  · apply interpolate_at anchors spaced.increasing _ _ unit.2.1 unit.2.2.1 unit.2.2.2 member far
    intro other isAnchor before
    exact (spaced.apart_of_lt isAnchor member before).1.le
  · cases anchors with
    | nil => cases member
    | cons first rest =>
        have isFirst : anchor = first := by
          rcases List.mem_cons.mp member with same | later
          · exact same
          · have apart := (List.pairwise_cons.mp spaced.pairwise).1 anchor later
            have lower := (spaced.inUnit first (by simp)).1
            have gap := apart.1
            linarith
        rw [isFirst]
        rcases clear first rfl with isStart | past
        · have start := interpolate_first first rest spaced (by rw [isStart]; exact epsilon_pos)
          rw [start, isStart]
        · rw [isFirst] at far
          exact absurd past.1 far

/-- Both directions of the map pass through every anchor exactly when the first anchor is the
implicit start or lies `epsilon` or more from it on both axes. -/
theorem passes_anchors_iff (anchors : List Anchor) (spaced : Spaced anchors) :
    (∀ anchor ∈ anchors, interpolate anchors anchor.textFrac true = anchor.audioFrac ∧
      interpolate anchors anchor.audioFrac false = anchor.textFrac) ↔ StartsClear anchors := by
  constructor
  · intro passes first isFirst
    cases anchors with
    | nil => cases isFirst
    | cons head rest =>
        rw [List.head?_cons, Option.mem_some_iff] at isFirst
        subst isFirst
        have own := passes head (by simp)
        rw [interpolate_swap] at own
        have fromText := interpolate_first head rest spaced
        have fromAudio := interpolate_first head.swap (rest.map Anchor.swap) spaced.swap
        rw [own.1] at fromText
        rw [← List.map_cons, swap_text_frac, own.2] at fromAudio
        by_cases clear : epsilon ≤ head.textFrac ∧ epsilon ≤ head.audioFrac
        · exact .inr clear
        · have both : head.textFrac = 0 ∧ head.audioFrac = 0 := by
            rcases not_and_or.mp clear with nearText | nearAudio
            · have audio := fromText (not_le.mp nearText)
              exact ⟨fromAudio (by rw [audio]; exact epsilon_pos), audio⟩
            · have text := fromAudio (not_le.mp nearAudio)
              exact ⟨text, fromText (by rw [text]; exact epsilon_pos)⟩
          left
          cases head
          simp only at both
          rw [both.1, both.2]
  · intro clear anchor member
    constructor
    · exact passes_anchor spaced clear member
    · rw [interpolate_swap]
      have exchanged : anchor.swap ∈ anchors.map Anchor.swap := List.mem_map_of_mem member
      have passed := passes_anchor spaced.swap clear.swap exchanged
      rw [swap_text_frac, swap_audio_frac] at passed
      exact passed

/-- Two anchors, the second at the end of the audio. -/
theorem passes_anchors_iff_at_end :
    interpolate [⟨1 / 10, 1 / 5⟩, ⟨4 / 5, 1⟩] (4 / 5) true = 1 ∧
      interpolate [⟨1 / 10, 1 / 5⟩, ⟨4 / 5, 1⟩] 1 false = 4 / 5 := by
  have spaced : Spaced [⟨1 / 10, 1 / 5⟩, ⟨4 / 5, 1⟩] := ⟨by decide +kernel, by decide +kernel⟩
  have clear : StartsClear [⟨1 / 10, 1 / 5⟩, ⟨4 / 5, 1⟩] := by
    intro first isFirst
    rw [List.head?_cons, Option.mem_some_iff] at isFirst
    rw [← isFirst]
    right
    decide +kernel
  exact (passes_anchors_iff _ spaced).mpr clear ⟨4 / 5, 1⟩ (by simp)

/-- A pair at the start of the text and a tenth into the audio: the map sends the start of the
text to the start of the audio. -/
theorem start_pair_missed :
    ∃ anchors : List Anchor, Spaced anchors ∧ ∃ anchor ∈ anchors,
      interpolate anchors anchor.textFrac true ≠ anchor.audioFrac := by
  refine ⟨[⟨0, 1 / 10⟩], ⟨by decide +kernel, by decide +kernel⟩, ⟨0, 1 / 10⟩, by simp, ?_⟩
  decide +kernel

end Anchors

section Order

/-- The right anchor is nowhere before the left, as the implicit ends need not be either. -/
def Rises (left right : Anchor) : Prop :=
  left.textFrac ≤ right.textFrac ∧ left.audioFrac ≤ right.audioFrac

/-- The value on the straight line from one anchor to the next. -/
def onLine (prev anchor : Anchor) (frac : ℚ) : ℚ :=
  prev.audioFrac + (frac - prev.textFrac) / (anchor.textFrac - prev.textFrac) *
    (anchor.audioFrac - prev.audioFrac)

theorem segment_within (prev anchor : Anchor) (rest : List Anchor) (frac : ℚ)
    (within : frac ≤ anchor.textFrac) (wide : epsilon ≤ anchor.textFrac - prev.textFrac) :
    segment frac true prev (anchor :: rest) = clamp (onLine prev anchor frac) := by
  have positive := epsilon_pos
  have broad : ¬|anchor.textFrac - prev.textFrac| < epsilon := by
    rw [abs_of_nonneg (by linarith)]
    exact not_lt.mpr wide
  simp only [segment, Anchor.ends, if_true, if_pos within, if_neg broad, onLine]

theorem segment_past (prev anchor : Anchor) (rest : List Anchor) (frac : ℚ)
    (past : anchor.textFrac < frac) :
    segment frac true prev (anchor :: rest) = segment frac true anchor rest := by
  simp only [segment, Anchor.ends, if_true, if_neg (not_le.mpr past)]

theorem on_line_mono {prev anchor : Anchor} (rises : Rises prev anchor) {left right : ℚ}
    (le : left ≤ right) : onLine prev anchor left ≤ onLine prev anchor right := by
  have run : 0 ≤ anchor.textFrac - prev.textFrac := sub_nonneg.mpr rises.1
  have rise : 0 ≤ anchor.audioFrac - prev.audioFrac := sub_nonneg.mpr rises.2
  unfold onLine
  gcongr

theorem on_line_start (prev anchor : Anchor) : onLine prev anchor prev.textFrac = prev.audioFrac := by
  simp [onLine]

theorem on_line_end {prev anchor : Anchor} (apart : prev.textFrac < anchor.textFrac) :
    onLine prev anchor anchor.textFrac = anchor.audioFrac := by
  have nonzero : anchor.textFrac - prev.textFrac ≠ 0 := (sub_pos.mpr apart).ne'
  rw [onLine, div_self nonzero, one_mul, add_sub_cancel]

/-- On the piece before an anchor the map stays between the ends of the piece and is increasing. -/
theorem piece_mono {prev anchor : Anchor} (rest : List Anchor) (rises : Rises prev anchor)
    (prevUnit : InUnit prev) (unit : InUnit anchor) {left right : ℚ}
    (from' : prev.textFrac ≤ left) (le : left ≤ right) (within : right ≤ anchor.textFrac) :
    prev.audioFrac ≤ segment left true prev (anchor :: rest) ∧
      segment left true prev (anchor :: rest) ≤ segment right true prev (anchor :: rest) ∧
      segment right true prev (anchor :: rest) ≤ anchor.audioFrac := by
  by_cases wide : epsilon ≤ anchor.textFrac - prev.textFrac
  · have before : prev.textFrac < anchor.textFrac := by
      have positive := epsilon_pos
      linarith
    rw [segment_within prev anchor rest left (le.trans within) wide,
      segment_within prev anchor rest right within wide]
    have lower := clamp_mono (on_line_mono rises from')
    have upper := clamp_mono (on_line_mono rises within)
    rw [on_line_start, clamp_of_mem prevUnit.2.2.1 prevUnit.2.2.2] at lower
    rw [on_line_end before, clamp_of_mem unit.2.2.1 unit.2.2.2] at upper
    exact ⟨lower, clamp_mono (on_line_mono rises le), upper⟩
  · have narrow : |anchor.textFrac - prev.textFrac| < epsilon := by
      rw [abs_of_nonneg (sub_nonneg.mpr rises.1)]
      exact not_le.mp wide
    rw [segment_start prev anchor rest left (le.trans within) narrow,
      segment_start prev anchor rest right within narrow]
    exact ⟨le_rfl, le_rfl, rises.2⟩

/-- A fraction past an anchor and within the last one has the last one still ahead. -/
theorem last_beyond {anchor last : Anchor} {rest : List Anchor}
    (isLast : (anchor :: rest).getLast? = some last) {frac : ℚ} (beyond : anchor.textFrac < frac)
    (within : frac ≤ last.textFrac) : rest.getLast? = some last := by
  cases rest with
  | nil =>
      rw [List.getLast?_singleton, Option.some_inj] at isLast
      rw [isLast] at beyond
      exact absurd within (not_le.mpr beyond)
  | cons next rest => rwa [List.getLast?_cons_cons] at isLast

/-- Up to the last of its anchors the search stays between the ends and is increasing. -/
theorem segment_mono (prev last : Anchor) (anchors : List Anchor)
    (rises : (prev :: anchors).Pairwise Rises) (unit : ∀ anchor ∈ prev :: anchors, InUnit anchor)
    (isLast : anchors.getLast? = some last) {left right : ℚ} (from' : prev.textFrac ≤ left)
    (le : left ≤ right) (within : right ≤ last.textFrac) :
    prev.audioFrac ≤ segment left true prev anchors ∧
      segment left true prev anchors ≤ segment right true prev anchors ∧
      segment right true prev anchors ≤ last.audioFrac := by
  induction anchors generalizing prev left right with
  | nil => cases isLast
  | cons anchor rest induction =>
      have first : Rises prev anchor := (List.pairwise_cons.mp rises).1 anchor (by simp)
      have prevUnit := unit prev (by simp)
      have anchorUnit := unit anchor (by simp)
      have later := (List.pairwise_cons.mp rises).2
      have laterUnit : ∀ other ∈ anchor :: rest, InUnit other :=
        fun other member => unit other (List.mem_cons_of_mem _ member)
      have atLast : anchor.audioFrac ≤ last.audioFrac := by
        rcases List.mem_cons.mp (List.mem_of_getLast? isLast) with same | isLater
        · rw [same]
        · exact ((List.pairwise_cons.mp later).1 last isLater).2
      -- past the anchor the search goes on from it, and some anchor is left to reach
      have onward : ∀ {low high : ℚ}, anchor.textFrac < low → low ≤ high →
          high ≤ last.textFrac → anchor.audioFrac ≤ segment low true anchor rest ∧
            segment low true anchor rest ≤ segment high true anchor rest ∧
            segment high true anchor rest ≤ last.audioFrac := by
        intro low high past order reach
        have isLater := last_beyond isLast past (order.trans reach)
        exact induction anchor later laterUnit isLater past.le order reach
      by_cases rightWithin : right ≤ anchor.textFrac
      · have piece := piece_mono rest first prevUnit anchorUnit from' le rightWithin
        exact ⟨piece.1, piece.2.1, piece.2.2.trans atLast⟩
      · have rightPast := not_le.mp rightWithin
        rw [segment_past prev anchor rest right rightPast]
        by_cases leftWithin : left ≤ anchor.textFrac
        · have piece := piece_mono rest first prevUnit anchorUnit from' le_rfl leftWithin
          have beyond := onward rightPast le_rfl within
          exact ⟨piece.1, piece.2.2.trans beyond.1, beyond.2.2⟩
        · have leftPast := not_le.mp leftWithin
          rw [segment_past prev anchor rest left leftPast]
          have beyond := onward leftPast le within
          exact ⟨first.2.trans beyond.1, beyond.2.1, beyond.2.2⟩

theorem segment_append (prev last : Anchor) (anchors rest : List Anchor)
    (isLast : anchors.getLast? = some last) {frac : ℚ} (within : frac ≤ last.textFrac) :
    segment frac true prev (anchors ++ rest) = segment frac true prev anchors := by
  induction anchors generalizing prev with
  | nil => cases isLast
  | cons anchor tail induction =>
      rw [List.cons_append]
      by_cases reached : frac ≤ anchor.textFrac
      · simp only [segment, Anchor.ends, if_true, if_pos reached]
      · have past := not_le.mp reached
        rw [segment_past prev anchor _ frac past, segment_past prev anchor _ frac past]
        exact induction anchor (last_beyond isLast past within)

theorem Apart.rises {left right : Anchor} (apart : Apart left right) : Rises left right := by
  have positive := epsilon_pos
  unfold Apart at apart
  constructor <;> linarith

theorem Spaced.rises_from_start {anchors : List Anchor} (spaced : Spaced anchors) :
    (⟨0, 0⟩ :: anchors).Pairwise Rises := by
  apply List.Pairwise.cons
  · intro anchor member
    have unit := spaced.inUnit anchor member
    exact ⟨unit.1, unit.2.2.1⟩
  · exact spaced.pairwise.imp Apart.rises

theorem Spaced.rises_to_end {anchors : List Anchor} (spaced : Spaced anchors) :
    (⟨0, 0⟩ :: (anchors ++ [⟨1, 1⟩])).Pairwise Rises := by
  rw [← List.cons_append, List.pairwise_append]
  refine ⟨spaced.rises_from_start, List.pairwise_singleton _ _, fun left isLeft right isRight => ?_⟩
  rw [List.mem_singleton] at isRight
  rw [isRight]
  rcases List.mem_cons.mp isLeft with isStart | isAnchor
  · rw [isStart]
    exact ⟨zero_le_one, zero_le_one⟩
  · have unit := spaced.inUnit left isAnchor
    exact ⟨unit.2.1, unit.2.2.2⟩

theorem start_unit : InUnit ⟨0, 0⟩ := ⟨le_rfl, zero_le_one, le_rfl, zero_le_one⟩

theorem end_unit : InUnit ⟨1, 1⟩ := ⟨zero_le_one, le_rfl, zero_le_one, le_rfl⟩

theorem Spaced.unit_from_start {anchors : List Anchor} (spaced : Spaced anchors) :
    ∀ anchor ∈ ⟨0, 0⟩ :: anchors, InUnit anchor := by
  intro anchor member
  rcases List.mem_cons.mp member with isStart | isAnchor
  · rw [isStart]
    exact start_unit
  · exact spaced.inUnit anchor isAnchor

theorem Spaced.unit_to_end {anchors : List Anchor} (spaced : Spaced anchors) :
    ∀ anchor ∈ ⟨0, 0⟩ :: (anchors ++ [⟨1, 1⟩]), InUnit anchor := by
  intro anchor member
  rw [← List.cons_append, List.mem_append, List.mem_singleton] at member
  rcases member with isKnot | isEnd
  · exact spaced.unit_from_start anchor isKnot
  · rw [isEnd]
    exact end_unit

theorem extended_past {front : List Anchor} {prev last : Anchor} (apart : Apart prev last)
    {frac : ℚ} (past : last.textFrac < frac) :
    extended (front ++ [prev, last]) frac true = some (clamp (last.audioFrac +
      (last.audioFrac - prev.audioFrac) / (last.textFrac - prev.textFrac) *
        (frac - last.textFrac))) := by
  unfold extended
  rw [show (front ++ [prev, last]).reverse = last :: prev :: front.reverse by simp]
  simp [Anchor.ends, past, apart.1]

theorem short_or_pair (anchors : List Anchor) :
    anchors.length ≤ 1 ∨ ∃ front prev last, anchors = front ++ [prev, last] := by
  rcases List.eq_nil_or_concat anchors with isNil | ⟨init, last, isConcat⟩
  · simp [isNil]
  · rcases List.eq_nil_or_concat init with isNil | ⟨front, prev, isInit⟩
    · simp [isConcat, isNil]
    · right
      exact ⟨front, prev, last, by simp [isConcat, isInit]⟩

theorem extended_short {anchors : List Anchor} (short : anchors.length ≤ 1) (frac : ℚ) :
    extended anchors frac true = none := by
  match anchors, short with
  | [], _ => rfl
  | [_], _ => rfl

theorem Spaced.last_pair {front : List Anchor} {prev last : Anchor}
    (spaced : Spaced (front ++ [prev, last])) : Apart prev last :=
  (List.pairwise_cons.mp (List.pairwise_append.mp spaced.pairwise).2.1).1 last (by simp)

theorem slope_nonneg {prev last : Anchor} (rises : Rises prev last) :
    0 ≤ (last.audioFrac - prev.audioFrac) / (last.textFrac - prev.textFrac) :=
  div_nonneg (sub_nonneg.mpr rises.2) (sub_nonneg.mpr rises.1)

theorem interpolate_ordered {anchors : List Anchor} (spaced : Spaced anchors) {left right : ℚ}
    (nonneg : 0 ≤ left) (le : left ≤ right) (atMost : right ≤ 1) :
    0 ≤ interpolate anchors left true ∧
      interpolate anchors left true ≤ interpolate anchors right true ∧
      interpolate anchors right true ≤ 1 := by
  rw [interpolate_of_mem anchors nonneg (le.trans atMost),
    interpolate_of_mem anchors (nonneg.trans le) atMost]
  have whole := segment_mono ⟨0, 0⟩ ⟨1, 1⟩ (anchors ++ [⟨1, 1⟩]) spaced.rises_to_end
    spaced.unit_to_end (by simp) nonneg le atMost
  rcases short_or_pair anchors with short | ⟨front, prev, last, rfl⟩
  · rw [extended_short short, extended_short short]
    exact whole
  · have isLast : (front ++ [prev, last]).getLast? = some last := by simp
    have apart := spaced.last_pair
    by_cases rightWithin : right ≤ last.textFrac
    · rw [extended_within last isLast rightWithin,
        extended_within last isLast (le.trans rightWithin)]
      exact whole
    · have rightPast := not_le.mp rightWithin
      rw [extended_past apart rightPast, Option.getD_some]
      have slope := slope_nonneg apart.rises
      by_cases leftWithin : left ≤ last.textFrac
      · rw [extended_within last isLast leftWithin, Option.getD_none]
        have reached := segment_mono ⟨0, 0⟩ last (front ++ [prev, last])
          spaced.rises_from_start spaced.unit_from_start isLast nonneg le_rfl leftWithin
        have lastUnit := spaced.inUnit last (by simp)
        rw [segment_append ⟨0, 0⟩ last _ _ isLast leftWithin]
        refine ⟨reached.1, reached.2.2.trans ?_, (clamp_mem _).2⟩
        rw [← clamp_of_mem lastUnit.2.2.1 lastUnit.2.2.2]
        apply clamp_mono
        rw [clamp_of_mem lastUnit.2.2.1 lastUnit.2.2.2]
        have gain := mul_nonneg slope (sub_nonneg.mpr rightPast.le)
        linarith
      · rw [extended_past apart (not_le.mp leftWithin), Option.getD_some]
        refine ⟨(clamp_mem _).1, clamp_mono ?_, (clamp_mem _).2⟩
        gcongr

theorem interpolate_clamp (anchors : List Anchor) (frac : ℚ) (textToAudio : Bool) :
    interpolate anchors (clamp frac) textToAudio = interpolate anchors frac textToAudio := by
  unfold interpolate
  rw [clamp_of_mem (clamp_mem frac).1 (clamp_mem frac).2]

theorem interpolate_monotone {anchors : List Anchor} (spaced : Spaced anchors)
    (textToAudio : Bool) :
    (Monotone fun frac => interpolate anchors frac textToAudio) ∧
      ∀ frac, 0 ≤ interpolate anchors frac textToAudio ∧
        interpolate anchors frac textToAudio ≤ 1 := by
  have toAudio : ∀ {marks : List Anchor}, Spaced marks →
      (Monotone fun frac => interpolate marks frac true) ∧
        ∀ frac, 0 ≤ interpolate marks frac true ∧ interpolate marks frac true ≤ 1 := by
    intro marks marksSpaced
    constructor
    · intro left right le
      simp only
      rw [← interpolate_clamp marks left, ← interpolate_clamp marks right]
      exact (interpolate_ordered marksSpaced (clamp_mem left).1 (clamp_mono le)
        (clamp_mem right).2).2.1
    · intro frac
      rw [← interpolate_clamp]
      have ordered := interpolate_ordered marksSpaced (clamp_mem frac).1 le_rfl (clamp_mem frac).2
      exact ⟨ordered.1, ordered.2.2⟩
  cases textToAudio with
  | true => exact toAudio spaced
  | false =>
      simp only [interpolate_swap]
      exact toAudio spaced.swap

end Order

section Back

/-- The right anchor lies `epsilon` or more past the left on both axes. -/
def Wide (left right : Anchor) : Prop :=
  epsilon ≤ right.textFrac - left.textFrac ∧ epsilon ≤ right.audioFrac - left.audioFrac

/-- The piece from the implicit start has a slope back, or is too narrow for one in both
directions. -/
def StartsBack (anchors : List Anchor) : Prop :=
  ∀ first ∈ anchors.head?, first.textFrac < epsilon ∨ epsilon ≤ first.audioFrac

/-- The piece from a single anchor to the implicit end has a slope both ways, or is not one. -/
def EndsBack (anchors : List Anchor) : Prop :=
  ∀ only, anchors = [only] → only.textFrac = 1 ∨ only.audioFrac = 1 ∨
    epsilon ≤ 1 - only.textFrac ∧ epsilon ≤ 1 - only.audioFrac

theorem Apart.wide {left right : Anchor} (apart : Apart left right) : Wide left right :=
  ⟨apart.1.le, apart.2.le⟩

theorem on_line_back {prev anchor : Anchor} (wide : Wide prev anchor) (frac : ℚ) :
    onLine prev.swap anchor.swap (onLine prev anchor frac) = frac := by
  have positive := epsilon_pos
  have run : anchor.textFrac - prev.textFrac ≠ 0 := (positive.trans_le wide.1).ne'
  have rise : anchor.audioFrac - prev.audioFrac ≠ 0 := (positive.trans_le wide.2).ne'
  simp only [onLine, swap_text_frac, swap_audio_frac]
  rw [add_sub_cancel_left, mul_div_assoc, div_self rise, mul_one, div_mul_cancel₀ _ run,
    add_sub_cancel]

theorem on_line_lt {prev anchor : Anchor} (wide : Wide prev anchor) {left right : ℚ}
    (less : left < right) : onLine prev anchor left < onLine prev anchor right := by
  have positive := epsilon_pos
  have run : 0 < anchor.textFrac - prev.textFrac := positive.trans_le wide.1
  have rise : 0 < anchor.audioFrac - prev.audioFrac := positive.trans_le wide.2
  unfold onLine
  gcongr

theorem segment_back (prev last : Anchor) (anchors : List Anchor)
    (wide : (prev :: anchors).Pairwise Wide) (unit : ∀ anchor ∈ prev :: anchors, InUnit anchor)
    (isLast : anchors.getLast? = some last) {frac : ℚ} (past : prev.textFrac < frac)
    (within : frac ≤ last.textFrac) :
    prev.audioFrac < segment frac true prev anchors ∧
      segment (segment frac true prev anchors) true prev.swap (anchors.map Anchor.swap) = frac := by
  have positive := epsilon_pos
  induction anchors generalizing prev with
  | nil => cases isLast
  | cons anchor rest induction =>
      have first : Wide prev anchor := (List.pairwise_cons.mp wide).1 anchor (by simp)
      have prevUnit := unit prev (by simp)
      have anchorUnit := unit anchor (by simp)
      have apart : prev.textFrac < anchor.textFrac := by
        have gap := first.1
        linarith
      rw [List.map_cons]
      by_cases reached : frac ≤ anchor.textFrac
      · have lower := on_line_lt first past
        have upper : onLine prev anchor frac ≤ anchor.audioFrac := by
          rcases reached.eq_or_lt with same | before
          · rw [same, on_line_end apart]
          · have less := on_line_lt first before
            rw [on_line_end apart] at less
            exact less.le
        rw [on_line_start] at lower
        rw [segment_within prev anchor rest frac reached first.1,
          clamp_of_mem (prevUnit.2.2.1.trans lower.le) (upper.trans anchorUnit.2.2.2),
          segment_within prev.swap anchor.swap _ _ upper first.2, on_line_back first]
        exact ⟨lower, clamp_of_mem (prevUnit.1.trans past.le) (reached.trans anchorUnit.2.1)⟩
      · have beyond := not_le.mp reached
        have isLater := last_beyond isLast beyond within
        obtain ⟨above, back⟩ := induction anchor (List.pairwise_cons.mp wide).2
          (fun other member => unit other (List.mem_cons_of_mem _ member)) isLater beyond
        rw [segment_past prev anchor rest frac beyond]
        have rise : prev.audioFrac < anchor.audioFrac := by
          have gap := first.2
          linarith
        constructor
        · exact rise.trans above
        · rw [segment_past prev.swap anchor.swap _ _ above]
          exact back

theorem segment_back_from_start (last : Anchor) (anchors : List Anchor)
    (wide : anchors.Pairwise Wide) (unit : ∀ anchor ∈ anchors, InUnit anchor)
    (starts : StartsBack anchors) (isLast : anchors.getLast? = some last) {frac : ℚ}
    (nonneg : 0 ≤ frac) (within : frac ≤ last.textFrac)
    (left : 0 < segment frac true ⟨0, 0⟩ anchors) :
    segment (segment frac true ⟨0, 0⟩ anchors) true ⟨0, 0⟩ (anchors.map Anchor.swap) = frac := by
  have positive := epsilon_pos
  cases anchors with
  | nil => cases isLast
  | cons first rest =>
      have firstUnit := unit first (by simp)
      by_cases narrow : first.textFrac < epsilon
      · have near : |first.textFrac - 0| < epsilon := by
          rw [sub_zero, abs_of_nonneg firstUnit.1]
          exact narrow
        by_cases reached : frac ≤ first.textFrac
        · rw [segment_start ⟨0, 0⟩ first rest frac reached near] at left
          exact absurd left (lt_irrefl _)
        · have beyond := not_le.mp reached
          have isLater := last_beyond isLast beyond within
          obtain ⟨above, back⟩ := segment_back first last rest wide unit isLater beyond within
          rw [segment_past ⟨0, 0⟩ first rest frac beyond, List.map_cons,
            segment_past ⟨0, 0⟩ first.swap _ _ above]
          exact back
      · have broad := not_lt.mp narrow
        have rise := (starts first rfl).resolve_left narrow
        have fromStart : (⟨0, 0⟩ :: first :: rest).Pairwise Wide := by
          apply List.Pairwise.cons _ wide
          intro anchor member
          unfold Wide
          rw [sub_zero, sub_zero]
          rcases List.mem_cons.mp member with same | later
          · rw [same]
            exact ⟨broad, rise⟩
          · have gap := (List.pairwise_cons.mp wide).1 anchor later
            unfold Wide at gap
            constructor <;> linarith
        have unitFromStart : ∀ anchor ∈ ⟨0, 0⟩ :: first :: rest, InUnit anchor := by
          intro anchor member
          rcases List.mem_cons.mp member with isStart | isAnchor
          · rw [isStart]
            exact start_unit
          · exact unit anchor isAnchor
        rcases nonneg.eq_or_lt with isZero | past
        · rw [← isZero, segment_within ⟨0, 0⟩ first rest 0 firstUnit.1 (by rwa [sub_zero])] at left
          have start := on_line_start ⟨0, 0⟩ first
          simp only at start
          rw [start] at left
          exact absurd left (lt_irrefl _)
        · exact (segment_back ⟨0, 0⟩ last _ fromStart unitFromStart isLast past within).2

theorem Spaced.wide {anchors : List Anchor} (spaced : Spaced anchors) : anchors.Pairwise Wide :=
  spaced.pairwise.imp Apart.wide

theorem back_within {anchors : List Anchor} (spaced : Spaced anchors)
    (starts : StartsBack anchors) (last : Anchor) (isLast : anchors.getLast? = some last)
    {frac : ℚ} (nonneg : 0 ≤ frac) (within : frac ≤ last.textFrac)
    (left : 0 < interpolate anchors frac true) :
    interpolate anchors (interpolate anchors frac true) false = frac := by
  have lastUnit := spaced.inUnit last (List.mem_of_getLast? isLast)
  have value : interpolate anchors frac true = segment frac true ⟨0, 0⟩ anchors := by
    rw [interpolate_of_mem anchors nonneg (within.trans lastUnit.2.1),
      extended_within last isLast within, Option.getD_none, segment_append ⟨0, 0⟩ last _ _ isLast within]
  have bounds := segment_mono ⟨0, 0⟩ last anchors spaced.rises_from_start spaced.unit_from_start
    isLast nonneg le_rfl within
  rw [value] at left
  have back := segment_back_from_start last anchors spaced.wide spaced.inUnit starts isLast nonneg
    within left
  have isLastSwap : (anchors.map Anchor.swap).getLast? = some last.swap := by
    rw [List.getLast?_map, isLast]
    rfl
  have reached : segment frac true ⟨0, 0⟩ anchors ≤ last.swap.textFrac := bounds.2.2
  rw [value, interpolate_swap,
    interpolate_of_mem _ left.le (bounds.2.2.trans lastUnit.2.2.2),
    extended_within last.swap isLastSwap reached, Option.getD_none,
    segment_append ⟨0, 0⟩ last.swap _ _ isLastSwap reached]
  exact back

theorem back_past {front : List Anchor} {prev last : Anchor}
    (spaced : Spaced (front ++ [prev, last])) {frac : ℚ} (past : last.textFrac < frac)
    (atMost : frac ≤ 1) (left : 0 < interpolate (front ++ [prev, last]) frac true)
    (unfinished : interpolate (front ++ [prev, last]) frac true < 1) :
    interpolate (front ++ [prev, last]) (interpolate (front ++ [prev, last]) frac true) false =
      frac := by
  have positive := epsilon_pos
  have apart := spaced.last_pair
  have nonneg : 0 ≤ frac := (spaced.inUnit last (by simp)).1.trans past.le
  have run : 0 < last.textFrac - prev.textFrac := positive.trans apart.1
  have rise : 0 < last.audioFrac - prev.audioFrac := positive.trans apart.2
  have value : interpolate (front ++ [prev, last]) frac true = last.audioFrac +
      (last.audioFrac - prev.audioFrac) / (last.textFrac - prev.textFrac) *
        (frac - last.textFrac) := by
    have clamped : interpolate (front ++ [prev, last]) frac true = clamp (last.audioFrac +
        (last.audioFrac - prev.audioFrac) / (last.textFrac - prev.textFrac) *
          (frac - last.textFrac)) := by
      rw [interpolate_of_mem _ nonneg atMost, extended_past apart past, Option.getD_some]
    rw [clamped] at left unfinished ⊢
    exact (clamp_eq_inner left unfinished rfl).symm
  have gain : 0 < (last.audioFrac - prev.audioFrac) / (last.textFrac - prev.textFrac) *
      (frac - last.textFrac) := mul_pos (div_pos rise run) (sub_pos.mpr past)
  have pastSwap : last.swap.textFrac < interpolate (front ++ [prev, last]) frac true := by
    rw [value, swap_text_frac]
    linarith
  have apartSwap : Apart prev.swap last.swap := ⟨apart.2, apart.1⟩
  rw [interpolate_swap, interpolate_of_mem _ left.le unfinished.le, List.map_append,
    List.map_cons, List.map_cons, List.map_nil, extended_past apartSwap pastSwap, Option.getD_some, value]
  have undone : last.swap.audioFrac + (last.swap.audioFrac - prev.swap.audioFrac) /
      (last.swap.textFrac - prev.swap.textFrac) * (last.audioFrac +
        (last.audioFrac - prev.audioFrac) / (last.textFrac - prev.textFrac) *
          (frac - last.textFrac) - last.swap.textFrac) = frac := by
    simp only [swap_text_frac, swap_audio_frac]
    field_simp
    ring
  rw [undone]
  exact clamp_of_mem nonneg atMost

/-- Where no slope is extended the whole map, its implicit end included, is undone. -/
theorem back_whole {anchors : List Anchor} (spaced : Spaced anchors)
    (starts : StartsBack (anchors ++ [⟨1, 1⟩]))
    (wide : List.Pairwise Wide (anchors ++ [⟨1, 1⟩]))
    (short : anchors.length ≤ 1) {frac : ℚ} (nonneg : 0 ≤ frac) (atMost : frac ≤ 1)
    (left : 0 < interpolate anchors frac true) :
    interpolate anchors (interpolate anchors frac true) false = frac := by
  have value : interpolate anchors frac true =
      segment frac true ⟨0, 0⟩ (anchors ++ [⟨1, 1⟩]) := by
    rw [interpolate_of_mem anchors nonneg atMost, extended_short short, Option.getD_none]
  have unit : ∀ anchor ∈ anchors ++ [⟨1, 1⟩], InUnit anchor :=
    fun anchor member => spaced.unit_to_end anchor (List.mem_cons_of_mem _ member)
  have top := (interpolate_ordered spaced nonneg le_rfl atMost).2.2
  have shortSwap : (anchors.map Anchor.swap).length ≤ 1 := by rwa [List.length_map]
  rw [interpolate_swap, interpolate_of_mem _ left.le top, extended_short shortSwap,
    Option.getD_none, value]
  rw [value] at left
  have back := segment_back_from_start ⟨1, 1⟩ (anchors ++ [⟨1, 1⟩]) wide unit starts (by simp)
    nonneg atMost left
  rw [List.map_append] at back
  exact back

theorem map_undone {anchors : List Anchor} (spaced : Spaced anchors)
    (starts : StartsBack anchors) (ends : EndsBack anchors) {frac : ℚ} (nonneg : 0 ≤ frac)
    (atMost : frac ≤ 1) (left : 0 < interpolate anchors frac true)
    (unfinished : interpolate anchors frac true < 1) :
    interpolate anchors (interpolate anchors frac true) false = frac := by
  rcases short_or_pair anchors with short | ⟨front, prev, last, isPair⟩
  · match anchors with
    | [] =>
        have starts' : StartsBack ([] ++ [⟨1, 1⟩]) := by
          intro first isFirst
          rw [List.nil_append, List.head?_cons, Option.mem_some_iff] at isFirst
          rw [← isFirst]
          exact .inr epsilon_lt_one.le
        exact back_whole spaced starts' (List.pairwise_singleton _ _) short nonneg atMost left
    | [only] =>
        by_cases within : frac ≤ only.textFrac
        · exact back_within spaced starts only rfl nonneg within left
        · have beyond := not_le.mp within
          rcases ends only rfl with textEnd | audioEnd | apart
          · rw [textEnd] at beyond
            exact absurd beyond (not_lt.mpr atMost)
          · -- the anchor ends the audio, so everything past it is the end
            have value : interpolate [only] frac true =
                segment frac true ⟨0, 0⟩ [only, ⟨1, 1⟩] := by
              rw [interpolate_of_mem _ nonneg atMost, extended_short short]
              rfl
            have rises := (List.pairwise_cons.mp spaced.rises_to_end).2
            have unit : ∀ anchor ∈ [only, ⟨1, 1⟩], InUnit anchor :=
              fun anchor member => spaced.unit_to_end anchor (List.mem_cons_of_mem _ member)
            have reached := segment_mono only ⟨1, 1⟩ [⟨1, 1⟩] rises unit rfl beyond.le le_rfl
              atMost
            rw [value, segment_past ⟨0, 0⟩ only _ frac beyond] at unfinished
            rw [audioEnd] at reached
            exact absurd unfinished (not_lt.mpr reached.1)
          · have wide : List.Pairwise Wide ([only] ++ [⟨1, 1⟩]) := by
              rw [List.singleton_append, List.pairwise_pair]
              exact apart
            exact back_whole spaced starts wide short nonneg atMost left
  · subst isPair
    by_cases within : frac ≤ last.textFrac
    · exact back_within spaced starts last (by simp) nonneg within left
    · exact back_past spaced (not_le.mp within) atMost left unfinished

/-- The map is non-decreasing in both directions with values in the book, and the direction from
the audio undoes the one to it wherever that lies strictly inside the audio. -/
theorem interpolate_monotone_and_undone (anchors : List Anchor) (spaced : Spaced anchors) :
    (∀ textToAudio, Monotone fun frac => interpolate anchors frac textToAudio) ∧
      (∀ textToAudio frac, 0 ≤ interpolate anchors frac textToAudio ∧
        interpolate anchors frac textToAudio ≤ 1) ∧
      (StartsBack anchors → EndsBack anchors → ∀ frac, 0 ≤ frac → frac ≤ 1 →
        0 < interpolate anchors frac true → interpolate anchors frac true < 1 →
        interpolate anchors (interpolate anchors frac true) false = frac) :=
  ⟨fun textToAudio => (interpolate_monotone spaced textToAudio).1,
    fun textToAudio => (interpolate_monotone spaced textToAudio).2,
    fun starts ends _ nonneg atMost left unfinished =>
      map_undone spaced starts ends nonneg atMost left unfinished⟩

/-- Two anchors, at a fraction past both. -/
theorem interpolate_monotone_and_undone_past :
    interpolate [⟨1 / 10, 1 / 5⟩, ⟨2 / 5, 1 / 2⟩]
      (interpolate [⟨1 / 10, 1 / 5⟩, ⟨2 / 5, 1 / 2⟩] (3 / 5) true) false = 3 / 5 := by
  have spaced : Spaced [⟨1 / 10, 1 / 5⟩, ⟨2 / 5, 1 / 2⟩] :=
    ⟨by decide +kernel, by decide +kernel⟩
  have starts : StartsBack [⟨1 / 10, 1 / 5⟩, ⟨2 / 5, 1 / 2⟩] := by
    intro first isFirst
    rw [List.head?_cons, Option.mem_some_iff] at isFirst
    rw [← isFirst]
    right
    decide +kernel
  have ends : EndsBack [⟨1 / 10, 1 / 5⟩, ⟨2 / 5, 1 / 2⟩] := by
    intro only isOnly
    simp at isOnly
  apply (interpolate_monotone_and_undone _ spaced).2.2 starts ends
  · norm_num
  · norm_num
  · decide +kernel
  · decide +kernel

/-- An anchor positive on both axes but nearer the start of the audio than `epsilon`: what lies
before it in the text is mapped inside the audio and not back. -/
theorem near_start_not_undone :
    ∃ (anchors : List Anchor) (frac : ℚ), Spaced anchors ∧
      (∀ first ∈ anchors.head?, 0 < first.textFrac ∧ 0 < first.audioFrac) ∧
      0 ≤ frac ∧ frac ≤ 1 ∧
      0 < interpolate anchors frac true ∧ interpolate anchors frac true < 1 ∧
      interpolate anchors (interpolate anchors frac true) false ≠ frac := by
  refine ⟨[⟨1 / 2, 1 / 2 ^ 53⟩], 1 / 4, ⟨by decide +kernel, by decide +kernel⟩, ?_, ?_⟩
  · intro first isFirst
    rw [List.head?_cons, Option.mem_some_iff] at isFirst
    rw [← isFirst]
    decide +kernel
  · decide +kernel

end Back

end Omnibus.CrossFormat
