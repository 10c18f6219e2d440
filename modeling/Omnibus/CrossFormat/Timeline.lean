import Mathlib.Algebra.Order.Floor.Ring
import Mathlib.Data.Rat.Floor
import Omnibus.CrossFormat.Link

/-!
# The linear tier

`cross_format/mapping.rs` over exact rationals: a fraction or percent of the book as a file of
the audio timeline and the seconds within it, and back.
-/

namespace Omnibus.CrossFormat

/-- The search of `map_fraction_to_audio` for the file a global second falls in. The end of a
file belongs to the next one, that of the last file to it. -/
def fileAt (global : ℚ) : List TimelineFile → Option (Int × ℚ)
  | [] => none
  | file :: rest =>
      if global < file.startSeconds + file.durationSeconds || rest.isEmpty then
        some (file.bookFileId, max 0 (min file.durationSeconds (global - file.startSeconds)))
      else fileAt global rest

def mapFractionToAudio (timeline : AudioTimeline) (frac : ℚ) : Option (Int × ℚ) :=
  if ¬(0 ≤ frac ∧ frac ≤ 1) ∨ timeline.totalSeconds ≤ 0 then none
  else fileAt (timeline.totalSeconds * frac) timeline.files

def mapPercentToAudio (timeline : AudioTimeline) (percent : Int) : Option (Int × ℚ) :=
  if ¬(0 ≤ percent ∧ percent ≤ 100) then none
  else mapFractionToAudio timeline (percent / 100)

def mapAudioToPercent (timeline : AudioTimeline) (bookFileId : Int) (secondsWithin : ℚ) :
    Option Int :=
  (audioFraction timeline bookFileId secondsWithin).map fun frac => max 0 (min 100 ⌊100 * frac⌋)

def seconds (files : List AudioFile) : ℚ := (files.map fun file => max 0 file.durationSeconds).sum

theorem seconds_cons (file : AudioFile) (rest : List AudioFile) :
    seconds (file :: rest) = max 0 file.durationSeconds + seconds rest := by
  simp [seconds]

theorem concatenated_ids (start : ℚ) (files : List AudioFile) :
    (concatenated start files).map (·.bookFileId) = files.map (·.bookFileId) := by
  induction files generalizing start with
  | nil => rfl
  | cons file rest induction =>
      rw [concatenated, List.map_cons, List.map_cons, induction]

/-- Between the first start and the last end the search stops at a file that reaches the second,
and clamps nothing. -/
theorem file_at_concatenated (start global : ℚ) (files : List AudioFile) (some' : files ≠ [])
    (lower : start ≤ global) (upper : global ≤ start + seconds files) :
    ∃ file ∈ concatenated start files,
      fileAt global (concatenated start files) = some (file.bookFileId, global - file.startSeconds) ∧
        file.startSeconds ≤ global ∧ global ≤ file.startSeconds + file.durationSeconds := by
  induction files generalizing start with
  | nil => exact absurd rfl some'
  | cons file rest induction =>
      rw [concatenated, fileAt]
      by_cases here : global < start + max 0 file.durationSeconds ∨ rest = []
      · have reach : global ≤ start + max 0 file.durationSeconds := by
          rcases here with before | isLast
          · exact before.le
          · rw [isLast, seconds_cons] at upper
            simpa [seconds] using upper
        refine ⟨_, List.mem_cons_self, ?_, lower, reach⟩
        have stops : (decide (global < start + max 0 file.durationSeconds) ||
            (concatenated (start + max 0 file.durationSeconds) rest).isEmpty) = true := by
          rcases here with before | isLast
          · simp [before]
          · simp [isLast, concatenated]
        have unclamped : max 0 (min (max 0 file.durationSeconds) (global - start)) =
            global - start := by
          rw [min_eq_right (by linarith), max_eq_right (by linarith)]
        simp only [if_pos stops, unclamped]
      · rw [not_or, not_lt] at here
        rw [seconds_cons, ← add_assoc] at upper
        obtain ⟨found, member, located, within⟩ :=
          induction (start + max 0 file.durationSeconds) here.2 here.1 upper
        have goesOn : (decide (global < start + max 0 file.durationSeconds) ||
            (concatenated (start + max 0 file.durationSeconds) rest).isEmpty) = false := by
          cases rest with
          | nil => exact absurd rfl here.2
          | cons next tail => simp [concatenated, not_lt.mpr here.1]
        rw [if_neg (by simp [goesOn])]
        exact ⟨found, List.mem_cons_of_mem _ member, located, within⟩

theorem find_own {files : List TimelineFile} (distinct : (files.map (·.bookFileId)).Nodup)
    {file : TimelineFile} (member : file ∈ files) :
    files.find? (·.bookFileId = file.bookFileId) = some file := by
  induction files with
  | nil => cases member
  | cons head rest induction =>
      rw [List.map_cons, List.nodup_cons] at distinct
      rcases List.mem_cons.mp member with same | later
      · rw [same]
        exact List.find?_cons_of_pos (by simp)
      · have other : head.bookFileId ≠ file.bookFileId := by
          intro same
          rw [same] at distinct
          exact distinct.1 (List.mem_map_of_mem later)
        rw [List.find?_cons_of_neg (by simpa using other)]
        exact induction distinct.2 later

section RoundTrip

variable {all : List AudioFile} {link : Link} {timeline : AudioTimeline}

/-- The timeline of the files the link selects: one after another from 0, with a positive total. -/
theorem timeline_built (built : audioTimeline all link = some timeline) :
    ∃ selected : List AudioFile, selected.Sublist all ∧ selected ≠ [] ∧
      0 < seconds selected ∧ timeline = ⟨concatenated 0 selected, seconds selected⟩ := by
  unfold audioTimeline at built
  simp only at built
  split at built
  · cases built
  · rename_i selected isSelected
    split at built
    · cases built
    · rename_i kept
      rw [Bool.or_eq_true, not_or, List.isEmpty_iff, decide_eq_true_eq, not_le] at kept
      rw [Option.some_inj] at built
      refine ⟨selected, ?_, kept.1, kept.2, built.symm⟩
      cases mode : link.mode with
      | sequence =>
          rw [mode] at isSelected
          rw [← Option.some_inj.mp isSelected]
      | narrations =>
          rw [mode] at isSelected
          obtain ⟨primary, -, isFiltered⟩ := Option.map_eq_some_iff.mp isSelected
          rw [← isFiltered]
          exact List.filter_sublist

theorem fraction_round_trip (built : audioTimeline all link = some timeline)
    (distinct : (all.map (·.bookFileId)).Nodup) {frac : ℚ} (nonneg : 0 ≤ frac) (atMost : frac ≤ 1) :
    ∃ file ∈ timeline.files, ∃ within,
      mapFractionToAudio timeline frac = some (file.bookFileId, within) ∧
        0 ≤ within ∧ within ≤ file.durationSeconds ∧
        audioFraction timeline file.bookFileId within = some frac := by
  obtain ⟨selected, sublist, nonempty, positive, rfl⟩ := timeline_built built
  have distinctFiles : ((concatenated 0 selected).map (·.bookFileId)).Nodup := by
    rw [concatenated_ids]
    exact distinct.sublist (sublist.map _)
  have lower : 0 ≤ seconds selected * frac := mul_nonneg positive.le nonneg
  have upper : seconds selected * frac ≤ 0 + seconds selected := by
    rw [zero_add]
    exact mul_le_of_le_one_right positive.le atMost
  obtain ⟨file, member, located, starts, ends⟩ :=
    file_at_concatenated 0 (seconds selected * frac) selected nonempty lower upper
  refine ⟨file, member, seconds selected * frac - file.startSeconds, ?_, by linarith,
    by linarith, ?_⟩
  · rw [mapFractionToAudio, if_neg, located]
    rw [not_or, not_not, not_le]
    exact ⟨⟨nonneg, atMost⟩, positive⟩
  · unfold audioFraction
    rw [find_own distinctFiles member]
    simp only [if_neg (not_le.mpr positive)]
    rw [min_eq_right (by linarith), max_eq_right (by linarith), add_sub_cancel,
      mul_div_cancel_left₀ _ positive.ne', clamp_of_mem nonneg atMost]

/-- A link over the files in sequence has a timeline when they have any length, and on the
timeline of any link both a fraction and a percent of the book round-trip. -/
theorem timeline_round_trip (all : List AudioFile) (link : Link)
    (distinct : (all.map (·.bookFileId)).Nodup) :
    (link.mode = .sequence → 0 < seconds all → ∃ timeline, audioTimeline all link = some timeline) ∧
      ∀ timeline, audioTimeline all link = some timeline →
        (∀ frac, 0 ≤ frac → frac ≤ 1 → ∃ file ∈ timeline.files, ∃ within,
          mapFractionToAudio timeline frac = some (file.bookFileId, within) ∧
            0 ≤ within ∧ within ≤ file.durationSeconds ∧
            audioFraction timeline file.bookFileId within = some frac) ∧
        ∀ percent : Int, 0 ≤ percent → percent ≤ 100 → ∃ bookFileId within,
          mapPercentToAudio timeline percent = some (bookFileId, within) ∧
            mapAudioToPercent timeline bookFileId within = some percent := by
  constructor
  · intro mode positive
    have nonempty : all ≠ [] := by
      intro isNil
      rw [isNil] at positive
      exact absurd positive (lt_irrefl _)
    refine ⟨⟨concatenated 0 all, seconds all⟩, ?_⟩
    unfold audioTimeline
    simp only [mode]
    rw [if_neg]
    · rfl
    · rw [Bool.or_eq_true, not_or, List.isEmpty_iff, decide_eq_true_eq, not_le]
      exact ⟨nonempty, positive⟩
  · intro timeline built
    constructor
    · intro frac nonneg atMost
      exact fraction_round_trip built distinct nonneg atMost
    · intro percent nonneg atMost
      have nonnegFrac : (0 : ℚ) ≤ percent / 100 := by
        have cast : (0 : ℚ) ≤ percent := by exact_mod_cast nonneg
        linarith
      have atMostFrac : (percent : ℚ) / 100 ≤ 1 := by
        have cast : (percent : ℚ) ≤ 100 := by exact_mod_cast atMost
        linarith
      obtain ⟨file, -, within, located, -, -, back⟩ :=
        fraction_round_trip built distinct nonnegFrac atMostFrac
      refine ⟨file.bookFileId, within, ?_, ?_⟩
      · rw [mapPercentToAudio, if_neg (not_not.mpr ⟨nonneg, atMost⟩), located]
      · have whole : (100 : ℚ) * (percent / 100) = (percent : ℤ) := by ring
        rw [mapAudioToPercent, back, Option.map_some, whole, Int.floor_intCast,
          min_eq_right atMost, max_eq_right nonneg]

/-- Three files, the one in the middle without length. -/
theorem timeline_round_trip_empty_file :
    ∃ timeline, audioTimeline [⟨1, "a", 1, 1, 600⟩, ⟨2, "b", 1, 1, 0⟩, ⟨3, "c", 1, 1, 300⟩]
      ⟨.sequence, none, [], false, []⟩ = some timeline ∧ ∃ bookFileId within,
        mapPercentToAudio timeline 67 = some (bookFileId, within) ∧
          mapAudioToPercent timeline bookFileId within = some 67 := by
  have round := timeline_round_trip
    [⟨1, "a", 1, 1, 600⟩, ⟨2, "b", 1, 1, 0⟩, ⟨3, "c", 1, 1, 300⟩]
    ⟨.sequence, none, [], false, []⟩ (by decide)
  obtain ⟨timeline, built⟩ := round.1 rfl (by norm_num [seconds])
  exact ⟨timeline, built, (round.2 timeline built).2 67 (by decide) (by decide)⟩

end RoundTrip

end Omnibus.CrossFormat
