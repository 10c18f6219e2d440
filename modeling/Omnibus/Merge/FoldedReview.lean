import Omnibus.Merge.Reviews

/-!
# What a folded review says

The stars, the text and the notes of a folded review come from the side that has them, and
the dates other readers see come from the sides they could already see.
-/

namespace Omnibus.Merge.ReviewRow

variable (target source : ReviewRow)

/-- The text with the spoiler flag that marks it. -/
def content (review : ReviewRow) : Option (String × Bool) :=
  review.bodyMd.map fun body => (body, review.spoiler)

def Occurs (part whole : Option String) : Prop :=
  ∀ text ∈ part, ∃ joined ∈ whole, ∃ before after, joined = before ++ text ++ after

/-- An absent date comes before any other. -/
def laterThan : Option Int → Option Int → Bool
  | some after, some before => before < after
  | some _, none => true
  | none, _ => false

def visible : List ReviewRow := [target, source].filter isPublic

/-- A fold that drops nothing either side says. -/
structure Folds (folded : ReviewRow) : Prop where
  reader : folded.userId = target.userId
  starred : folded.halfStars.isSome = (target.halfStars.isSome || source.halfStars.isSome)
  stars : target.halfStars.isSome → source.halfStars.isSome → folded.halfStars =
    if laterThan source.ratedAt target.ratedAt then source.halfStars else target.halfStars
  oneStars : target.halfStars.isSome ≠ source.halfStars.isSome →
    folded.halfStars = target.halfStars.or source.halfStars
  texted : folded.bodyMd.isSome = (target.bodyMd.isSome || source.bodyMd.isSome)
  text : target.bodyMd.isSome → source.bodyMd.isSome → folded.content =
    if target.updatedAt < source.updatedAt then source.content else target.content
  oneText : target.bodyMd.isSome ≠ source.bodyMd.isSome →
    folded.content = target.content.or source.content
  targetNotes : Occurs target.notesMd folded.notesMd
  sourceNotes : Occurs source.notesMd folded.notesMd

section Sides

theorem rated_of_both (rated : target.halfStars.isSome = true)
    (also : source.halfStars.isSome = true) :
    ReviewRow.rated target source =
      if laterThan source.ratedAt target.ratedAt then source else target := by
  obtain ⟨stars, isStars⟩ := Option.isSome_iff_exists.mp rated
  obtain ⟨others, isOthers⟩ := Option.isSome_iff_exists.mp also
  unfold ReviewRow.rated
  rw [isStars, isOthers]
  cases before : target.ratedAt <;> cases after : source.ratedAt <;> simp [laterThan]

theorem rated_stars : (ReviewRow.rated target source).halfStars.isSome =
    (target.halfStars.isSome || source.halfStars.isSome) := by
  by_cases both : target.halfStars.isSome = true ∧ source.halfStars.isSome = true
  · rw [rated_of_both target source both.1 both.2]
    split <;> simp [both.1, both.2]
  · unfold ReviewRow.rated
    cases ours : target.halfStars <;> cases theirs : source.halfStars <;> simp_all

theorem rated_of_one (one : target.halfStars.isSome ≠ source.halfStars.isSome) :
    (ReviewRow.rated target source).halfStars = target.halfStars.or source.halfStars := by
  unfold ReviewRow.rated
  cases ours : target.halfStars <;> cases theirs : source.halfStars <;> simp_all

theorem written_of_both (ours : target.bodyMd.isSome = true)
    (theirs : source.bodyMd.isSome = true) :
    written target source = if target.updatedAt < source.updatedAt then source else target := by
  obtain ⟨body, isBody⟩ := Option.isSome_iff_exists.mp ours
  obtain ⟨other, isOther⟩ := Option.isSome_iff_exists.mp theirs
  simp only [written, isBody, isOther, gt_iff_lt]

theorem written_of_none (ours : target.bodyMd = none) (theirs : source.bodyMd = none) :
    (written target source).bodyMd = none := by
  have texts : ∀ review ∈ [target, source], review.bodyMd = none := by simp [ours, theirs]
  have side : written target source = ReviewRow.rated target source := by
    simp only [written, ours, theirs]
  apply texts _
  rw [side]
  unfold ReviewRow.rated
  split
  · split
    · simp
    · split <;> simp
    · simp
  · simp
  · simp

theorem written_text : (written target source).bodyMd.isSome =
    (target.bodyMd.isSome || source.bodyMd.isSome) := by
  by_cases both : target.bodyMd.isSome = true ∧ source.bodyMd.isSome = true
  · rw [written_of_both target source both.1 both.2]
    split <;> simp [both.1, both.2]
  · cases ours : target.bodyMd with
    | none =>
        cases theirs : source.bodyMd with
        | none => rw [written_of_none target source ours theirs]; rfl
        | some body => simp [written, ours, theirs]
    | some body =>
        cases theirs : source.bodyMd with
        | none => simp [written, ours, theirs]
        | some other => exact absurd ⟨by simp [ours], by simp [theirs]⟩ both

theorem written_of_one (one : target.bodyMd.isSome ≠ source.bodyMd.isSome) :
    (written target source).content = target.content.or source.content := by
  unfold written content
  cases ours : target.bodyMd <;> cases theirs : source.bodyMd <;> simp_all

end Sides

section Notes

theorem occurs_joined : Occurs target.notesMd (joinedNotes target source) ∧
    Occurs source.notesMd (joinedNotes target source) := by
  unfold Occurs joinedNotes
  cases ours : target.notesMd with
  | none =>
      cases theirs : source.notesMd with
      | none => exact ⟨nofun, nofun⟩
      | some second =>
          refine ⟨nofun, ?_⟩
          rintro _ ⟨⟩
          exact ⟨second, rfl, "", "", by simp⟩
  | some first =>
      cases theirs : source.notesMd with
      | none =>
          refine ⟨?_, nofun⟩
          rintro _ ⟨⟩
          exact ⟨first, rfl, "", "", by simp⟩
      | some second =>
          by_cases same : first = second
          · subst same
            simp only [if_true]
            constructor
            all_goals
              rintro _ ⟨⟩
              exact ⟨first, rfl, "", "", by simp⟩
          · simp only [if_neg same]
            constructor
            · rintro _ ⟨⟩
              exact ⟨_, rfl, "", "\n\n" ++ second, by simp [String.append_assoc]⟩
            · rintro _ ⟨⟩
              exact ⟨_, rfl, first ++ "\n\n", "", by simp⟩

end Notes

theorem settle_folds : Folds target source (settle target source) where
  reader := rfl
  starred := rated_stars target source
  stars rated also := by
    change (ReviewRow.rated target source).halfStars = _
    rw [rated_of_both target source rated also]
    split <;> rfl
  oneStars one := rated_of_one target source one
  texted := written_text target source
  text ours theirs := by
    change (written target source).content = _
    rw [written_of_both target source ours theirs]
    split <;> rfl
  oneText one := written_of_one target source one
  targetNotes := by
    unfold settle
    dsimp only
    split
    · exact (occurs_joined source target).2
    · exact (occurs_joined target source).1
  sourceNotes := by
    unfold settle
    dsimp only
    split
    · exact (occurs_joined source target).1
    · exact (occurs_joined target source).2

section Dates

/-- The date a review was begun and the date it was last changed, as other readers see
them. -/
def publicDates (seen : List ReviewRow) : Option Int × Option Int :=
  (((if seen.any (·.bodyMd.isSome) then seen.filter (·.bodyMd.isSome) else seen).map
      (·.restoredDates.2)).min?,
    (seen.map (·.updatedAt)).max?)

theorem settle_dates (isVisible : visible target source ≠ []) :
    ((settle target source).createdAt, some (settle target source).updatedAt) =
      publicDates (visible target source) := by
  have texts : ([target, source].filter (·.bodyMd.isSome)) =
      (visible target source).filter (·.bodyMd.isSome) := by
    rw [visible, List.filter_filter]
    apply List.filter_congr
    intro review _
    simp only [isPublic]
    cases review.bodyMd.isSome <;> simp
  have texted : (written target source).bodyMd.isSome =
      (visible target source).any (·.bodyMd.isSome) := by
    rw [written_text]
    have anyText : ([target, source].any (·.bodyMd.isSome)) =
        (visible target source).any (·.bodyMd.isSome) := by
      rw [visible, List.any_filter]
      refine congrArg (List.any [target, source]) (funext fun review => ?_)
      simp only [isPublic]
      cases review.bodyMd.isSome <;> simp
    rw [← anyText]
    simp
  have changed : ((visible target source).map (·.updatedAt)).max? ≠ none := by
    simpa [List.max?_eq_none_iff] using isVisible
  obtain ⟨latest, isLatest⟩ := Option.ne_none_iff_exists'.mp changed
  have seen : ([target, source].filter isPublic).isEmpty = false := by
    rw [List.isEmpty_eq_false_iff]
    exact isVisible
  unfold settle publicDates
  simp only [texted, texts, seen, Bool.false_eq_true, if_false]
  change (_, some (((visible target source).map (·.updatedAt)).max?.getD target.updatedAt)) = _
  rw [isLatest]
  rfl

end Dates

end Omnibus.Merge.ReviewRow
