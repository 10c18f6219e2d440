import Mathlib.Data.List.Basic

/-!
# Unambiguous codes

A code whose words can be told off the front of whatever follows them. Then a run of words has
one reading, without a count and without separators.
-/

namespace Omnibus.Library.Codes

variable {α β : Type*}

/-- What follows a word never decides which word it is. -/
def Unambiguous (encode : α → List β) : Prop :=
  ∀ x y left right, encode x ++ left = encode y ++ right → x = y ∧ left = right

variable {encode : α → List β}

theorem Unambiguous.words (code : Unambiguous encode) (left right : List α)
    (sameLength : left.length = right.length) (leftRest rightRest : List β)
    (same : left.flatMap encode ++ leftRest = right.flatMap encode ++ rightRest) :
    left = right ∧ leftRest = rightRest := by
  induction left generalizing right with
  | nil =>
      cases right with
      | nil => exact ⟨rfl, same⟩
      | cons y ys => cases sameLength
  | cons x xs induction =>
      cases right with
      | nil => cases sameLength
      | cons y ys =>
          simp only [List.flatMap_cons, List.append_assoc] at same
          obtain ⟨rfl, later⟩ := code x y _ _ same
          obtain ⟨rfl, rest⟩ := induction ys (Nat.succ.inj sameLength) later
          exact ⟨rfl, rest⟩

theorem Unambiguous.run (code : Unambiguous encode) (nonempty : ∀ x, encode x ≠ [])
    (left right : List α) (same : left.flatMap encode = right.flatMap encode) : left = right := by
  induction left generalizing right with
  | nil =>
      cases right with
      | nil => rfl
      | cons y ys =>
          rw [List.flatMap_nil, List.flatMap_cons] at same
          exact absurd (List.append_eq_nil_iff.mp same.symm).1 (nonempty y)
  | cons x xs induction =>
      cases right with
      | nil =>
          rw [List.flatMap_nil, List.flatMap_cons] at same
          exact absurd (List.append_eq_nil_iff.mp same).1 (nonempty x)
      | cons y ys =>
          simp only [List.flatMap_cons] at same
          obtain ⟨rfl, later⟩ := code x y _ _ same
          rw [induction ys later]

end Omnibus.Library.Codes
