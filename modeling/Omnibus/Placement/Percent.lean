import Mathlib.Algebra.BigOperators.Group.List.Basic
import Mathlib.Tactic.IntervalCases
import Omnibus.Library.Rounding
import Omnibus.Placement.Chapters

/-!
# The two derivations of a percent

`percent_at` divides in floating point over the stored spine stats, `book_percent` in integers
over the walked book. A float operation is the exact rational result at 53 significant bits.
-/

namespace Omnibus.Placement

open Omnibus.Library.Rounding

structure SpineItem where
  href : String
  visibleChars : Nat
  deriving DecidableEq, Repr

/-- The rows `replace_structure` stores, from the document at `index` on. -/
def spineRows (index charsBefore : Int) : List SpineItem → List SpineStatRow
  | [] => []
  | item :: rest =>
      ⟨index, item.href, item.visibleChars, charsBefore⟩ ::
        spineRows (index + 1) (charsBefore + item.visibleChars) rest

def storedStats (spine : List SpineItem) : List SpineStatRow := spineRows 0 0 spine

/-- An `f64` operation with the exact result `x`. -/
def f64 (x : ℚ) : ℚ := roundTo 53 x

/-- `i64::try_from(..).unwrap_or(i64::MAX)`. -/
def offsetChars (offsetInFile : Nat) : Int := min (offsetInFile : Int) (2 ^ 63 - 1)

def totalChars (stats : List SpineStatRow) : Int :=
  stats.foldl (fun total row => saturatingAdd total (max row.visibleChars 0)) 0

def fractionAt (stats : List SpineStatRow) (spineIndex : Int) (offsetInFile : Nat) : Option ℚ :=
  (stats.find? (·.spineIndex = spineIndex)).map fun row =>
    if totalChars stats ≤ 0 then 0
    else
      let reached := saturatingAdd (max row.charsBefore 0) (offsetChars offsetInFile)
      max 0 (min (f64 (f64 reached / f64 (totalChars stats))) 1)

def percentAt (stats : List SpineStatRow) (spineIndex : Int) (offsetInFile : Nat) : Option Int :=
  (fractionAt stats spineIndex offsetInFile).map fun fraction =>
    max 0 (min ⌊f64 (100 * fraction)⌋ 100)

/-- The characters before the document and in the book, the documents from `index` on. -/
def countChars (spineIndex index before total : Nat) : List SpineItem → Nat × Nat
  | [] => (before, total)
  | item :: rest =>
      countChars spineIndex (index + 1)
        (if index < spineIndex then before + item.visibleChars else before)
        (total + item.visibleChars) rest

def bookPercent (spine : List SpineItem) (spineIndex offsetInFile : Nat) : Nat :=
  let (before, total) := countChars spineIndex 0 0 0 spine
  if total = 0 then 0 else min (100 * (before + offsetInFile) / total) 100

def chars (spine : List SpineItem) : Nat := (spine.map (·.visibleChars)).sum

theorem count_chars (spineIndex index before total : Nat) (spine : List SpineItem) :
    countChars spineIndex index before total spine =
      (before + chars (spine.take (spineIndex - index)), total + chars spine) := by
  induction spine generalizing index before total with
  | nil => simp [countChars, chars]
  | cons item rest induction =>
      rw [countChars, induction]
      by_cases earlier : index < spineIndex
      · rw [if_pos earlier, show spineIndex - index = spineIndex - (index + 1) + 1 by omega]
        simp [chars, Nat.add_assoc]
      · rw [if_neg earlier, show spineIndex - index = 0 by omega,
          show spineIndex - (index + 1) = 0 by omega]
        simp [chars, Nat.add_assoc]

theorem find_spine_rows (index before : Int) (spine : List SpineItem) (i : Nat)
    (inSpine : i < spine.length) :
    ∃ row, (spineRows index before spine).find? (·.spineIndex = index + i) = some row ∧
      row.charsBefore = before + chars (spine.take i) := by
  induction spine generalizing index before i with
  | nil => simp at inSpine
  | cons item rest induction =>
      rw [spineRows]
      cases i with
      | zero => exact ⟨_, List.find?_cons_of_pos (by simp), by simp [chars]⟩
      | succ i =>
          obtain ⟨row, found, own⟩ := induction (index + 1) (before + item.visibleChars) i
            (by simpa using inSpine)
          refine ⟨row, ?_, ?_⟩
          · rw [List.find?_cons_of_neg (by simp; omega), ← found]
            congr 2
            funext row
            congr 2
            push_cast
            omega
          · rw [own]
            simp [chars]
            omega

theorem total_spine_rows (index before total : Int) (spine : List SpineItem) (nonneg : 0 ≤ total)
    (bounded : total + chars spine < 2 ^ 53) :
    (spineRows index before spine).foldl
      (fun total row => saturatingAdd total (max row.visibleChars 0)) total =
        total + chars spine := by
  induction spine generalizing index before total with
  | nil => simp [spineRows, chars]
  | cons item rest induction =>
      have cons : (chars (item :: rest) : Int) = item.visibleChars + chars rest := by
        simp [chars]
      have small : saturatingAdd total (max (item.visibleChars : Int) 0) =
          total + item.visibleChars := by
        rw [saturatingAdd]
        omega
      rw [spineRows, List.foldl_cons, small, induction _ _ _ (by omega) (by omega), cons]
      omega

/-- Where the rounded hundredfold of a fraction gets to `n`: half a grid step before `n` hundredths. -/
def leastFraction (n : Nat) : ℚ := ((n : ℚ) - 2 ^ ((Nat.clog 2 n : ℤ) - 54)) / 100

/-- The quotient is far enough for its rounded value to be a fraction of `n` percent or more. -/
def ReachesPercent (n : Nat) (quotient : ℚ) : Prop := Reaches 53 (leastFraction n) quotient

instance (n : Nat) (quotient : ℚ) : Decidable (ReachesPercent n quotient) := by
  unfold ReachesPercent
  infer_instance

theorem clog_percent (n : Nat) (most : n ≤ 100) : Nat.clog 2 n ≤ 7 := by
  have mono := Nat.clog_mono_right 2 most
  have hundred : Nat.clog 2 100 = 7 := by decide
  omega

theorem least_fraction_pos (n : Nat) (least : 1 ≤ n) (most : n ≤ 100) : 0 < leastFraction n := by
  have small : (2 : ℚ) ^ ((Nat.clog 2 n : ℤ) - 54) < 1 :=
    zpow_lt_one_of_neg₀ (by norm_num) (by have := clog_percent n most; omega)
  have one : (1 : ℚ) ≤ n := by exact_mod_cast least
  rw [leastFraction]
  apply div_pos (by linarith) (by norm_num)

/-- A whole number lies on the grid with an even mantissa, so a tie below it is rounded to it. -/
theorem whole_le_f64 (n : Nat) (least : 1 ≤ n) (most : n ≤ 100) (x : ℚ) (nonneg : 0 ≤ x) :
    (n : ℚ) ≤ f64 x ↔ (n : ℚ) - 2 ^ ((Nat.clog 2 n : ℤ) - 54) ≤ x := by
  have log := clog_percent n most
  obtain ⟨shift, exponent⟩ : ∃ shift : ℕ, (53 : ℤ) - Nat.clog 2 n = shift + 1 :=
    ⟨52 - Nat.clog 2 n, by omega⟩
  have unit : stepBelow 53 (n : ℚ) = (2 ^ (shift + 1))⁻¹ := by
    rw [stepBelow, Int.clog_natCast, ← zpow_natCast, ← zpow_neg]
    congr 1
    push_cast
    omega
  have half : (2 : ℚ) ^ ((Nat.clog 2 n : ℤ) - 54) = 1 / 2 * (2 ^ (shift + 1))⁻¹ := by
    rw [show ((Nat.clog 2 n : ℤ) - 54) = -1 + -((shift + 1 : ℕ) : ℤ) by push_cast; omega,
      ← two_zpow_add, zpow_neg, zpow_neg, zpow_natCast, zpow_one]
    norm_num
  have power : (0 : ℚ) < 2 ^ (shift + 1) := by positivity
  have whole : (n : ℚ) / (2 ^ (shift + 1))⁻¹ = ((n * 2 ^ (shift + 1) : ℤ) : ℚ) := by
    rw [div_inv_eq_mul]
    push_cast
    rfl
  have even : ((n : ℤ) * 2 ^ (shift + 1)) % 2 = 0 := by
    rw [pow_succ, ← mul_assoc]
    exact Int.mul_emod_left _ 2
  rw [f64, le_round_to 53 (by norm_num) n x (by exact_mod_cast least) nonneg, Reaches, unit, whole,
    Int.ceil_intCast, ReachesMiddle, if_pos even, half, ← whole, div_inv_eq_mul, div_inv_eq_mul]
  constructor
  · intro reached
    have scaled := mul_le_mul_of_nonneg_right reached (inv_pos.mpr power).le
    rw [sub_mul, mul_assoc, mul_assoc, mul_inv_cancel₀ power.ne', mul_one, mul_one] at scaled
    exact scaled
  · intro reached
    have scaled := mul_le_mul_of_nonneg_right reached power.le
    rw [sub_mul, mul_assoc, inv_mul_cancel₀ power.ne', mul_one] at scaled
    exact scaled

theorem percent_reached (n : Nat) (least : 1 ≤ n) (most : n ≤ 100) (quotient : ℚ)
    (nonneg : 0 ≤ quotient) :
    (n : ℤ) ≤ ⌊f64 (100 * f64 quotient)⌋ ↔ ReachesPercent n quotient := by
  have fraction : 0 ≤ f64 quotient := round_to_nonneg 53 (by norm_num) quotient
  rw [Int.le_floor, Int.cast_natCast, whole_le_f64 n least most _ (by linarith), ReachesPercent,
    ← le_round_to 53 (by norm_num) _ quotient (least_fraction_pos n least most) nonneg,
    leastFraction, div_le_iff₀ (by norm_num), mul_comm, f64]

theorem hundredths_reached (n reached total : Nat) (some' : 0 < total) :
    n ≤ 100 * reached / total ↔ (n : ℚ) / 100 ≤ (reached : ℚ) / total := by
  have positive : (0 : ℚ) < total := by exact_mod_cast some'
  rw [Nat.le_div_iff_mul_le some', div_le_div_iff₀ (by norm_num) positive]
  constructor
  · intro le
    have cast : ((n * total : ℕ) : ℚ) ≤ ((100 * reached : ℕ) : ℚ) := by exact_mod_cast le
    push_cast at cast
    linarith
  · intro le
    have cast : ((n * total : ℕ) : ℚ) ≤ ((100 * reached : ℕ) : ℚ) := by
      push_cast
      linarith
    exact_mod_cast cast

theorem percent_eq_iff (left : Int) (right : Nat) :
    max 0 (min left 100) = ((min right 100 : ℕ) : Int) ↔
      ∀ n : Nat, 1 ≤ n → n ≤ 100 → ((n : ℤ) ≤ left ↔ n ≤ right) := by
  constructor
  · intro same n least most
    omega
  · intro same
    by_contra different
    obtain less | more : max 0 (min left 100) < ((min right 100 : ℕ) : Int) ∨
        ((min right 100 : ℕ) : Int) < max 0 (min left 100) := by omega
    · have reached := same (min right 100) (by omega) (by omega)
      omega
    · have reached := same (min left 100).toNat (by omega) (by omega)
      omega

theorem f64_natural (n : Nat) (small : n < 2 ^ 53) : f64 (n : ℚ) = n :=
  round_to_natural 53 n small

theorem f64_zero : f64 0 = 0 := by
  have zero := f64_natural 0 (by norm_num)
  rwa [Nat.cast_zero] at zero

theorem chars_to_place (spine : List SpineItem) (i : Nat) (inSpine : i < spine.length) :
    chars (spine.take i) + spine[i].visibleChars ≤ chars spine := by
  have split : chars spine = chars (spine.take i) + chars (spine.drop i) := by
    rw [chars, chars, chars, ← List.sum_append, ← List.map_append, List.take_append_drop]
  have own : chars (spine.drop i) = spine[i].visibleChars + chars (spine.drop (i + 1)) := by
    rw [List.drop_eq_getElem_cons inSpine, chars, List.map_cons, List.sum_cons, chars]
  omega

theorem fraction_at_stored (spine : List SpineItem) (i k : Nat) (inSpine : i < spine.length)
    (inItem : k ≤ spine[i].visibleChars) (bounded : chars spine < 2 ^ 53) :
    fractionAt (storedStats spine) i k =
      some (f64 (((chars (spine.take i) + k : ℕ) : ℚ) / chars spine)) := by
  obtain ⟨row, found, own⟩ := find_spine_rows 0 0 spine i inSpine
  rw [zero_add] at found own
  have total : totalChars (storedStats spine) = chars spine := by
    rw [totalChars, storedStats, total_spine_rows 0 0 0 spine le_rfl (by omega), zero_add]
  have place := chars_to_place spine i inSpine
  have reached : saturatingAdd (max row.charsBefore 0) (offsetChars k) =
      ((chars (spine.take i) + k : ℕ) : Int) := by
    rw [saturatingAdd, offsetChars, own]
    push_cast
    omega
  rw [fractionAt, storedStats, found, Option.map_some, ← storedStats, total]
  congr 1
  by_cases empty : chars spine = 0
  · rw [if_pos (by omega), empty, Nat.cast_zero, div_zero, f64, roundTo, if_neg (lt_irrefl 0)]
  · rw [if_neg (by omega)]
    dsimp only
    rw [reached, Int.cast_natCast, Int.cast_natCast, f64_natural _ (by omega),
      f64_natural _ bounded]
    have positive : (0 : ℚ) < chars spine := by exact_mod_cast Nat.pos_of_ne_zero empty
    have le : ((chars (spine.take i) + k : ℕ) : ℚ) / chars spine ≤ 1 := by
      rw [div_le_one positive]
      exact_mod_cast (by omega : chars (spine.take i) + k ≤ chars spine)
    have least := round_to_nonneg 53 (by norm_num)
      (((chars (spine.take i) + k : ℕ) : ℚ) / chars spine)
    have most := round_to_le_one 53 (by norm_num) _ le
    rw [f64, min_eq_left most, max_eq_right least]

/-- The two percents of a place are equal exactly when, of every whole percent, the quotient has
reached it just when the place has. -/
theorem percents_agree_iff (spine : List SpineItem) (i k : Nat) (inSpine : i < spine.length)
    (inItem : k ≤ spine[i].visibleChars) (bounded : chars spine < 2 ^ 53) :
    percentAt (storedStats spine) i k = some (bookPercent spine i k : Int) ↔
      ∀ n : Nat, 1 ≤ n → n ≤ 100 →
        ((n : ℚ) / 100 ≤ ((chars (spine.take i) + k : ℕ) : ℚ) / chars spine ↔
          ReachesPercent n (((chars (spine.take i) + k : ℕ) : ℚ) / chars spine)) := by
  have nonneg : 0 ≤ ((chars (spine.take i) + k : ℕ) : ℚ) / chars spine := by positivity
  rw [percentAt, fraction_at_stored spine i k inSpine inItem bounded, Option.map_some,
    Option.some.injEq, bookPercent, count_chars]
  simp only [zero_add, Nat.sub_zero]
  by_cases empty : chars spine = 0
  · rw [if_pos empty]
    apply iff_of_true
    · rw [empty, Nat.cast_zero, div_zero, f64_zero, mul_zero, f64_zero]
      rfl
    · intro n least most
      have positive : (0 : ℚ) < (n : ℚ) / 100 := by
        have one : (1 : ℚ) ≤ n := by exact_mod_cast least
        linarith
      rw [← percent_reached n least most _ nonneg, empty, Nat.cast_zero, div_zero, f64_zero,
        mul_zero, f64_zero, Int.floor_zero]
      apply iff_of_false
      · exact not_le.mpr positive
      · omega
  · rw [if_neg empty, percent_eq_iff]
    apply forall_congr'
    intro n
    apply forall_congr'
    intro least
    apply forall_congr'
    intro most
    rw [percent_reached n least most _ nonneg,
      hundredths_reached n _ _ (Nat.pos_of_ne_zero empty)]
    exact Iff.comm

theorem percents_agree_iff_half :
    percentAt (storedStats [⟨"one.xhtml", 4⟩, ⟨"two.xhtml", 4⟩]) (1 : ℕ) 0 =
      some (bookPercent [⟨"one.xhtml", 4⟩, ⟨"two.xhtml", 4⟩] 1 0 : Int) :=
  (percents_agree_iff [⟨"one.xhtml", 4⟩, ⟨"two.xhtml", 4⟩] 1 0 (by decide) (by decide)
    (by decide)).mpr (by decide +kernel)

/-- At 29 of 100 characters the float product is just below 29. -/
theorem percents_differ_at_29 :
    percentAt (storedStats [⟨"one.xhtml", 100⟩]) 0 29 = some 28 ∧
      bookPercent [⟨"one.xhtml", 100⟩] 0 29 = 29 := by
  decide +kernel

end Omnibus.Placement
