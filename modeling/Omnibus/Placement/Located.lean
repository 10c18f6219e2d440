import Mathlib.Algebra.Order.Floor.Ring
import Mathlib.Data.Rat.Floor
import Omnibus.Placement.Percent

/-!
# Text located by the stored spine stats

`epub_structure.rs` over exact rationals: the rows `replace_structure` writes, the fraction of a
place and the place of a fraction.
-/

namespace Omnibus.Placement

structure SpineStat where
  spineIndex : Int
  href : String
  visibleChars : Nat
  deriving DecidableEq, Repr

/-- The rows `replace_structure` writes, with `charsBefore` characters before the first. -/
def replacedRows (charsBefore : Int) : List SpineStat → List SpineStatRow
  | [] => []
  | stat :: rest =>
      ⟨stat.spineIndex, stat.href, stat.visibleChars, charsBefore⟩ ::
        replacedRows (charsBefore + stat.visibleChars) rest

/-- `ORDER BY spine_index`. -/
def getSpineStats (stored : List SpineStatRow) : List SpineStatRow :=
  stored.insertionSort (·.spineIndex ≤ ·.spineIndex)

/-- `fraction_at` with an exact division. -/
def exactFractionAt (stats : List SpineStatRow) (spineIndex : Int) (offsetInFile : Nat) :
    Option ℚ :=
  (stats.find? (·.spineIndex = spineIndex)).map fun row =>
    if totalChars stats ≤ 0 then 0
    else
      let reached := saturatingAdd (max row.charsBefore 0) (offsetChars offsetInFile)
      max 0 (min ((reached : ℚ) / totalChars stats) 1)

/-- `max_by_key(|s| s.chars_before)`, the later of equals. -/
def furthest (rows : List SpineStatRow) : Option SpineStatRow :=
  rows.foldl (fun best row =>
    match best with
    | none => some row
    | some held => if held.charsBefore ≤ row.charsBefore then some row else some held) none

/-- `position_at_fraction` with an exact product. The cast to `i64` cuts a product that is neither
negative nor above the total. -/
def positionAtFraction (stats : List SpineStatRow) (frac : ℚ) : Option (Int × Nat) :=
  let total := totalChars stats
  if total ≤ 0 then none
  else
    let reached := max 0 (min ⌊max 0 (min frac 1) * total⌋ (total - 1))
    (furthest (stats.filter fun row =>
        row.visibleChars > 0 && max row.charsBefore 0 ≤ reached)).map fun row =>
      (row.spineIndex, (reached - max row.charsBefore 0).toNat)

def textChars (spine : List SpineStat) : Nat := (spine.map (·.visibleChars)).sum

theorem text_chars_cons (stat : SpineStat) (rest : List SpineStat) :
    textChars (stat :: rest) = stat.visibleChars + textChars rest := by
  simp [textChars]

section Furthest

theorem furthest_append (rows : List SpineStatRow) (row : SpineStatRow) :
    furthest (rows ++ [row]) = match furthest rows with
      | none => some row
      | some held => if held.charsBefore ≤ row.charsBefore then some row else some held := by
  unfold furthest
  rw [List.foldl_append, List.foldl_cons, List.foldl_nil]

theorem furthest_mem {rows : List SpineStatRow} {row : SpineStatRow}
    (found : furthest rows = some row) : row ∈ rows := by
  induction rows using List.reverseRecOn generalizing row with
  | nil => cases found
  | append_singleton front last induction =>
      rw [furthest_append] at found
      split at found
      · rw [Option.some_inj] at found
        simp [found]
      · rename_i held isHeld
        split_ifs at found
        · rw [Option.some_inj] at found
          simp [found]
        · rw [Option.some_inj] at found
          rw [← found]
          exact List.mem_append_left _ (induction isHeld)

theorem furthest_alone {rows : List SpineStatRow} {row : SpineStatRow} (member : row ∈ rows)
    (alone : ∀ other ∈ rows, other = row ∨ other.charsBefore < row.charsBefore) :
    furthest rows = some row := by
  induction rows using List.reverseRecOn with
  | nil => cases member
  | append_singleton front last induction =>
      rw [furthest_append]
      by_cases earlier : row ∈ front
      · rw [induction earlier fun other isFront => alone other (List.mem_append_left _ isFront)]
        rcases alone last (by simp) with same | before
        · rw [same]
          simp
        · simp [not_le.mpr before]
      · have isLast : row = last := by simpa [earlier] using member
        cases held : furthest front with
        | none => simp [isLast]
        | some best =>
            have inFront := furthest_mem held
            have distinct : best ≠ row := by
              intro same
              rw [same] at inFront
              exact earlier inFront
            have before := (alone best (List.mem_append_left _ inFront)).resolve_left distinct
            rw [isLast] at before
            simp [before.le, isLast]

end Furthest

section Written

variable {spine : List SpineStat} {stats : List SpineStatRow}

/-- The row of document `i` among the written ones. -/
def rowOf (before : Int) (spine : List SpineStat) (i : Nat) (inSpine : i < spine.length) :
    SpineStatRow :=
  ⟨spine[i].spineIndex, spine[i].href, spine[i].visibleChars, before + textChars (spine.take i)⟩

theorem mem_replaced_rows (before : Int) (spine : List SpineStat) (row : SpineStatRow) :
    row ∈ replacedRows before spine ↔
      ∃ i, ∃ inSpine : i < spine.length, row = rowOf before spine i inSpine := by
  induction spine generalizing before with
  | nil => simp [replacedRows]
  | cons stat rest induction =>
      rw [replacedRows, List.mem_cons, induction]
      constructor
      · intro member
        rcases member with isHead | ⟨i, inRest, isRow⟩
        · exact ⟨0, by simp, by simp [isHead, rowOf, textChars]⟩
        · refine ⟨i + 1, by simpa using inRest, ?_⟩
          rw [isRow]
          simp [rowOf, text_chars_cons, add_assoc]
      · intro ⟨i, inSpine, isRow⟩
        cases i with
        | zero =>
            left
            simp [isRow, rowOf, textChars]
        | succ i =>
            right
            refine ⟨i, by simpa using inSpine, ?_⟩
            rw [isRow]
            simp [rowOf, text_chars_cons, add_assoc]

theorem replaced_rows_indices (before : Int) (spine : List SpineStat) :
    (replacedRows before spine).map (·.spineIndex) = spine.map (·.spineIndex) := by
  induction spine generalizing before with
  | nil => rfl
  | cons stat rest induction =>
      rw [replacedRows, List.map_cons, List.map_cons, induction]

theorem replaced_rows_chars (before : Int) (spine : List SpineStat) :
    (replacedRows before spine).map (·.visibleChars) =
      spine.map fun stat => (stat.visibleChars : Int) := by
  induction spine generalizing before with
  | nil => rfl
  | cons stat rest induction =>
      rw [replacedRows, List.map_cons, List.map_cons, induction]

theorem cast_text_chars (spine : List SpineStat) :
    (spine.map fun stat => (stat.visibleChars : Int)).sum = textChars spine := by
  induction spine with
  | nil => rfl
  | cons stat rest induction =>
      rw [List.map_cons, List.sum_cons, induction, text_chars_cons, Nat.cast_add]

theorem total_of_fits (rows : List SpineStatRow) (start : Int) (nonneg : 0 ≤ start)
    (counts : ∀ row ∈ rows, 0 ≤ row.visibleChars)
    (fits : start + (rows.map (·.visibleChars)).sum ≤ 2 ^ 63 - 1) :
    rows.foldl (fun total row => saturatingAdd total (max row.visibleChars 0)) start =
      start + (rows.map (·.visibleChars)).sum := by
  induction rows generalizing start with
  | nil => simp
  | cons row rest induction =>
      have own := counts row (by simp)
      have later : 0 ≤ (rest.map (·.visibleChars)).sum := by
        apply List.sum_nonneg
        intro count isCount
        rcases List.mem_map.mp isCount with ⟨other, isOther, rfl⟩
        exact counts other (List.mem_cons_of_mem _ isOther)
      rw [List.map_cons, List.sum_cons] at fits ⊢
      have small : saturatingAdd start (max row.visibleChars 0) = start + row.visibleChars := by
        rw [saturatingAdd]
        omega
      rw [List.foldl_cons, small, induction _ (by omega)
        (fun other isOther => counts other (List.mem_cons_of_mem _ isOther)) (by omega), add_assoc]

/-- The stats of one file as they are read back: the written rows in some order. -/
structure ReadBack (spine : List SpineStat) (stats : List SpineStatRow) : Prop where
  distinct : (spine.map (·.spineIndex)).Nodup
  fits : textChars spine ≤ 2 ^ 63 - 1
  written : stats.Perm (replacedRows 0 spine)

theorem ReadBack.total (read : ReadBack spine stats) : totalChars stats = textChars spine := by
  have sum : (stats.map (·.visibleChars)).sum = textChars spine := by
    rw [(read.written.map _).sum_eq, replaced_rows_chars, cast_text_chars]
  have counts : ∀ row ∈ stats, 0 ≤ row.visibleChars := by
    intro row member
    obtain ⟨i, inSpine, isRow⟩ := (mem_replaced_rows 0 spine row).mp (read.written.mem_iff.mp member)
    rw [isRow]
    exact Int.natCast_nonneg _
  have fits := read.fits
  rw [totalChars, total_of_fits stats 0 le_rfl counts (by rw [sum]; omega), sum, zero_add]

theorem ReadBack.find (read : ReadBack spine stats) (i : Nat) (inSpine : i < spine.length) :
    stats.find? (·.spineIndex = spine[i].spineIndex) = some (rowOf 0 spine i inSpine) := by
  have indices : (stats.map (·.spineIndex)).Nodup := by
    rw [(read.written.map _).nodup_iff, replaced_rows_indices]
    exact read.distinct
  have member : rowOf 0 spine i inSpine ∈ stats :=
    read.written.mem_iff.mpr ((mem_replaced_rows 0 spine _).mpr ⟨i, inSpine, rfl⟩)
  cases found : stats.find? (·.spineIndex = spine[i].spineIndex) with
  | none =>
      have absent := List.find?_eq_none.mp found _ member
      simp [rowOf] at absent
  | some row =>
      have same := List.find?_some found
      rw [decide_eq_true_eq] at same
      rw [List.inj_on_of_nodup_map indices (List.mem_of_find?_eq_some found) member same]

theorem text_before_later (spine : List SpineStat) {i j : Nat} (before : i < j)
    (inSpine : i < spine.length) :
    textChars (spine.take i) + spine[i].visibleChars ≤ textChars (spine.take j) := by
  have upTo : textChars (spine.take (i + 1)) =
      textChars (spine.take i) + spine[i].visibleChars := by
    rw [List.take_add_one, List.getElem?_eq_getElem inSpine]
    simp only [textChars, List.map_append, List.sum_append, Option.toList_some, List.map_cons,
      List.map_nil, List.sum_cons, List.sum_nil, Nat.add_zero]
  have split : spine.take j = spine.take (i + 1) ++ (spine.take j).drop (i + 1) := by
    conv_lhs => rw [← List.take_append_drop (i + 1) (spine.take j)]
    rw [List.take_take, Nat.min_eq_left before]
  rw [split]
  rw [← upTo]
  simp [textChars]

theorem text_to_place (spine : List SpineStat) {i : Nat} (inSpine : i < spine.length) :
    textChars (spine.take i) + spine[i].visibleChars ≤ textChars spine := by
  have split := text_before_later (spine ++ [⟨0, "", 0⟩]) inSpine
    (by rw [List.length_append]; omega)
  rw [List.take_append_of_le_length inSpine.le, List.getElem_append_left inSpine,
    List.take_left] at split
  exact split

theorem document_of (spine : List SpineStat) (reached : Nat) (inBook : reached < textChars spine) :
    ∃ i, ∃ inSpine : i < spine.length, textChars (spine.take i) ≤ reached ∧
      reached < textChars (spine.take i) + spine[i].visibleChars := by
  induction spine generalizing reached with
  | nil => simp [textChars] at inBook
  | cons stat rest induction =>
      rw [text_chars_cons] at inBook
      by_cases here : reached < stat.visibleChars
      · exact ⟨0, by simp, by simp [textChars], by simpa [textChars] using here⟩
      · obtain ⟨i, inRest, lower, upper⟩ := induction (reached - stat.visibleChars) (by omega)
        refine ⟨i + 1, by simpa using inRest, ?_, ?_⟩
        · rw [List.take_succ_cons, text_chars_cons]
          omega
        · rw [List.take_succ_cons, text_chars_cons, List.getElem_cons_succ]
          omega

theorem ReadBack.furthest (read : ReadBack spine stats) {i reached : Nat}
    (inSpine : i < spine.length) (lower : textChars (spine.take i) ≤ reached)
    (upper : reached < textChars (spine.take i) + spine[i].visibleChars) :
    furthest (stats.filter fun row =>
        row.visibleChars > 0 && max row.charsBefore 0 ≤ (reached : Int)) =
      some (rowOf 0 spine i inSpine) := by
  apply furthest_alone
  · rw [List.mem_filter]
    constructor
    · exact read.written.mem_iff.mpr ((mem_replaced_rows 0 spine _).mpr ⟨i, inSpine, rfl⟩)
    · rw [Bool.and_eq_true, decide_eq_true_eq, decide_eq_true_eq]
      simp only [rowOf]
      omega
  · intro other isKept
    rw [List.mem_filter] at isKept
    obtain ⟨j, inSpine', isRow⟩ :=
      (mem_replaced_rows 0 spine other).mp (read.written.mem_iff.mp isKept.1)
    have kept := isKept.2
    rw [Bool.and_eq_true, decide_eq_true_eq, decide_eq_true_eq, isRow] at kept
    rw [isRow]
    simp only [rowOf] at kept ⊢
    rcases Nat.lt_trichotomy i j with later | same | earlier
    · have past := text_before_later spine later inSpine
      omega
    · subst same
      exact .inl rfl
    · have before := text_before_later spine earlier inSpine'
      right
      omega

theorem ReadBack.fraction (read : ReadBack spine stats) {i k : Nat} (inSpine : i < spine.length)
    (inItem : k < spine[i].visibleChars) :
    exactFractionAt stats spine[i].spineIndex k =
      some (((textChars (spine.take i) + k : ℕ) : ℚ) / textChars spine) := by
  have fits := read.fits
  have upTo := text_to_place spine inSpine
  have positive : (0 : ℚ) < textChars spine := by
    exact_mod_cast (by omega : 0 < textChars spine)
  have reached : saturatingAdd (max (0 + (textChars (spine.take i) : Int)) 0) (offsetChars k) =
      ((textChars (spine.take i) + k : ℕ) : Int) := by
    rw [saturatingAdd, offsetChars]
    push_cast
    omega
  have nonneg : (0 : ℚ) ≤ ((textChars (spine.take i) + k : ℕ) : ℚ) / textChars spine := by
    positivity
  have atMost : ((textChars (spine.take i) + k : ℕ) : ℚ) / textChars spine ≤ 1 := by
    rw [div_le_one positive]
    exact_mod_cast (by omega : textChars (spine.take i) + k ≤ textChars spine)
  rw [exactFractionAt, read.find i inSpine, Option.map_some, read.total, if_neg (by omega)]
  simp only [rowOf]
  rw [reached, Int.cast_natCast, Int.cast_natCast, min_eq_left atMost, max_eq_right nonneg]

theorem reached_char (total : Nat) (some' : 0 < total) {frac : ℚ} (nonneg : 0 ≤ frac)
    (atMost : frac ≤ 1) :
    ∃ reached : Nat, reached < total ∧
      max 0 (min ⌊max 0 (min frac 1) * ((total : Int) : ℚ)⌋ ((total : Int) - 1)) = reached ∧
      (reached : ℚ) ≤ frac * total ∧ (frac < 1 → frac * total < reached + 1) ∧
      (frac = 1 → reached + 1 = total) := by
  have positive : (0 : ℚ) < total := by exact_mod_cast some'
  have product : 0 ≤ frac * total := mul_nonneg nonneg positive.le
  have below : (⌊frac * total⌋₊ : ℚ) ≤ frac * total := Nat.floor_le product
  have above : frac * total < ⌊frac * total⌋₊ + 1 := Nat.lt_floor_add_one _
  have floor : ⌊frac * (total : ℚ)⌋ = (⌊frac * (total : ℚ)⌋₊ : Int) :=
    (Int.natCast_floor_eq_floor product).symm
  rw [min_eq_left atMost, max_eq_right nonneg, Int.cast_natCast, floor]
  refine ⟨min ⌊frac * total⌋₊ (total - 1), by omega, by omega, ?_, ?_, ?_⟩
  · have least : ((min ⌊frac * (total : ℚ)⌋₊ (total - 1) : ℕ) : ℚ) ≤ ⌊frac * (total : ℚ)⌋₊ := by
      exact_mod_cast Nat.min_le_left _ _
    exact least.trans below
  · intro inside
    have short : frac * total < total := by
      have less := mul_lt_mul_of_pos_right inside positive
      rwa [one_mul] at less
    have floorShort : ⌊frac * (total : ℚ)⌋₊ < total := (Nat.floor_lt product).mpr short
    rw [Nat.min_eq_left (by omega)]
    exact above
  · intro isOne
    rw [isOne, one_mul, Nat.floor_natCast]
    omega

theorem ReadBack.position (read : ReadBack spine stats) (some' : 0 < textChars spine) {frac : ℚ}
    (nonneg : 0 ≤ frac) (atMost : frac ≤ 1) :
    ∃ i, ∃ inSpine : i < spine.length, ∃ k < spine[i].visibleChars,
      positionAtFraction stats frac = some (spine[i].spineIndex, k) ∧
      ((textChars (spine.take i) + k : ℕ) : ℚ) ≤ frac * textChars spine ∧
      (frac < 1 → frac * textChars spine < ((textChars (spine.take i) + k : ℕ) : ℚ) + 1) ∧
      (frac = 1 → textChars (spine.take i) + k + 1 = textChars spine) := by
  obtain ⟨reached, inBook, isReached, below, above, final⟩ :=
    reached_char (textChars spine) some' nonneg atMost
  obtain ⟨i, inSpine, lower, upper⟩ := document_of spine reached inBook
  have own : textChars (spine.take i) + (reached - textChars (spine.take i)) = reached := by omega
  refine ⟨i, inSpine, reached - textChars (spine.take i), by omega, ?_, ?_, ?_, ?_⟩
  · unfold positionAtFraction
    simp only [read.total]
    rw [if_neg (by omega), isReached, read.furthest inSpine lower upper, Option.map_some]
    simp only [rowOf]
    congr 2
    omega
  · rw [own]
    exact below
  · rw [own]
    exact above
  · rw [own]
    exact final

theorem own_fraction {count total : Nat} (inBook : count < total) :
    0 ≤ (count : ℚ) / total ∧ (count : ℚ) / total < 1 ∧ (count : ℚ) / total * total = count := by
  have positive : (0 : ℚ) < total := by exact_mod_cast (by omega : 0 < total)
  refine ⟨by positivity, ?_, div_mul_cancel₀ _ positive.ne'⟩
  rw [div_lt_one positive]
  exact_mod_cast inBook

theorem index_own {spine : List SpineStat} (distinct : (spine.map (·.spineIndex)).Nodup)
    {i j : Nat} (inSpine : i < spine.length) (inSpine' : j < spine.length)
    (same : spine[i].spineIndex = spine[j].spineIndex) : i = j := by
  have injective := List.nodup_iff_injective_get.mp distinct
  have equal := @injective ⟨i, by simpa using inSpine⟩ ⟨j, by simpa using inSpine'⟩
    (by simpa using same)
  exact congrArg Fin.val equal

theorem place_le {i j k l : Nat} (inSpine : j < spine.length)
    (inItem : l < spine[j].visibleChars)
    (le : textChars (spine.take i) + k ≤ textChars (spine.take j) + l) :
    i < j ∨ i = j ∧ k ≤ l := by
  rcases Nat.lt_trichotomy i j with earlier | same | later
  · exact .inl earlier
  · subst same
    exact .inr ⟨rfl, by omega⟩
  · have before := text_before_later spine later inSpine
    omega

theorem read_back (spine : List SpineStat) (distinct : (spine.map (·.spineIndex)).Nodup)
    (fits : textChars spine ≤ 2 ^ 63 - 1) :
    ReadBack spine (getSpineStats (replacedRows 0 spine)) :=
  ⟨distinct, fits, List.perm_insertionSort _ _⟩

theorem ReadBack.character (read : ReadBack spine stats) (some' : 0 < textChars spine)
    {i k : Nat} (inSpine : i < spine.length) (inItem : k < spine[i].visibleChars) :
    ∃ frac, exactFractionAt stats spine[i].spineIndex k = some frac ∧
      positionAtFraction stats frac = some (spine[i].spineIndex, k) := by
  have upTo := text_to_place spine inSpine
  have own := own_fraction (by omega : textChars (spine.take i) + k < textChars spine)
  obtain ⟨j, inSpine', l, inOther, located, below, above, -⟩ :=
    read.position some' own.1 own.2.1.le
  refine ⟨_, read.fraction inSpine inItem, ?_⟩
  rw [own.2.2] at below above
  have lower : textChars (spine.take j) + l ≤ textChars (spine.take i) + k := by
    exact_mod_cast below
  have upper : textChars (spine.take i) + k < textChars (spine.take j) + l + 1 := by
    have short := above own.2.1
    exact_mod_cast short
  have same : textChars (spine.take i) + k = textChars (spine.take j) + l := by omega
  have forth := place_le inSpine' inOther same.le
  have back := place_le inSpine inItem same.ge
  have here : i = j := by omega
  subst here
  rw [located, show l = k by omega]

theorem ReadBack.located (read : ReadBack spine stats) (some' : 0 < textChars spine)
    {frac : ℚ} (nonneg : 0 ≤ frac) (atMost : frac ≤ 1) :
    ∃ i, ∃ inSpine : i < spine.length, ∃ k < spine[i].visibleChars,
      positionAtFraction stats frac = some (spine[i].spineIndex, k) ∧
      ∃ back, exactFractionAt stats spine[i].spineIndex k = some back ∧ back ≤ frac ∧
        (frac < 1 → frac < back + 1 / textChars spine) ∧
        (frac = 1 → textChars (spine.take i) + k + 1 = textChars spine) := by
  have positive : (0 : ℚ) < textChars spine := by exact_mod_cast some'
  obtain ⟨i, inSpine, k, inItem, located, below, above, final⟩ :=
    read.position some' nonneg atMost
  refine ⟨i, inSpine, k, inItem, located, _, read.fraction inSpine inItem, ?_, ?_, final⟩
  · rw [div_le_iff₀ positive]
    exact below
  · intro inside
    rw [← add_div, lt_div_iff₀ positive]
    exact above inside

theorem ReadBack.in_order (read : ReadBack spine stats) (some' : 0 < textChars spine)
    {left right : ℚ} (nonneg : 0 ≤ left) (le : left ≤ right) (atMost : right ≤ 1) {i j k l : Nat}
    (inSpine : i < spine.length) (inSpine' : j < spine.length)
    (isLeft : positionAtFraction stats left = some (spine[i].spineIndex, k))
    (isRight : positionAtFraction stats right = some (spine[j].spineIndex, l)) :
    i < j ∨ i = j ∧ k ≤ l := by
  have positive : (0 : ℚ) < textChars spine := by exact_mod_cast some'
  obtain ⟨i', inLeft, k', inItem, located, below, -, -⟩ :=
    read.position some' nonneg (le.trans atMost)
  obtain ⟨j', inRight, l', inOther, located', -, above, final⟩ :=
    read.position some' (nonneg.trans le) atMost
  rw [located, Option.some_inj, Prod.mk.injEq] at isLeft
  rw [located', Option.some_inj, Prod.mk.injEq] at isRight
  have sameLeft := index_own read.distinct inLeft inSpine isLeft.1
  have sameRight := index_own read.distinct inRight inSpine' isRight.1
  subst sameLeft sameRight
  rw [← isLeft.2, ← isRight.2]
  apply place_le inRight inOther
  have upTo := text_to_place spine inLeft
  rcases atMost.eq_or_lt with isEnd | inside
  · have last := final isEnd
    omega
  · have scaled := mul_le_mul_of_nonneg_right le positive.le
    have short : ((textChars (spine.take i') + k' : ℕ) : ℚ) <
        ((textChars (spine.take j') + l' : ℕ) : ℚ) + 1 :=
      (below.trans scaled).trans_lt (above inside)
    have cast : textChars (spine.take i') + k' < textChars (spine.take j') + l' + 1 := by
      exact_mod_cast short
    omega

/-- The stats read back locate the text: a character is found again from its fraction, a fraction
falls on a character of a document with text, less than one character after it, and later fractions
fall on no earlier place. -/
theorem stats_locate_text (spine : List SpineStat) (stats : List SpineStatRow)
    (read : ReadBack spine stats) (some' : 0 < textChars spine) :
    (∀ (i : Nat) (_ : i < spine.length), ∀ k < spine[i].visibleChars,
      ∃ frac, exactFractionAt stats spine[i].spineIndex k = some frac ∧
        positionAtFraction stats frac = some (spine[i].spineIndex, k)) ∧
      (∀ frac, 0 ≤ frac → frac ≤ 1 → ∃ i, ∃ inSpine : i < spine.length,
        ∃ k < spine[i].visibleChars,
          positionAtFraction stats frac = some (spine[i].spineIndex, k) ∧
          ∃ back, exactFractionAt stats spine[i].spineIndex k = some back ∧ back ≤ frac ∧
            (frac < 1 → frac < back + 1 / textChars spine) ∧
            (frac = 1 → textChars (spine.take i) + k + 1 = textChars spine)) ∧
      ∀ left right, 0 ≤ left → left ≤ right → right ≤ 1 →
        ∀ (i : Nat) (_ : i < spine.length) (j : Nat) (_ : j < spine.length) (k l : Nat),
          positionAtFraction stats left = some (spine[i].spineIndex, k) →
          positionAtFraction stats right = some (spine[j].spineIndex, l) →
            i < j ∨ i = j ∧ k ≤ l := by
  refine ⟨?_, ?_, ?_⟩
  · intro i inSpine k inItem
    exact read.character some' inSpine inItem
  · intro frac nonneg atMost
    exact read.located some' nonneg atMost
  · intro left right nonneg le atMost i inSpine j inSpine' k l isLeft isRight
    exact read.in_order some' nonneg le atMost inSpine inSpine' isLeft isRight

/-- A document without text between two with it, the last fraction of the book. -/
theorem stats_locate_text_empty_document :
    ∃ i, ∃ inSpine : i < 3, ∃ k, positionAtFraction (getSpineStats (replacedRows 0
      [⟨0, "a", 4⟩, ⟨1, "b", 0⟩, ⟨2, "c", 6⟩])) 1 =
        some (([⟨0, "a", 4⟩, ⟨1, "b", 0⟩, ⟨2, "c", 6⟩] : List SpineStat)[i].spineIndex, k) := by
  obtain ⟨i, inSpine, k, -, located, -⟩ :=
    (stats_locate_text [⟨0, "a", 4⟩, ⟨1, "b", 0⟩, ⟨2, "c", 6⟩] _
      (read_back _ (by decide) (by decide)) (by decide)).2.1 1 zero_le_one le_rfl
  exact ⟨i, inSpine, k, located⟩

end Written

end Omnibus.Placement
