import Mathlib.Algebra.Order.Floor.Ring
import Mathlib.Algebra.Order.Field.Rat
import Mathlib.Data.Int.Log
import Mathlib.Data.Rat.Floor
import Mathlib.Tactic.FieldSimp
import Mathlib.Tactic.Linarith
import Mathlib.Tactic.Positivity
import Mathlib.Tactic.Ring

/-!
# Rounding to nearest, ties to even

A rational rounded to `p` significant bits, with no bound on the exponent. Whether a rounded value
has reached a bound is told by one comparison of the value itself with the middle of the grid step
below the bound; so rounding keeps the order, and rounding again changes nothing.
-/

namespace Omnibus.Library.Rounding

def roundHalfEven (x : ℚ) : ℤ :=
  if x - ⌊x⌋ < 1 / 2 then ⌊x⌋
  else if 1 / 2 < x - ⌊x⌋ then ⌊x⌋ + 1
  else if ⌊x⌋ % 2 = 0 then ⌊x⌋
  else ⌊x⌋ + 1

/-- `x` is far enough past `c - 1` to be rounded to `c` or more. -/
def ReachesMiddle (c : ℤ) (x : ℚ) : Prop :=
  if c % 2 = 0 then (c : ℚ) - 1 / 2 ≤ x else (c : ℚ) - 1 / 2 < x

instance (c : ℤ) (x : ℚ) : Decidable (ReachesMiddle c x) := by
  unfold ReachesMiddle
  infer_instance

theorem reaches_middle_of_le (c : ℤ) (x : ℚ) (le : (c : ℚ) ≤ x) : ReachesMiddle c x := by
  rw [ReachesMiddle]
  split <;> linarith

theorem not_reaches_middle (c : ℤ) (x : ℚ) (lt : x < (c : ℚ) - 1 / 2) : ¬ReachesMiddle c x := by
  rw [ReachesMiddle]
  split <;> linarith

theorem le_round_half_even (c : ℤ) (x : ℚ) : c ≤ roundHalfEven x ↔ ReachesMiddle c x := by
  have low : (⌊x⌋ : ℚ) ≤ x := Int.floor_le x
  have high : x < (⌊x⌋ : ℚ) + 1 := Int.lt_floor_add_one x
  have bounds : ⌊x⌋ ≤ roundHalfEven x ∧ roundHalfEven x ≤ ⌊x⌋ + 1 := by
    rw [roundHalfEven]
    split
    · omega
    · split
      · omega
      · split <;> omega
  obtain before | next | after : c ≤ ⌊x⌋ ∨ c = ⌊x⌋ + 1 ∨ ⌊x⌋ + 2 ≤ c := by omega
  · have reached : (c : ℚ) ≤ x := le_trans (by exact_mod_cast before) low
    exact iff_of_true (le_trans before bounds.1) (reaches_middle_of_le c x reached)
  · subst next
    rw [ReachesMiddle, roundHalfEven]
    push_cast
    by_cases below : x - ⌊x⌋ < 1 / 2
    · rw [if_pos below]
      apply iff_of_false (by omega)
      split <;> linarith
    · rw [if_neg below]
      by_cases above : 1 / 2 < x - ⌊x⌋
      · rw [if_pos above]
        apply iff_of_true le_rfl
        split <;> linarith
      · rw [if_neg above]
        by_cases even : ⌊x⌋ % 2 = 0
        · rw [if_pos even, if_neg (by omega)]
          apply iff_of_false (by omega)
          linarith
        · rw [if_neg even, if_pos (by omega)]
          apply iff_of_true le_rfl
          linarith
  · apply iff_of_false (by omega)
    apply not_reaches_middle
    have far : (⌊x⌋ : ℚ) + 2 ≤ (c : ℚ) := by exact_mod_cast after
    linarith

theorem round_half_even_int (n : ℤ) : roundHalfEven (n : ℚ) = n := by
  simp [roundHalfEven]

/-- The grid step of `p` significant bits around `x`. -/
def step (p : ℕ) (x : ℚ) : ℚ := 2 ^ (Int.log 2 x - (p - 1 : ℤ))

/-- A nonnegative rational at `p` significant bits. -/
def roundTo (p : ℕ) (x : ℚ) : ℚ := if 0 < x then roundHalfEven (x / step p x) * step p x else 0

theorem step_pos (p : ℕ) (x : ℚ) : 0 < step p x := zpow_pos (by norm_num) _

theorem two_zpow_add (a b : ℤ) : (2 : ℚ) ^ a * 2 ^ b = 2 ^ (a + b) :=
  (zpow_add₀ (by norm_num) a b).symm

theorem scaled_in_binade (p : ℕ) (x : ℚ) (positive : 0 < x) :
    (2 : ℚ) ^ (p - 1 : ℤ) ≤ x / step p x ∧ x / step p x < 2 ^ (p : ℤ) := by
  have low : (2 : ℚ) ^ Int.log 2 x ≤ x := by
    exact_mod_cast Int.zpow_log_le_self (b := 2) one_lt_two positive
  have high : x < (2 : ℚ) ^ (Int.log 2 x + 1) := by
    exact_mod_cast Int.lt_zpow_succ_log_self (b := 2) one_lt_two x
  rw [le_div_iff₀ (step_pos p x), div_lt_iff₀ (step_pos p x), step, two_zpow_add, two_zpow_add]
  constructor
  · rwa [show (p - 1 : ℤ) + (Int.log 2 x - (p - 1)) = Int.log 2 x by omega]
  · rwa [show (p : ℤ) + (Int.log 2 x - (p - 1)) = Int.log 2 x + 1 by omega]

theorem two_pow_pred_cast (p : ℕ) (positiveWidth : 0 < p) :
    ((2 ^ (p - 1) : ℤ) : ℚ) = 2 ^ (p - 1 : ℤ) := by
  push_cast
  rw [← zpow_natCast, Nat.cast_sub positiveWidth]
  rfl

theorem mantissa_bounds (p : ℕ) (positiveWidth : 0 < p) (x : ℚ) (positive : 0 < x) :
    (2 : ℤ) ^ (p - 1) ≤ roundHalfEven (x / step p x) ∧
      roundHalfEven (x / step p x) ≤ 2 ^ p := by
  obtain ⟨low, high⟩ := scaled_in_binade p x positive
  constructor
  · rw [le_round_half_even]
    apply reaches_middle_of_le
    rwa [two_pow_pred_cast p positiveWidth]
  · by_contra more
    have reached := (le_round_half_even (2 ^ p + 1) (x / step p x)).mp (by omega)
    apply not_reaches_middle _ _ _ reached
    push_cast
    rw [zpow_natCast] at high
    linarith

/-- The grid step just below a bound: the bound is more than half the `p`-bit range above it. -/
def stepBelow (p : ℕ) (bound : ℚ) : ℚ := 2 ^ (Int.clog 2 bound - p)

theorem step_below_pos (p : ℕ) (bound : ℚ) : 0 < stepBelow p bound := zpow_pos (by norm_num) _

/-- A value far enough past the grid point below the bound to be rounded to the bound or more. -/
def Reaches (p : ℕ) (bound x : ℚ) : Prop :=
  ReachesMiddle ⌈bound / stepBelow p bound⌉ (x / stepBelow p bound)

instance (p : ℕ) (bound x : ℚ) : Decidable (Reaches p bound x) := by
  unfold Reaches
  infer_instance

theorem bound_in_binade (p : ℕ) (bound : ℚ) (positive : 0 < bound) :
    (2 : ℚ) ^ (p - 1 : ℤ) < bound / stepBelow p bound ∧
      bound / stepBelow p bound ≤ 2 ^ (p : ℤ) := by
  have low : (2 : ℚ) ^ (Int.clog 2 bound - 1) < bound := by
    exact_mod_cast Int.zpow_pred_clog_lt_self (b := 2) one_lt_two positive
  have high : bound ≤ (2 : ℚ) ^ Int.clog 2 bound := by
    exact_mod_cast Int.self_le_zpow_clog (b := 2) one_lt_two bound
  rw [lt_div_iff₀ (step_below_pos p bound), div_le_iff₀ (step_below_pos p bound), stepBelow,
    two_zpow_add, two_zpow_add]
  constructor
  · rwa [show (p - 1 : ℤ) + (Int.clog 2 bound - p) = Int.clog 2 bound - 1 by omega]
  · rwa [show (p : ℤ) + (Int.clog 2 bound - p) = Int.clog 2 bound by omega]

theorem ceil_in_binade (p : ℕ) (positiveWidth : 0 < p) (bound : ℚ) (positive : 0 < bound) :
    (2 : ℤ) ^ (p - 1) + 1 ≤ ⌈bound / stepBelow p bound⌉ ∧
      ⌈bound / stepBelow p bound⌉ ≤ 2 ^ p := by
  obtain ⟨low, high⟩ := bound_in_binade p bound positive
  constructor
  · apply Int.add_one_le_of_lt
    rw [Int.lt_ceil, two_pow_pred_cast p positiveWidth]
    exact low
  · rw [Int.ceil_le]
    push_cast
    rwa [zpow_natCast] at high

/-- A rounded value is at the bound or past it exactly when the value reaches it. -/
theorem le_round_to (p : ℕ) (positiveWidth : 0 < p) (bound x : ℚ) (positive : 0 < bound)
    (nonneg : 0 ≤ x) : bound ≤ roundTo p x ↔ Reaches p bound x := by
  obtain ⟨ceilLow, ceilHigh⟩ := ceil_in_binade p positiveWidth bound positive
  obtain ⟨boundLow, boundHigh⟩ := bound_in_binade p bound positive
  have unit := step_below_pos p bound
  have ceilLow' : (2 : ℚ) ^ (p - 1 : ℤ) + 1 ≤ (⌈bound / stepBelow p bound⌉ : ℚ) := by
    rw [← two_pow_pred_cast p positiveWidth]
    exact_mod_cast ceilLow
  have ceilHigh' : (⌈bound / stepBelow p bound⌉ : ℚ) ≤ 2 ^ (p : ℤ) := by
    rw [zpow_natCast]
    exact_mod_cast ceilHigh
  have one_le : (1 : ℚ) ≤ 2 ^ (p - 1 : ℤ) := one_le_zpow₀ (by norm_num) (by omega)
  obtain rfl | some' := nonneg.eq_or_lt
  · apply iff_of_false
    · rw [roundTo, if_neg (lt_irrefl 0)]
      exact not_le.mpr positive
    · apply not_reaches_middle
      rw [zero_div]
      linarith
  obtain ⟨xLow, xHigh⟩ := scaled_in_binade p x some'
  obtain ⟨mantissaLow, mantissaHigh⟩ := mantissa_bounds p positiveWidth x some'
  have grid := step_pos p x
  have double : (2 : ℚ) ^ (p : ℤ) = 2 * 2 ^ (p - 1 : ℤ) := by
    rw [← zpow_one_add₀ (by norm_num : (2 : ℚ) ≠ 0)]
    congr 1
    omega
  have mantissaLow' : (2 : ℚ) ^ (p - 1 : ℤ) ≤ (roundHalfEven (x / step p x) : ℚ) := by
    rw [← two_pow_pred_cast p positiveWidth]
    exact_mod_cast mantissaLow
  have mantissaHigh' : (roundHalfEven (x / step p x) : ℚ) ≤ 2 ^ (p : ℤ) := by
    rw [zpow_natCast]
    exact_mod_cast mantissaHigh
  rw [double] at boundHigh ceilHigh' xHigh mantissaHigh'
  rw [lt_div_iff₀ unit] at boundLow
  rw [div_le_iff₀ unit] at boundHigh
  rw [le_div_iff₀ grid] at xLow
  rw [div_lt_iff₀ grid] at xHigh
  have positivePower : (0 : ℚ) < 2 ^ (p - 1 : ℤ) := by linarith
  rw [roundTo, if_pos some']
  obtain coarser | same | finer := lt_trichotomy (Int.clog 2 bound - p) (Int.log 2 x - (p - 1 : ℤ))
  · -- The whole binade of the value lies past the bound.
    have wider : 2 * stepBelow p bound ≤ step p x := by
      rw [stepBelow, step, ← zpow_one_add₀ (by norm_num : (2 : ℚ) ≠ 0)]
      exact zpow_le_zpow_right₀ (by norm_num) (by omega)
    have past := mul_le_mul_of_nonneg_left wider positivePower.le
    apply iff_of_true
    · have rounded := mul_le_mul_of_nonneg_right mantissaLow' grid.le
      linarith
    · apply reaches_middle_of_le
      rw [le_div_iff₀ unit]
      have ceiling := mul_le_mul_of_nonneg_right ceilHigh' unit.le
      linarith
  · have sameStep : step p x = stepBelow p bound := by rw [step, stepBelow, same]
    rw [sameStep, ← div_le_iff₀ unit, ← Int.ceil_le, le_round_half_even]
    rfl
  · -- The whole binade of the value lies before the bound.
    have narrower : 2 * step p x ≤ stepBelow p bound := by
      rw [stepBelow, step, ← zpow_one_add₀ (by norm_num : (2 : ℚ) ≠ 0)]
      exact zpow_le_zpow_right₀ (by norm_num) (by omega)
    have before := mul_le_mul_of_nonneg_left narrower positivePower.le
    apply iff_of_false
    · have rounded := mul_le_mul_of_nonneg_right mantissaHigh' grid.le
      linarith
    · apply not_reaches_middle
      rw [div_lt_iff₀ unit]
      have ceiling := mul_le_mul_of_nonneg_right ceilLow' unit.le
      linarith

theorem round_to_nonneg (p : ℕ) (positiveWidth : 0 < p) (x : ℚ) : 0 ≤ roundTo p x := by
  rw [roundTo]
  split
  · rename_i positive
    have mantissa := (mantissa_bounds p positiveWidth x positive).1
    have grid := (step_pos p x).le
    have low : (0 : ℚ) ≤ (roundHalfEven (x / step p x) : ℚ) := by
      have power : (0 : ℤ) ≤ 2 ^ (p - 1) := by positivity
      exact_mod_cast power.trans mantissa
    exact mul_nonneg low grid
  · exact le_rfl

theorem round_to_natural (p : ℕ) (n : ℕ) (small : n < 2 ^ p) : roundTo p (n : ℚ) = n := by
  rw [roundTo]
  split
  · rename_i positive
    have some' : n ≠ 0 := by
      intro equal
      subst equal
      exact lt_irrefl _ positive
    have log : Nat.log 2 n < p := Nat.log_lt_of_lt_pow some' small
    obtain ⟨shift, exponent⟩ : ∃ shift : ℕ, Int.log 2 (n : ℚ) - (p - 1 : ℤ) = -(shift : ℤ) := by
      refine ⟨p - 1 - Nat.log 2 n, ?_⟩
      rw [Int.log_natCast]
      omega
    have whole : (n : ℚ) / step p n = ((n * 2 ^ shift : ℤ) : ℚ) := by
      rw [step, exponent, zpow_neg, div_inv_eq_mul, zpow_natCast]
      push_cast
      rfl
    rw [whole, round_half_even_int, ← whole, div_mul_cancel₀ _ (step_pos p n).ne']
  · rename_i zero
    exact (le_antisymm (Nat.cast_nonneg n) (not_lt.mp zero))

theorem round_to_le_one (p : ℕ) (positiveWidth : 0 < p) (x : ℚ) (le : x ≤ 1) :
    roundTo p x ≤ 1 := by
  obtain rfl | less := le.eq_or_lt
  · have exact' := round_to_natural p 1 (Nat.one_lt_two_pow positiveWidth.ne')
    simp only [Nat.cast_one] at exact'
    exact exact'.le
  · rw [roundTo]
    split
    · rename_i positive
      have mantissa := (mantissa_bounds p positiveWidth x positive).2
      have grid := step_pos p x
      have negative : Int.log 2 x < 0 := by
        rw [← Int.lt_zpow_iff_log_lt one_lt_two positive]
        simpa using less
      have high : (roundHalfEven (x / step p x) : ℚ) ≤ 2 ^ (p : ℤ) := by
        rw [zpow_natCast]
        exact_mod_cast mantissa
      calc
        (roundHalfEven (x / step p x) : ℚ) * step p x ≤ 2 ^ (p : ℤ) * step p x :=
          mul_le_mul_of_nonneg_right high grid.le
        _ = 2 ^ (Int.log 2 x + 1) := by
          rw [step, two_zpow_add]
          congr 1
          omega
        _ ≤ 2 ^ (0 : ℤ) := zpow_le_zpow_right₀ (by norm_num) (by omega)
        _ = 1 := zpow_zero 2
    · norm_num

theorem round_half_even_near (x : ℚ) : |(roundHalfEven x : ℚ) - x| ≤ 1 / 2 := by
  have low : (⌊x⌋ : ℚ) ≤ x := Int.floor_le x
  have high : x < (⌊x⌋ : ℚ) + 1 := Int.lt_floor_add_one x
  rw [abs_le, roundHalfEven]
  split
  · constructor <;> linarith
  · split
    · push_cast
      constructor <;> linarith
    · split
      · constructor <;> linarith
      · push_cast
        constructor <;> linarith

theorem round_to_near (p : ℕ) (x : ℚ) (nonneg : 0 ≤ x) : |roundTo p x - x| ≤ x / 2 ^ p := by
  obtain rfl | positive := nonneg.eq_or_lt
  · simp [roundTo]
  · have grid := step_pos p x
    have near := mul_le_mul_of_nonneg_right (round_half_even_near (x / step p x)) grid.le
    have scaled : (roundHalfEven (x / step p x) : ℚ) * step p x - x =
        (roundHalfEven (x / step p x) - x / step p x) * step p x := by
      rw [sub_mul, div_mul_cancel₀ _ grid.ne']
    have low := (le_div_iff₀ grid).mp (scaled_in_binade p x positive).1
    rw [roundTo, if_pos positive, scaled, abs_mul, abs_of_pos grid, le_div_iff₀ (by positivity)]
    have half : (2 : ℚ) ^ p = 2 * 2 ^ (p - 1 : ℤ) := by
      rw [← zpow_one_add₀ (by norm_num), ← zpow_natCast]
      congr 1
      omega
    calc
      _ ≤ 1 / 2 * step p x * 2 ^ p := mul_le_mul_of_nonneg_right near (by positivity)
      _ = 2 ^ (p - 1 : ℤ) * step p x := by rw [half]; ring
      _ ≤ x := low

theorem Reaches.mono {p : ℕ} {bound x y : ℚ} (reached : Reaches p bound x) (le : x ≤ y) :
    Reaches p bound y := by
  have scaled := div_le_div_of_nonneg_right le (step_below_pos p bound).le
  unfold Reaches ReachesMiddle at reached ⊢
  split
  · rename_i even
    rw [if_pos even] at reached
    exact reached.trans scaled
  · rename_i odd
    rw [if_neg odd] at reached
    exact reached.trans_le scaled

theorem round_to_mono (p : ℕ) (positiveWidth : 0 < p) {x y : ℚ} (le : x ≤ y) :
    roundTo p x ≤ roundTo p y := by
  obtain zero | positive := (round_to_nonneg p positiveWidth x).eq_or_lt
  · rw [← zero]
    exact round_to_nonneg p positiveWidth y
  · have nonneg : 0 ≤ x := by
      by_contra negative
      rw [roundTo, if_neg (by linarith)] at positive
      exact lt_irrefl 0 positive
    rw [le_round_to p positiveWidth _ y positive (nonneg.trans le)]
    exact ((le_round_to p positiveWidth _ x positive nonneg).mp le_rfl).mono le

theorem round_to_mantissa (p : ℕ) (positiveWidth : 0 < p) (mantissa exponent : ℤ)
    (low : 2 ^ (p - 1) ≤ mantissa) (high : mantissa ≤ 2 ^ p) :
    roundTo p (mantissa * 2 ^ exponent) = mantissa * 2 ^ exponent := by
  have unit : (0 : ℚ) < 2 ^ exponent := zpow_pos (by norm_num) _
  have some' : (0 : ℚ) < mantissa := by
    exact_mod_cast lt_of_lt_of_le (by positivity : (0 : ℤ) < 2 ^ (p - 1)) low
  have positive := mul_pos some' unit
  set x : ℚ := mantissa * 2 ^ exponent with isX
  have logLow : p - 1 + exponent ≤ Int.log 2 x := by
    rw [← Int.zpow_le_iff_le_log one_lt_two positive]
    push_cast
    rw [← two_zpow_add, ← two_pow_pred_cast p positiveWidth]
    exact mul_le_mul_of_nonneg_right (by exact_mod_cast low) unit.le
  have logHigh : Int.log 2 x ≤ p + exponent := by
    rw [← Int.lt_add_one_iff, ← Int.lt_zpow_iff_log_lt one_lt_two positive]
    push_cast
    have below : x ≤ 2 ^ (p + exponent) := by
      rw [← two_zpow_add, zpow_natCast]
      exact mul_le_mul_of_nonneg_right (by exact_mod_cast high) unit.le
    exact below.trans_lt (zpow_lt_zpow_right₀ (by norm_num) (by omega))
  have onGrid : ∃ n : ℤ, x = n * step p x := by
    obtain same | next : Int.log 2 x = p - 1 + exponent ∨ Int.log 2 x = p + exponent := by omega
    · refine ⟨mantissa, ?_⟩
      rw [step, same, show (p - 1 + exponent - (p - 1) : ℤ) = exponent by omega]
    · have full : mantissa = 2 ^ p := by
        apply le_antisymm high
        have reached : (2 : ℚ) ^ (p + exponent) ≤ x := by
          rw [← next]
          exact_mod_cast Int.zpow_log_le_self (b := 2) one_lt_two positive
        rw [← two_zpow_add, zpow_natCast, isX, mul_le_mul_iff_left₀ unit] at reached
        exact_mod_cast reached
      refine ⟨2 ^ (p - 1), ?_⟩
      rw [step, next, two_pow_pred_cast p positiveWidth, two_zpow_add, isX, full]
      push_cast
      rw [← zpow_natCast, two_zpow_add]
      congr 1
      omega
  obtain ⟨n, whole⟩ := onGrid
  have scaled : x / step p x = n := (div_eq_iff (step_pos p x).ne').mpr whole
  rw [roundTo, if_pos positive, scaled, round_half_even_int, ← whole]

theorem round_to_idem (p : ℕ) (positiveWidth : 0 < p) (x : ℚ) :
    roundTo p (roundTo p x) = roundTo p x := by
  by_cases positive : 0 < x
  · obtain ⟨low, high⟩ := mantissa_bounds p positiveWidth x positive
    have rounded : roundTo p x = roundHalfEven (x / step p x) *
        2 ^ (Int.log 2 x - (p - 1 : ℤ)) := by rw [roundTo, if_pos positive, step]
    rw [rounded]
    exact round_to_mantissa p positiveWidth _ _ low high
  · rw [roundTo, roundTo, if_neg positive, if_neg (lt_irrefl 0)]

/-- A rational of either sign at `p` significant bits. -/
def nearest (p : ℕ) (x : ℚ) : ℚ := if x < 0 then -roundTo p (-x) else roundTo p x

theorem nearest_of_nonneg (p : ℕ) {x : ℚ} (nonneg : 0 ≤ x) : nearest p x = roundTo p x :=
  if_neg (not_lt.mpr nonneg)

theorem nearest_nonneg (p : ℕ) (positiveWidth : 0 < p) {x : ℚ} (nonneg : 0 ≤ x) :
    0 ≤ nearest p x := by
  rw [nearest_of_nonneg p nonneg]
  exact round_to_nonneg p positiveWidth x

theorem nearest_mono (p : ℕ) (positiveWidth : 0 < p) {x y : ℚ} (le : x ≤ y) :
    nearest p x ≤ nearest p y := by
  unfold nearest
  split
  · split
    · exact neg_le_neg (round_to_mono p positiveWidth (neg_le_neg le))
    · exact (neg_nonpos.mpr (round_to_nonneg p positiveWidth _)).trans
        (round_to_nonneg p positiveWidth y)
  · rename_i nonneg
    rw [if_neg (by linarith)]
    exact round_to_mono p positiveWidth le

theorem nearest_neg (p : ℕ) (x : ℚ) : nearest p (-x) = -nearest p x := by
  unfold nearest
  obtain negative | rfl | positive := lt_trichotomy x 0
  · rw [if_pos negative, if_neg (by linarith), neg_neg]
  · simp [roundTo]
  · rw [if_pos (by linarith), if_neg (by linarith), neg_neg]

theorem nearest_idem (p : ℕ) (positiveWidth : 0 < p) (x : ℚ) :
    nearest p (nearest p x) = nearest p x := by
  have rounded (y : ℚ) : nearest p (roundTo p y) = roundTo p y := by
    rw [nearest_of_nonneg p (round_to_nonneg p positiveWidth y), round_to_idem p positiveWidth]
  by_cases negative : x < 0
  · rw [show nearest p x = -roundTo p (-x) from if_pos negative, nearest_neg, rounded]
  · rw [nearest_of_nonneg p (not_lt.mp negative), rounded]

end Omnibus.Library.Rounding
