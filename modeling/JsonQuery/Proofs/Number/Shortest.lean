import JsonQuery.Number.Shortest
import JsonQuery.Proofs.Number.Rounding

/-!
# The decimal of a number rounds to it

The reals that round to a magnitude form an interval, and the intervals of two magnitudes share no
real.  So a decimal tells which magnitude it was chosen for, once it is known to lie in the
interval.  A grid of seventeen digits is finer than every interval, hence the search ends with such
a decimal.
-/

set_option autoImplicit false

namespace JsonQuery.Binary64

/-! ## Steps between magnitudes -/

/-- How far the next magnitude is, in units. -/
def gap (m : Nat) : Nat :=
  2 ^ (m / 2 ^ 52 - 1)

theorem gap_pos (m : Nat) : 0 < gap m :=
  Nat.two_pow_pos _

theorem gap_mono {m n : Nat} (le : m ≤ n) : gap m ≤ gap n :=
  Nat.pow_le_pow_right (by decide) (Nat.sub_le_sub_right (Nat.div_le_div_right le) 1)

theorem units_eq (m : Nat) :
    units m = if m < 2 ^ 52 then m else (2 ^ 52 + m % 2 ^ 52) * gap m := by
  simp only [units, gap, twoPow_eq]

theorem units_succ (m : Nat) : units (m + 1) = units m + gap m := by
  rw [units_eq, units_eq]
  obtain below | last | above : m + 1 < 2 ^ 52 ∨ m + 1 = 2 ^ 52 ∨ 2 ^ 52 ≤ m := by omega
  · have unit : gap m = 1 := by rw [gap, show m / 2 ^ 52 - 1 = 0 by omega, pow_zero]
    rw [if_pos below, if_pos (by omega), unit]
  · have unit : gap m = 1 := by rw [gap, show m / 2 ^ 52 - 1 = 0 by omega, pow_zero]
    have unit' : gap (m + 1) = 1 := by rw [gap, show (m + 1) / 2 ^ 52 - 1 = 0 by omega, pow_zero]
    rw [if_neg (by omega), if_pos (by omega), unit, unit']
    omega
  · rw [if_neg (by omega), if_neg (by omega)]
    by_cases carry : m % 2 ^ 52 + 1 = 2 ^ 52
    · -- the significand overflows into the next power of two
      have power : gap (m + 1) = 2 * gap m := by
        rw [gap, gap, ← Nat.pow_succ']
        congr 1
        omega
      rw [power, show (m + 1) % 2 ^ 52 = 0 by omega, show m % 2 ^ 52 = 2 ^ 52 - 1 by omega]
      ring
    · have power : gap (m + 1) = gap m := by
        rw [gap, gap]
        congr 2
        omega
      rw [power, show (m + 1) % 2 ^ 52 = m % 2 ^ 52 + 1 by omega]
      ring

theorem units_strictMono : StrictMono units := by
  refine strictMono_nat_of_lt_succ fun m => ?_
  have next := units_succ m
  have positive := gap_pos m
  omega

/-- A number has at most `2 ^ 53` times the step below it. -/
theorem units_succ_le (m : Nat) : units (m + 1) ≤ 2 ^ 53 * gap m := by
  rw [units_succ, units_eq]
  have positive := gap_pos m
  split
  · omega
  · have fraction : 2 ^ 52 + m % 2 ^ 52 + 1 ≤ 2 ^ 53 := by omega
    calc (2 ^ 52 + m % 2 ^ 52) * gap m + gap m = (2 ^ 52 + m % 2 ^ 52 + 1) * gap m := by ring
      _ ≤ 2 ^ 53 * gap m := Nat.mul_le_mul_right _ fraction

theorem units_pos {m : Nat} (positive : 0 < m) : 0 < units m :=
  units_strictMono positive

theorem units_infinity : units infinity = twoPow 2098 := by
  decide +kernel

theorem log2_lt_of_lt_twoPow {n e : Nat} (positive : 0 < n) (lt : n < twoPow e) : n.log2 < e := by
  rw [twoPow_eq] at lt
  exact (Nat.log2_lt positive.ne').mpr lt

theorem log2_units_lt {m : Nat} (positive : 0 < m) (finite : m < infinity) :
    (units m).log2 < 2098 :=
  log2_lt_of_lt_twoPow (units_pos positive) (units_infinity ▸ units_strictMono finite)

end JsonQuery.Binary64

namespace JsonQuery.Shortest

open Binary64

/-! ## The exponent of the first digit -/

theorem tenPow_cast (p : Int) :
    (10 : ℚ) ^ p * (tenPow (-p).toNat : ℚ) = (tenPow p.toNat : ℚ) := by
  rw [tenPow_eq, tenPow_eq, Nat.cast_pow, Nat.cast_pow, Nat.cast_ofNat, ← zpow_natCast,
    ← zpow_natCast, ← zpow_add₀ (by norm_num)]
  congr 1
  omega

theorem tenPow_cast_pos (e : Nat) : (0 : ℚ) < (tenPow e : ℚ) :=
  Nat.cast_pos.mpr (tenPow_pos e)

theorem tenPowerLe_iff (e : Int) (m : Nat) :
    tenPowerLe e m = true ↔ (10 : ℚ) ^ e * (unitsPerOne : ℚ) ≤ (units m : ℚ) := by
  have scale := tenPow_cast_pos (-e).toNat
  rw [tenPowerLe, decide_eq_true_eq, ← Nat.cast_le (α := ℚ), Nat.cast_mul, Nat.cast_mul,
    ← tenPow_cast, mul_right_comm, mul_le_mul_iff_left₀ scale]

/-- The guess is at most one too large, for every number of bits that finite numbers have. -/
theorem guess_le : ∀ bits : Nat, bits < 2098 →
    10 ^ (((bits : Int) - 1074) * 30103 / 100000 - 1).toNat * twoPow 1074 ≤
      twoPow bits * 10 ^ (-(((bits : Int) - 1074) * 30103 / 100000 - 1)).toNat := by
  decide +kernel

theorem leadingExponent_le {m : Nat} (positive : 0 < m) (finite : m < infinity) :
    (10 : ℚ) ^ leadingExponent m * (unitsPerOne : ℚ) ≤ (units m : ℚ) := by
  rw [← tenPowerLe_iff]
  have fallback := guess_le _ (log2_units_lt positive finite)
  have bits : twoPow (units m).log2 ≤ units m := by
    rw [twoPow_eq]
    exact Nat.log2_self_le (units_pos positive).ne'
  simp only [leadingExponent]
  split
  · assumption
  · split
    · assumption
    · rw [tenPowerLe, decide_eq_true_eq, tenPow_eq, tenPow_eq, unitsPerOne]
      exact fallback.trans (Nat.mul_le_mul_right _ bits)

/-! ## Decimals in a rounding interval -/

/-- The value of a decimal. -/
def Decimal.value (decimal : Decimal) : ℚ :=
  decimal.digits * 10 ^ decimal.exponent

/-- The value of a decimal in half units. -/
def Decimal.halves (decimal : Decimal) : ℚ :=
  2 * unitsPerOne * decimal.value

/-- The reals, in half units, that round to a magnitude: they lie between the two midpoints, which
belong to the interval of an even magnitude only. -/
def Rounds (m : Nat) (x : ℚ) : Prop :=
  let low : ℚ := (units (m - 1) + units m : Nat)
  let high : ℚ := (units m + units (m + 1) : Nat)
  if m % 2 = 0 then low ≤ x ∧ x ≤ high else low < x ∧ x < high

theorem roundsTo_iff {m n d : Nat} {x : ℚ} (positive : 0 < d) (ratio : x * d = n) :
    roundsTo m n d = true ↔ Rounds m x := by
  have scale : (0 : ℚ) < d := Nat.cast_pos.mpr positive
  have atLeast (k : Nat) : k * d ≤ n ↔ (k : ℚ) ≤ x := by
    rw [← Nat.cast_le (α := ℚ), ← ratio, Nat.cast_mul, mul_le_mul_iff_left₀ scale]
  have atMost (k : Nat) : n ≤ k * d ↔ x ≤ (k : ℚ) := by
    rw [← Nat.cast_le (α := ℚ), ← ratio, Nat.cast_mul, mul_le_mul_iff_left₀ scale]
  simp only [roundsTo, Rounds]
  split
  · rw [decide_eq_true_eq, atLeast, atMost]
  · rw [decide_eq_true_eq, ← not_le, ← not_le, ← not_le, ← not_le, atLeast, atMost]

theorem Decimal.hits_iff {decimal : Decimal} {m : Nat} :
    decimal.hits m = true ↔ Rounds m decimal.halves := by
  refine roundsTo_iff (tenPow_pos _) ?_
  rw [Decimal.halves, Decimal.value, gridStep, Nat.cast_mul, Nat.cast_mul,
    ← tenPow_cast decimal.exponent]
  push_cast
  ring

/-- A decimal that lies strictly between the midpoints rounds to the magnitude. -/
theorem Decimal.hits_of_near {decimal : Decimal} {m : Nat} (positive : 0 < m)
    (below : (2 * units m : ℚ) - gap (m - 1) < decimal.halves)
    (above : decimal.halves < (2 * units m : ℚ) + gap (m - 1)) : decimal.hits m = true := by
  obtain ⟨k, rfl⟩ := Nat.exists_eq_add_one_of_ne_zero positive.ne'
  rw [Nat.add_sub_cancel] at below above
  have wider : (gap k : ℚ) ≤ gap (k + 1) := Nat.cast_le.mpr (gap_mono (Nat.le_succ k))
  have low : ((units k + units (k + 1) : Nat) : ℚ) < decimal.halves := by
    rw [units_succ k] at below ⊢
    push_cast at below ⊢
    linarith
  have high : decimal.halves < ((units (k + 1) + units (k + 1 + 1) : Nat) : ℚ) := by
    rw [units_succ (k + 1)]
    push_cast
    linarith
  rw [Decimal.hits_iff, Rounds, Nat.add_sub_cancel]
  split
  · exact ⟨low.le, high.le⟩
  · exact ⟨low, high⟩

/-- The interval of a magnitude lies before that of a greater one. -/
theorem Rounds.not_lt {m n : Nat} {x : ℚ} (left : Rounds m x) (right : Rounds n x) : ¬m < n := by
  intro less
  have high : units m + units (m + 1) ≤ units (n - 1) + units n :=
    Nat.add_le_add (units_strictMono.monotone (by omega)) (units_strictMono.monotone less)
  have strict (even : m % 2 = 0) (even' : n % 2 = 0) :
      units m + units (m + 1) < units (n - 1) + units n :=
    Nat.add_lt_add (units_strictMono (by omega)) (units_strictMono (by omega))
  rw [← Nat.cast_le (α := ℚ)] at high
  simp only [Rounds] at left right
  split at left <;> split at right
  · rename_i even even'
    have apart := Nat.cast_lt (α := ℚ).mpr (strict even even')
    linarith only [left.2, right.1, apart]
  all_goals linarith only [left.2, right.1, high]

/-- Nothing rounds to two magnitudes. -/
theorem Rounds.unique {m n : Nat} {x : ℚ} (left : Rounds m x) (right : Rounds n x) : m = n := by
  have notLess := left.not_lt right
  have notMore := right.not_lt left
  omega

theorem rounds_zero : Rounds 0 0 := by
  have least : units 0 = 0 := rfl
  rw [Rounds, if_pos rfl, least]
  exact ⟨le_refl _, Nat.cast_nonneg _⟩

/-! ## The search -/

/-- The nearer neighbour is on the grid, and at most half a step of the grid away. -/
theorem nearer_eq (m : Nat) (p : Int) :
    ∃ q : Nat, (neighbours m p).1 = ⟨q, p⟩ ∧
      2 * (double m * (gridStep p).2) ≤ (2 * q + 1) * (gridStep p).1 ∧
      2 * q * (gridStep p).1 ≤ 2 * (double m * (gridStep p).2) + (gridStep p).1 := by
  have quotient := Nat.div_add_mod (double m * (gridStep p).2) (gridStep p).1
  have positive : 0 < (gridStep p).1 :=
    Nat.mul_pos (Nat.mul_pos Nat.two_pos (twoPow_pos 1074)) (tenPow_pos p.toNat)
  have remainder := Nat.mod_lt (double m * (gridStep p).2) positive
  simp only [neighbours]
  generalize double m * (gridStep p).2 = n at quotient remainder ⊢
  generalize (gridStep p).1 = d at quotient remainder ⊢
  split_ifs with up
  · have half : d ≤ 2 * (n % d) := by omega
    exact ⟨n / d + 1, rfl, by linarith only [quotient, remainder],
      by linarith only [quotient, half]⟩
  · have half : 2 * (n % d) ≤ d := by omega
    have low := Nat.zero_le (n % d)
    exact ⟨n / d, rfl, by linarith only [quotient, half],
      by linarith only [quotient, remainder, low]⟩

theorem neighbours_near (m : Nat) (p : Int) :
    |(neighbours m p).1.halves - 2 * units m| ≤ unitsPerOne * 10 ^ p := by
  obtain ⟨q, nearer, below, above⟩ := nearer_eq m p
  have scale := tenPow_cast_pos (-p).toNat
  rw [← Nat.cast_le (α := ℚ)] at below above
  rw [gridStep, double] at below above
  push_cast at below above
  rw [← tenPow_cast p] at below above
  have low : (2 * units m : ℚ) ≤ (2 * q + 1) * (unitsPerOne * 10 ^ p) := by
    refine le_of_mul_le_mul_right ?_ scale
    linarith only [below]
  have high : 2 * q * (unitsPerOne * 10 ^ p) ≤ (2 * units m : ℚ) + unitsPerOne * 10 ^ p := by
    refine le_of_mul_le_mul_right ?_ scale
    linarith only [above]
  rw [nearer, Decimal.halves, Decimal.value, abs_le]
  constructor <;> linarith only [low, high]

/-- The grid with seventeen digits is finer than the interval of the magnitude. -/
theorem neighbours_hits {m : Nat} (positive : 0 < m) (finite : m < infinity) :
    (neighbours m (leadingExponent m - 16)).1.hits m = true := by
  have near := neighbours_near m (leadingExponent m - 16)
  have grid : (unitsPerOne : ℚ) * 10 ^ (leadingExponent m - 16) ≤ units m / 10 ^ 16 := by
    rw [zpow_sub₀ (by norm_num), mul_div_assoc', mul_comm]
    exact div_le_div_of_nonneg_right (leadingExponent_le positive finite) (by norm_num)
  have step : (units m : ℚ) ≤ 2 ^ 53 * gap (m - 1) := by
    obtain ⟨k, rfl⟩ := Nat.exists_eq_add_one_of_ne_zero positive.ne'
    exact_mod_cast units_succ_le k
  have width : (0 : ℚ) < gap (m - 1) := Nat.cast_pos.mpr (gap_pos _)
  obtain ⟨below, above⟩ := abs_le.mp near
  refine Decimal.hits_of_near positive ?_ ?_ <;> linarith only [below, above, grid, step, width]

theorem search_cons (m : Nat) (p : Int) (finer : List Int) :
    search m (p :: finer) =
      if (neighbours m p).1.hits m then (neighbours m p).1
      else if (neighbours m p).2.hits m then (neighbours m p).2
      else search m finer :=
  rfl

/-- A search that tries the grid with seventeen digits ends with a decimal that rounds to the
magnitude. -/
theorem search_hits {m : Nat} (positive : 0 < m) (finite : m < infinity) (grids : List Int) :
    (search m (grids ++ [leadingExponent m - 16])).hits m = true := by
  have last := neighbours_hits positive finite
  induction grids with
  | nil => rwa [List.nil_append, search_cons, if_pos last]
  | cons p finer ih =>
      rw [List.cons_append, search_cons]
      split_ifs with nearer farther
      · exact nearer
      · exact farther
      · exact ih

theorem ofMagnitude_hits {m : Nat} (positive : 0 < m) (finite : m < infinity) :
    (ofMagnitude m).hits m = true := by
  have last : leadingExponent m + 1 - (17 : Nat) = leadingExponent m - 16 := by omega
  have found := search_hits positive finite
    ((List.range 17).map fun (k : Nat) => leadingExponent m + 1 - k)
  rw [ofMagnitude, List.range_succ, List.map_append, List.map_singleton, last]
  exact found

end JsonQuery.Shortest
