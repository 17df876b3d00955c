import JsonQuery.Proofs.Number.Rounding
import JsonQuery.Value.Order
import Mathlib.Data.Int.Order.Basic
import Mathlib.Logic.ExistsUnique

/-!
# The order of numbers

Any two numbers compare, unless one of them is undefined, and equality is a part of the order.  Two
integers compare exactly and all other pairs through rounding, which keeps the order.  So the order
is transitive as long as no binary64 number stands between two integers that both round to it.
-/

set_option autoImplicit false

namespace JsonQuery

namespace Comparator

def holds (op : Comparator) (x y : Int) : Bool :=
  match op with
  | .eq => x == y
  | .ne => !(x == y)
  | .lt => decide (x < y)
  | .le => decide (x ≤ y)
  | .gt => decide (y < x)
  | .ge => decide (y ≤ x)

theorem accepts_compare (op : Comparator) (x y : Int) :
    op.accepts (compare x y) = op.holds x y := by
  rcases Int.lt_trichotomy x y with less | rfl | greater
  · have compared : compare x y = .lt := compare_lt_iff_lt.mpr less
    rw [compared]
    cases op <;> simp [accepts, holds] <;> omega
  · have compared : compare x x = .eq := compare_eq_iff_eq.mpr rfl
    rw [compared]
    cases op <;> simp [accepts, holds]
  · have compared : compare x y = .gt := compare_gt_iff_gt.mpr greater
    rw [compared]
    cases op <;> simp [accepts, holds] <;> omega

/-- Of less, equal and greater exactly one holds. -/
theorem existsUnique_holds (x y : Int) :
    ∃! op, op ∈ [Comparator.lt, .eq, .gt] ∧ op.holds x y = true := by
  rcases Int.lt_trichotomy x y with less | rfl | more
  · refine ⟨.lt, ⟨by simp, by simp [holds, less]⟩, ?_⟩
    rintro op ⟨listed, holding⟩
    cases op <;> simp [holds] at listed holding ⊢ <;> omega
  · refine ⟨.eq, ⟨by simp, by simp [holds]⟩, ?_⟩
    rintro op ⟨listed, holding⟩
    cases op <;> simp [holds] at listed holding ⊢
  · refine ⟨.gt, ⟨by simp, by simp [holds, more]⟩, ?_⟩
    rintro op ⟨listed, holding⟩
    cases op <;> simp [holds] at listed holding ⊢ <;> omega

end Comparator

namespace Value

/-- A number other than the undefined one. -/
def isDefined : Value → Bool
  | .int _ => true
  | .float x => !Binary64.isNaN x
  | _ => false

/-- Where the binary64 number for a number stands among all binary64 numbers. -/
def place : Value → Int
  | .int n => Binary64.rank (Binary64.ofInt n.toInt)
  | .float x => Binary64.rank x
  | _ => 0

def isInteger : Value → Bool
  | .int _ => true
  | _ => false

variable {a b c : Value}

theorem isNumber_of_isDefined (defined : a.isDefined = true) : a.isNumber = true := by
  cases a <;> first | rfl | cases defined

theorem int_beq_int (m n : Int64) : (m == n) = (m.toInt == n.toInt) := by
  rw [Bool.eq_iff_iff, beq_iff_eq, beq_iff_eq]
  exact Int64.toInt_inj.symm

theorem compare?_of_rounded (left : a.isDefined = true) (right : b.isDefined = true)
    (rounded : ¬(a.isInteger = true ∧ b.isInteger = true)) :
    a.compare? b = some (compare a.place b.place) ∧ a.equals b = (a.place == b.place) := by
  cases a with
  | int m =>
      cases b with
      | int n => exact absurd ⟨rfl, rfl⟩ rounded
      | float y =>
          simp only [isDefined, Bool.not_eq_true'] at right
          have defined := Binary64.isNaN_ofInt m.toInt
          exact ⟨Binary64.compare?_of_defined defined right,
            Binary64.equals_of_defined defined right⟩
      | _ => cases right
  | float x =>
      simp only [isDefined, Bool.not_eq_true'] at left
      cases b with
      | int n =>
          have defined := Binary64.isNaN_ofInt n.toInt
          refine ⟨Binary64.compare?_of_defined left defined, ?_⟩
          have turned : (Value.float x).equals (.int n) =
              (Binary64.rank (Binary64.ofInt n.toInt) == Binary64.rank x) :=
            Binary64.equals_of_defined defined left
          rw [turned, Bool.beq_comm]
          rfl
      | float y =>
          simp only [isDefined, Bool.not_eq_true'] at right
          refine ⟨Binary64.compare?_of_defined left right, ?_⟩
          have outside : (Value.float x).equals (.float y) = Binary64.equals x y := by
            simp only [equals, equalsIn, Bool.false_and, Bool.or_false]
          rw [outside, Binary64.equals_of_defined left right]
          rfl
      | _ => cases right
  | _ => cases left

/-- Two integers that compare as the two numbers do: these themselves, or where they stand. -/
def Compares (a b : Value) (x y : Int) : Prop :=
  (∃ m n : Int64, a = .int m ∧ b = .int n ∧ x = m.toInt ∧ y = n.toInt) ∨
    (¬(a.isInteger = true ∧ b.isInteger = true) ∧ x = a.place ∧ y = b.place)

theorem Compares.symm {x y : Int} (compares : Compares a b x y) : Compares b a y x := by
  rcases compares with ⟨m, n, first, second, third, fourth⟩ | ⟨rounded, first, second⟩
  · exact .inl ⟨n, m, second, first, fourth, third⟩
  · exact .inr ⟨fun both => rounded both.symm, second, first⟩

theorem Compares.place_le {x y : Int} (compares : Compares a b x y) (le : x ≤ y) :
    a.place ≤ b.place := by
  rcases compares with ⟨m, n, rfl, rfl, rfl, rfl⟩ | ⟨-, rfl, rfl⟩
  · exact Binary64.rank_ofInt_mono le
  · exact le

theorem exists_compare (left : a.isDefined = true) (right : b.isDefined = true) :
    ∃ x y : Int, Compares a b x y ∧ a.compare? b = some (compare x y) ∧
      b.compare? a = some (compare y x) ∧ a.equals b = (x == y) := by
  by_cases exact : a.isInteger = true ∧ b.isInteger = true
  · obtain ⟨first, second⟩ := exact
    cases a with
    | int m =>
        cases b with
        | int n =>
            exact ⟨m.toInt, n.toInt, .inl ⟨m, n, rfl, rfl, rfl, rfl⟩, rfl, rfl, int_beq_int m n⟩
        | _ => cases second
    | _ => cases first
  · have turned : ¬(b.isInteger = true ∧ a.isInteger = true) := fun both => exact both.symm
    have forward := compare?_of_rounded left right exact
    have backward := compare?_of_rounded right left turned
    exact ⟨a.place, b.place, .inr ⟨exact, rfl, rfl⟩, forward.1, backward.1, forward.2⟩

theorem exists_test (left : a.isDefined = true) (right : b.isDefined = true) :
    ∃ x y : Int, Compares a b x y ∧ a.compare? b = some (compare x y) ∧
      b.compare? a = some (compare y x) ∧
      ∀ op : Comparator, op.test? a b = some (op.holds x y) := by
  obtain ⟨x, y, compares, forward, backward, equal⟩ := exists_compare left right
  refine ⟨x, y, compares, forward, backward, fun op => ?_⟩
  have numbers : (a.isNumber && b.isNumber) = true := by
    rw [isNumber_of_isDefined left, isNumber_of_isDefined right, Bool.and_self]
  cases op <;>
    simp only [Comparator.test?, numbers, if_true, forward, equal, Option.map_some,
      Comparator.accepts_compare, Comparator.holds]

/-! ## Transitivity -/

/-- A binary64 number that equals two different integers. -/
def Blurs (b a c : Value) : Prop :=
  (∃ x, b = .float x) ∧ a.isInteger = true ∧ c.isInteger = true ∧ a.equals b = true ∧
    b.equals c = true ∧ a.equals c = false

/-- A chain of numbers leads upwards from its first to its last, or else the one between them is no
integer and stands where both of the others stand. -/
theorem between_of_chain {x y y' z x' z' : Int} (between : b.isDefined = true)
    (first : Compares a b x y) (second : Compares b c y' z) (ends : Compares a c x' z')
    (le : x ≤ y) (le' : y' ≤ z) (greater : z' < x') :
    (∃ u, b = .float u) ∧ a.isInteger = true ∧ c.isInteger = true ∧ x = y ∧ y' = z := by
  have rises := first.place_le le
  have rises' := second.place_le le'
  rcases ends with ⟨m, n, rfl, rfl, rfl, rfl⟩ | ⟨-, rfl, rfl⟩
  · have falls : (Value.int n).place ≤ (Value.int m).place :=
      Binary64.rank_ofInt_mono (Int.le_of_lt greater)
    cases b with
    | int k =>
        -- three integers compare exactly
        rcases first with ⟨_, _, ⟨⟩, ⟨⟩, rfl, rfl⟩ | ⟨rounded, -, -⟩
        · rcases second with ⟨_, _, ⟨⟩, ⟨⟩, rfl, rfl⟩ | ⟨rounded, -, -⟩
          · omega
          · exact absurd ⟨rfl, rfl⟩ rounded
        · exact absurd ⟨rfl, rfl⟩ rounded
    | float u =>
        rcases first with ⟨_, _, _, ⟨⟩, -, -⟩ | ⟨-, rfl, rfl⟩
        rcases second with ⟨_, _, ⟨⟩, _, -, -⟩ | ⟨-, rfl, rfl⟩
        exact ⟨⟨u, rfl⟩, rfl, rfl, by omega, by omega⟩
    | _ => cases between
  · omega

/-- Any two defined numbers compare, the other way round with the reverse outcome, and they are
equal exactly when neither comes first.  The order and equality are transitive unless a binary64
number blurs two integers. -/
theorem compare_numbers (first : a.isDefined = true) (second : b.isDefined = true)
    (third : c.isDefined = true) :
    (∃ o, a.compare? b = some o ∧ b.compare? a = some o.swap ∧ (a.equals b = true ↔ o = .eq)) ∧
      (∃! op, op ∈ [Comparator.lt, .eq, .gt] ∧ op.test? a b = some true) ∧
      (∃ less, Comparator.lt.test? a b = some less ∧ Comparator.ge.test? a b = some !less) ∧
      (∃ more, Comparator.gt.test? a b = some more ∧ Comparator.le.test? a b = some !more) ∧
      (Comparator.gt.test? a b = some false → Comparator.gt.test? b c = some false →
        ¬Blurs b a c → Comparator.gt.test? a c = some false) ∧
      (a.equals b = true → b.equals c = true → ¬Blurs b a c → a.equals c = true) := by
  obtain ⟨x, y, compares, forward, backward, tests⟩ := exists_test first second
  obtain ⟨y', z, compares', -, -, tests'⟩ := exists_test second third
  obtain ⟨x'', z'', ends, -, -, tests''⟩ := exists_test first third
  have equal : a.equals b = (x == y) := Option.some_inj.mp (tests .eq)
  have equal' : b.equals c = (y' == z) := Option.some_inj.mp (tests' .eq)
  have equal'' : a.equals c = (x'' == z'') := Option.some_inj.mp (tests'' .eq)
  refine ⟨⟨compare x y, forward, ?_, ?_⟩, ?_, ⟨decide (x < y), tests .lt, ?_⟩,
    ⟨decide (y < x), tests .gt, ?_⟩, fun below below' clear => ?_, fun same same' clear => ?_⟩
  · rw [backward, Std.OrientedOrd.eq_swap (a := y)]
  · rw [equal, beq_iff_eq, compare_eq_iff_eq]
  · simp only [tests, Option.some_inj]
    exact Comparator.existsUnique_holds x y
  · simp only [tests, Comparator.holds, ← decide_not, Int.not_lt]
  · simp only [tests, Comparator.holds, ← decide_not, Int.not_lt]
  · rw [tests, Option.some_inj, Comparator.holds, decide_eq_false_iff_not] at below
    rw [tests', Option.some_inj, Comparator.holds, decide_eq_false_iff_not] at below'
    rw [tests'', Option.some_inj, Comparator.holds, decide_eq_false_iff_not]
    intro greater
    obtain ⟨float, left, right, rfl, rfl⟩ :=
      between_of_chain second compares compares' ends (by omega) (by omega) greater
    refine clear ⟨float, left, right, by rw [equal, beq_self_eq_true],
      by rw [equal', beq_self_eq_true], ?_⟩
    rw [equal'', beq_eq_false_iff_ne]
    omega
  · by_contra apart
    rw [Bool.not_eq_true] at apart
    have differ := apart
    rw [equal'', beq_eq_false_iff_ne] at differ
    rw [equal, beq_iff_eq] at same
    rw [equal', beq_iff_eq] at same'
    rcases Int.lt_or_gt_of_ne differ with less | greater
    · obtain ⟨float, right, left, -, -⟩ := between_of_chain second compares'.symm compares.symm
        ends.symm (by omega) (by omega) less
      exact clear ⟨float, left, right, by rw [equal, same, beq_self_eq_true],
        by rw [equal', same', beq_self_eq_true], apart⟩
    · obtain ⟨float, left, right, -, -⟩ :=
        between_of_chain second compares compares' ends (by omega) (by omega) greater
      exact clear ⟨float, left, right, by rw [equal, same, beq_self_eq_true],
        by rw [equal', same', beq_self_eq_true], apart⟩

theorem compare_numbers_half :
    Comparator.gt.test? (.int 1) (.float (.ofBits 0x3ff8000000000000)) = some false ∧
      Comparator.gt.test? (.float (.ofBits 0x3ff8000000000000)) (.int 2) = some false ∧
      ¬Blurs (.float (.ofBits 0x3ff8000000000000)) (.int 1) (.int 2) ∧
      Comparator.gt.test? (.int 1) (.int 2) = some false := by
  have below : Comparator.gt.test? (.int 1) (.float (.ofBits 0x3ff8000000000000)) = some false := by
    decide +kernel
  have below' : Comparator.gt.test? (.float (.ofBits 0x3ff8000000000000)) (.int 2) =
      some false := by decide +kernel
  have clear : ¬Blurs (.float (.ofBits 0x3ff8000000000000)) (.int 1) (.int 2) :=
    fun blurs => absurd blurs.2.2.2.1 (by decide +kernel)
  have laws := compare_numbers (a := .int 1) (b := .float (.ofBits 0x3ff8000000000000))
    (c := .int 2) rfl (by decide +kernel) rfl
  exact ⟨below, below', clear, laws.2.2.2.2.1 below below' clear⟩

/-- The binary64 number 2⁵³ stands between 2⁵³ + 1 and 2⁵³ without being less or more than either. -/
theorem not_transitive_at_two_pow_53 :
    ¬∀ a b c : Value, a.isDefined = true → b.isDefined = true → c.isDefined = true →
      Comparator.gt.test? a b = some false → Comparator.gt.test? b c = some false →
      Comparator.gt.test? a c = some false := by
  intro transitive
  have last := transitive (.int 9007199254740993) (.float (.ofBits 0x4340000000000000))
    (.int 9007199254740992) rfl (by decide +kernel) rfl (by decide +kernel) (by decide +kernel)
  exact absurd last (by decide +kernel)

end Value

end JsonQuery
