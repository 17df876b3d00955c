import JsonQuery.Value.Access
import Mathlib.Data.List.Basic
import Mathlib.Tactic.Ring

/-!
# Parts of values in words

Positions are computed with words of sixty-four bits, and elements are taken from places of a table.
Here every word that would wrap and every place outside of the table counts as a fault.  There is
none: the walk of an allowed slice stays inside the sequence and meets the selected elements, and
the bounds of a range are places of what it cuts.
-/

set_option autoImplicit false

namespace JsonQuery

/-- The integer, if it fits a signed word. -/
def word? (n : Int) : Option Int :=
  if -2 ^ 63 ≤ n ∧ n < 2 ^ 63 then some n else none

/-- The nearest integer that fits a signed word. -/
def saturated (n : Int) : Int :=
  max (-2 ^ 63) (min n (2 ^ 63 - 1))

theorem word?_eq_some {n m : Int} (fits : word? n = some m) : m = n := by
  unfold word? at fits
  split at fits
  · exact (Option.some.inj fits).symm
  · cases fits

theorem word?_of_fits {n : Int} (least : -2 ^ 63 ≤ n) (most : n < 2 ^ 63) : word? n = some n :=
  if_pos ⟨least, most⟩

namespace Slice

/-! ## In words -/

def placeInWords? (length stride bound : Int) : Option Int :=
  if bound < 0 then
    if 0 ≤ saturated (bound + length) then some (saturated (bound + length))
    else if stride < 0 then some (-1)
    else some 0
  else if length ≤ bound then
    if stride < 0 then word? (length - 1) else some length
  else some bound

def firstInWords? (s : Slice) (length : Int) : Option Int :=
  match s.start with
  | some bound => placeInWords? length s.stride bound.toInt
  | none => if s.stride < 0 then word? (length - 1) else some 0

def limitInWords? (s : Slice) (length : Int) : Option Int :=
  match s.stop with
  | some bound => placeInWords? length s.stride bound.toInt
  | none => if s.stride < 0 then some (-1) else some length

/-- The walk has not come to its limit. -/
def Ahead (limit stride i : Int) : Prop :=
  0 < stride ∧ i < limit ∨ stride < 0 ∧ limit < i

instance (limit stride i : Int) : Decidable (Ahead limit stride i) :=
  inferInstanceAs (Decidable (0 < stride ∧ i < limit ∨ stride < 0 ∧ limit < i))

/-- Walks from `i` to the limit.  A place is a word without sign; where the next step would not fit
a word, the walk ends. -/
def walk? (limit stride i : Int) : Option (List Nat) :=
  if Ahead limit stride i then
    if 0 ≤ i then
      match _fits : word? (i + stride) with
      | some next => (walk? limit stride next).map (i.toNat :: ·)
      | none => some [i.toNat]
    else none
  else some []
termination_by (if 0 < stride then limit - i else i - limit).toNat
decreasing_by
  have := word?_eq_some _fits
  rename_i ahead _
  rcases ahead with ⟨up, _⟩ | ⟨down, _⟩
  · rw [if_pos up, if_pos up]
    omega
  · rw [if_neg (by omega), if_neg (by omega)]
    omega

def positionsInWords? (s : Slice) (length : Nat) : Option (List Nat) := do
  let length ← word? length
  let first ← s.firstInWords? length
  let limit ← s.limitInWords? length
  walk? limit s.stride first

/-- The selected elements, each taken from its place. -/
def selectInWords? {α : Type} (s : Slice) (items : List α) : Option (List α) := do
  (← s.positionsInWords? items.length).mapM fun position => items[position]?

/-! ## Bounds -/

section Bounds

variable {s : Slice} {length : Nat}

theorem stride_ne_zero (allowed : s.Allowed) : s.stride ≠ 0 := by
  unfold Allowed at allowed
  unfold stride
  cases step : s.step with
  | none => decide
  | some k =>
      intro zero
      exact allowed (step.trans (congrArg some (Int64.toInt_inj.mp zero)))

theorem placeInWords?_eq (short : length < 2 ^ 63) (stride : Int) (bound : Int64) :
    placeInWords? length stride bound.toInt = some (place length stride bound.toInt) := by
  have least := bound.le_toInt
  have most := bound.toInt_lt
  unfold placeInWords? place
  by_cases negative : bound.toInt < 0
  · -- A negative bound cannot leave the words when the length is added.
    have exact : saturated (bound.toInt + length) = bound.toInt + length := by
      unfold saturated
      omega
    rw [if_pos negative, if_pos negative, exact]
    split
    · rfl
    · split <;> rfl
  · rw [if_neg negative, if_neg negative, word?_of_fits (by omega) (by omega)]
    split
    · split <;> rfl
    · rfl

theorem firstInWords?_eq (short : length < 2 ^ 63) :
    s.firstInWords? length = some (s.first length) := by
  unfold firstInWords? first
  cases s.start with
  | some bound => exact placeInWords?_eq short s.stride bound
  | none =>
      simp only [word?_of_fits (show -2 ^ 63 ≤ (length : Int) - 1 by omega) (by omega)]
      split <;> rfl

theorem limitInWords?_eq (short : length < 2 ^ 63) :
    s.limitInWords? length = some (s.limit length) := by
  unfold limitInWords? limit
  cases s.stop with
  | some bound => exact placeInWords?_eq short s.stride bound
  | none =>
      dsimp only
      split <;> rfl

/-- Between which places a walk starts and ends. -/
def Inside (length stride i : Int) : Prop :=
  (0 < stride → 0 ≤ i ∧ i ≤ length) ∧ (stride < 0 → -1 ≤ i ∧ i < length)

theorem place_inside (length : Nat) (stride bound : Int) :
    Inside length stride (place length stride bound) := by
  unfold Inside place
  split <;> split <;> (try split) <;> omega

theorem first_inside (s : Slice) (length : Nat) :
    Inside length s.stride (s.first length) := by
  unfold first
  cases s.start with
  | some bound => exact place_inside length s.stride bound.toInt
  | none =>
      unfold Inside
      dsimp only
      split <;> omega

theorem limit_inside (s : Slice) (length : Nat) :
    Inside length s.stride (s.limit length) := by
  unfold limit
  cases s.stop with
  | some bound => exact place_inside length s.stride bound.toInt
  | none =>
      unfold Inside
      dsimp only
      split <;> omega

end Bounds

/-! ## The walk -/

section Walk

variable {limit stride i : Int}

/-- The counted steps are those that do not lead to the limit. -/
theorem lt_stepCount_iff (n : Nat) :
    n < stepCount i limit stride ↔ Ahead limit stride (i + n * stride) := by
  unfold stepCount Ahead
  split
  · rename_i up
    have counted : (n : Int) + 1 ≤ (limit - i + stride - 1) / stride ↔
        ((n : Int) + 1) * stride ≤ limit - i + stride - 1 := Int.le_ediv_iff_mul_le up
    have strides : ((n : Int) + 1) * stride = n * stride + stride := by ring
    omega
  · split
    · rename_i down
      have counted : (n : Int) + 1 ≤ (i - limit - stride - 1) / -stride ↔
          ((n : Int) + 1) * -stride ≤ i - limit - stride - 1 :=
        Int.le_ediv_iff_mul_le (by omega)
      have strides : ((n : Int) + 1) * -stride = -(n * stride) - stride := by ring
      omega
    · omega

theorem stepCount_of_not_ahead (stopped : ¬Ahead limit stride i) :
    stepCount i limit stride = 0 := by
  by_contra some_step
  have ahead := (lt_stepCount_iff 0).mp (Nat.pos_of_ne_zero some_step)
  rw [Nat.cast_zero, zero_mul, add_zero] at ahead
  exact stopped ahead

theorem stepCount_of_ahead (ahead : Ahead limit stride i) :
    stepCount i limit stride = stepCount (i + stride) limit stride + 1 := by
  refine eq_of_forall_lt_iff fun n => ?_
  cases n with
  | zero =>
      rw [lt_stepCount_iff, Nat.cast_zero, zero_mul, add_zero]
      exact iff_of_true ahead (Nat.succ_pos _)
  | succ n =>
      have onwards : i + ((n + 1 : Nat) : Int) * stride = i + stride + n * stride := by
        push_cast
        ring
      rw [lt_stepCount_iff, onwards, Nat.succ_lt_succ_iff, lt_stepCount_iff]

/-- A walk between the borders of a sequence stays inside it until it stops. -/
theorem inside_of_ahead {length : Nat} {n : Nat} (starts : Inside length stride i)
    (stops : Inside length stride limit) (ahead : Ahead limit stride (i + n * stride)) :
    0 ≤ i + n * stride ∧ i + n * stride < length := by
  unfold Inside at starts stops
  rcases ahead with ⟨up, before⟩ | ⟨down, behind⟩
  · have onwards : 0 ≤ n * stride := Int.mul_nonneg (Int.natCast_nonneg n) up.le
    omega
  · have backwards : n * stride ≤ 0 :=
      Int.mul_nonpos_of_nonneg_of_nonpos (Int.natCast_nonneg n) down.le
    omega

/-- The positions that come next are those of the walk from the next place. -/
theorem positions_cons (count : Nat) (i stride : Int) :
    (List.range (count + 1)).map (fun (k : Nat) => (i + k * stride).toNat) =
      i.toNat :: (List.range count).map fun (k : Nat) => (i + stride + k * stride).toNat := by
  rw [List.range_succ_eq_map, List.map_cons, List.map_map]
  congr 1
  · simp
  · refine List.map_congr_left fun k _ => congrArg Int.toNat ?_
    show i + ((k + 1 : Nat) : Int) * stride = _
    push_cast
    ring

/-- The walk never faults, and takes the counted steps. -/
theorem walk?_eq (start : 0 < stride → 0 ≤ i) (low : -1 ≤ limit) (high : limit < 2 ^ 63)
    (most : i < 2 ^ 63) :
    walk? limit stride i = some
      ((List.range (stepCount i limit stride)).map fun (k : Nat) => (i + k * stride).toNat) := by
  fun_induction walk? limit stride i with
  | case1 i ahead inside next fits ih =>
      obtain rfl := word?_eq_some fits
      have fitting : i + stride < 2 ^ 63 := by
        unfold word? at fits
        split at fits
        · omega
        · cases fits
      rw [ih (fun up => by omega) fitting, stepCount_of_ahead ahead, positions_cons]
      rfl
  | case2 i ahead inside overflow =>
      -- Where the next place would not fit a word, it would be behind the limit.
      have stopped : ¬Ahead limit stride (i + stride) := by
        unfold word? at overflow
        unfold Ahead
        split at overflow
        · cases overflow
        · omega
      rw [stepCount_of_ahead ahead, stepCount_of_not_ahead stopped, positions_cons]
      rfl
  | case3 i ahead outside =>
      unfold Ahead at ahead
      omega
  | case4 i stopped =>
      rw [stepCount_of_not_ahead stopped]
      rfl

end Walk

/-! ## Selecting -/

section Select

variable {s : Slice} {length : Nat}

theorem walk?_positions (allowed : s.Allowed) (short : length < 2 ^ 63) :
    walk? (s.limit length) s.stride (s.first length) = some (s.positions length) := by
  have first := s.first_inside length
  have limit := s.limit_inside length
  have moves := stride_ne_zero allowed
  unfold Inside at first limit
  exact walk?_eq (by omega) (by omega) (by omega) (by omega)

theorem positionsInWords?_eq (allowed : s.Allowed) (short : length < 2 ^ 63) :
    s.positionsInWords? length = some (s.positions length) := by
  unfold positionsInWords?
  rw [word?_of_fits (by omega) (by omega)]
  simp only [Option.bind_eq_bind, Option.bind_some, firstInWords?_eq short, limitInWords?_eq short,
    walk?_positions allowed short]

/-- Positions are places of the sequence. -/
theorem positions_lt (s : Slice) (length : Nat) :
    ∀ position ∈ s.positions length, position < length := by
  intro position listed
  obtain ⟨n, counted, rfl⟩ := List.mem_map.mp listed
  have ahead := (lt_stepCount_iff n).mp (List.mem_range.mp counted)
  have inside := inside_of_ahead (s.first_inside length) (s.limit_inside length) ahead
  omega

theorem mapM_getElem? {α : Type} {items : List α} {positions : List Nat}
    (inside : ∀ position ∈ positions, position < items.length) :
    positions.mapM (fun position => items[position]?) =
      some (positions.filterMap fun position => items.toArray[position]?) := by
  induction positions with
  | nil => rfl
  | cons position rest ih =>
      obtain ⟨here, later⟩ := List.forall_mem_cons.mp inside
      have found : items[position]? = some items[position] := List.getElem?_eq_getElem here
      rw [List.mapM_cons, ih later, List.filterMap_cons, List.getElem?_toArray, found]
      rfl

/-- Selecting in words never faults, and selects the same elements. -/
theorem selectInWords?_eq {α : Type} (allowed : s.Allowed) {items : List α}
    (short : items.length < 2 ^ 63) : s.selectInWords? items = some (s.select items) := by
  unfold selectInWords?
  rw [positionsInWords?_eq allowed short]
  exact mapM_getElem? (s.positions_lt items.length)

end Select

end Slice

/-! ## Parts of values -/

namespace Value

/-- The number of elements of an array or a string. -/
def size : Value → Nat
  | .array items => items.length
  | .string text => text.toList.length
  | _ => 0

/-- The magnitude of a position is computed in a word without sign, and subtracted from the length
only where it is not greater. -/
def item? (position : Int64) : Value → Option Value
  | .array items =>
      let p := position.toInt
      if 0 ≤ p then some ((items[p.toNat]?).getD .null)
      else if p.natAbs < 2 ^ 64 then
        if p.natAbs ≤ items.length then some ((items[items.length - p.natAbs]?).getD .null)
        else some .null
      else none
  | _ => some .null

def slice? (s : Slice) : Value → Option Value
  | .array items => (s.selectInWords? items).map .array
  | .string text => (s.selectInWords? text.toList).map fun part => .string (String.ofList part)
  | _ => some .null

/-- An array is cut between bounds that are moved to its end; the number of characters to take from
a string is a difference of words without sign. -/
def range? (start stop : Nat) : Value → Option Value
  | .array items =>
      let last := min stop items.length
      let first := min start last
      if first ≤ last ∧ last ≤ items.length then some (.array (between first last items)) else none
  | .string text =>
      if start ≤ stop then
        some (.string (String.ofList (between start stop text.toList)))
      else none
  | _ => some .null

theorem item?_eq (position : Int64) (v : Value) : v.item? position = some (v.item position) := by
  have least := position.le_toInt
  have most := position.toInt_lt
  cases v with
  | array items =>
      unfold item? item
      dsimp only
      rw [if_pos (show position.toInt.natAbs < 2 ^ 64 by omega)]
      split
      · rfl
      · split <;> rfl
  | _ => rfl

theorem slice?_eq {s : Slice} (allowed : s.Allowed) {v : Value} (short : v.size < 2 ^ 63) :
    v.slice? s = some (v.slice s) := by
  cases v with
  | array items =>
      rw [slice?, Slice.selectInWords?_eq allowed short]
      rfl
  | string text =>
      rw [slice?, Slice.selectInWords?_eq allowed short]
      rfl
  | _ => rfl

/-- Bounds behind the end cut off nothing. -/
theorem between_min {α : Type} (start stop : Nat) (items : List α) :
    between (min start (min stop items.length)) (min stop items.length) items =
      between start stop items := by
  unfold between
  by_cases inside : start ≤ min stop items.length
  · rw [Nat.min_eq_left inside, List.take_eq_take_iff, List.length_drop]
    omega
  · have behind : stop - start = 0 ∨ (items.drop start) = [] := by
      rw [List.drop_eq_nil_iff]
      omega
    have empty : min stop items.length - min start (min stop items.length) = 0 := by omega
    rw [empty, List.take_zero]
    rcases behind with none | nothing
    · rw [none, List.take_zero]
    · rw [nothing, List.take_nil]

theorem range?_eq {start stop : Nat} (ordered : start < stop) (v : Value) :
    v.range? start stop = some (v.range start stop) := by
  cases v with
  | array items =>
      unfold range? range
      dsimp only
      rw [if_pos (by omega), between_min]
  | string text => exact if_pos ordered.le
  | _ => rfl

end Value

end JsonQuery
