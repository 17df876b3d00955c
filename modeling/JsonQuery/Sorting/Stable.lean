import JsonQuery.Number.Power
import JsonQuery.Sorting.Merge

/-!
# Stable sorting

Runs that are sorted already are found and merged.  What lies between them is gathered and sorted by
partition around a pivot; where the pivots are bad for too long, it is cut into short sorted runs
instead.  Which neighbours are merged first is decided by where they meet.
-/

set_option autoImplicit false

namespace JsonQuery.Sorting

variable {α : Type} (before : α → α → Bool)

/-! ## Runs -/

/-- Neighbouring items; those that are not sorted wait for it. -/
structure Run (α : Type) where
  items : List α
  sorted : Bool

/-- How many items behind a first one are each not before the one in front of them. -/
def ascent (first : α) : List α → Nat
  | [] => 0
  | next :: rest => if before next first then 0 else ascent next rest + 1

/-- How many items behind a first one are each before the one in front of them. -/
def descent (first : α) : List α → Nat
  | [] => 0
  | next :: rest => if before next first then descent next rest + 1 else 0

/-- The length of the run at the front, and whether it descends. -/
def naturalRun : List α → Nat × Bool
  | [] => (0, false)
  | first :: rest =>
      if descent before first rest = 0 then (ascent before first rest + 1, false)
      else (descent before first rest + 1, true)

def frontLength (eager : Bool) (goal : Nat) (items : List α) : Nat :=
  if goal ≤ (naturalRun before items).1 then (naturalRun before items).1
  else if eager then shortLength
  else goal

/-- The run that is taken from the front: a natural one if it is long enough, otherwise one that is
sorted at once or later. -/
def frontRun (eager : Bool) (goal : Nat) (items : List α) : Option (Run α) :=
  let front := items.take (frontLength before eager goal items)
  if goal ≤ (naturalRun before items).1 then
    some ⟨if (naturalRun before items).2 then front.reverse else front, true⟩
  else if eager then (sortShort before front).map fun sorted => ⟨sorted, true⟩
  else some ⟨front, false⟩

theorem naturalRun_pos {items : List α} (nonempty : items ≠ []) :
    0 < (naturalRun before items).1 := by
  cases items with
  | nil => exact absurd rfl nonempty
  | cons first rest =>
      rw [naturalRun]
      split <;> exact Nat.succ_pos _

theorem frontLength_pos {items : List α} (nonempty : items ≠ []) (eager : Bool) (goal : Nat) :
    0 < frontLength before eager goal items := by
  have natural := naturalRun_pos before nonempty
  unfold frontLength
  split
  · exact natural
  · split
    · decide
    · omega

def runs (eager : Bool) (goal : Nat) : List α → Option (List (Run α))
  | [] => some []
  | item :: items => do
      let first ← frontRun before eager goal (item :: items)
      let others ← runs eager goal
        ((item :: items).drop (frontLength before eager goal (item :: items)))
      return first :: others
termination_by items => items.length
decreasing_by
  have taken := frontLength_pos before (List.cons_ne_nil item items) eager goal
  rw [List.length_drop, List.length_cons]
  omega

def Run.sortedItems (sort : List α → Option (List α)) (run : Run α) : Option (List α) :=
  if run.sorted then some run.items else sort run.items

/-- Joins neighbouring runs.  Unsorted ones stay so as long as there is room to sort them
together. -/
def join (sort : List α → Option (List α)) (room : Nat) (left right : Run α) : Option (Run α) :=
  if left.sorted || right.sorted || room < left.items.length + right.items.length then do
    let lefts ← left.sortedItems sort
    let rights ← right.sortedItems sort
    return ⟨merge before lefts rights, true⟩
  else some ⟨left.items ++ right.items, false⟩

def leadingZeros (n : UInt64) : Nat :=
  if n = 0 then 64 else 63 - n.toNat.log2

/-- How deep in the tree of merges the runs from `start` to `middle` and on to `stop` belong, among
`total` items: as deep as the centres of the two are in the same part of all halves, quarters and so
on. -/
def joinDepth (total start middle stop : Nat) : Nat :=
  let scale := UInt64.ofNat ((twoPow 62 + total - 1) / total)
  leadingZeros ((scale * UInt64.ofNat (start + middle)) ^^^ (scale * UInt64.ofNat (middle + stop)))

/-- Joins a run with the waiting ones to its left that belong at least as deep. -/
def joinDeeper (sort : List α → Option (List α)) (room depth : Nat) :
    List (Run α × Nat) → Run α → Option (List (Run α × Nat) × Run α)
  | (left, deep) :: waiting, run =>
      if depth ≤ deep then do
        let joined ← join before sort room left run
        joinDeeper sort room depth waiting joined
      else some ((left, deep) :: waiting, run)
  | [], run => some ([], run)

def joinAll (sort : List α → Option (List α)) (room total : Nat) (waiting : List (Run α × Nat))
    (run : Run α) (stop : Nat) : List (Run α) → Option (Run α)
  | [] => (joinDeeper before sort room 0 waiting run).map Prod.snd
  | next :: others => do
      let depth :=
        joinDepth total (stop - run.items.length) stop (stop + next.items.length)
      let (waiting, run) ← joinDeeper before sort room depth waiting run
      joinAll sort room total ((run, depth) :: waiting) next (stop + next.items.length) others

def rootEstimate (n : Nat) : Nat :=
  let shift := (n.log2 + 1) / 2
  ((1 <<< shift) + (n >>> shift)) / 2

/-- The length from which on natural runs are taken. -/
def goalLength (total : Nat) : Nat :=
  if total ≤ 4096 then min (total - total / 2) 64 else rootEstimate total

def sortRuns (sort : List α → Option (List α)) (room : Nat) (eager : Bool) (items : List α) :
    Option (List α) := do
  match ← runs before eager (goalLength items.length) items with
  | [] => return []
  | first :: others =>
      let whole ← joinAll before sort room items.length [] first first.items.length others
      whole.sortedItems sort

/-! ## Partition -/

def median (a b c : α) : α :=
  if before a b = before a c then if before b c = before a b then b else c else a

/-- The median of three items from `start` on, which are medians themselves where there are enough
items. -/
def pivot (items : List α) (start length : Nat) : Option α :=
  if length < 8 then items[start]?
  else do
    let a ← pivot items start (length / 8)
    let b ← pivot items (start + 4 * (length / 8)) (length / 8)
    let c ← pivot items (start + 7 * (length / 8)) (length / 8)
    return median before a b c
termination_by length

/-- Sorts by partition, at most `limit` times inside of each other and then in some other way.  No
item is before the `floor`; if the pivot is not after it, then the items not after the pivot are all
equal. -/
def sortParts (otherwise : List α → Option (List α)) :
    (limit : Nat) → (floor : Option α) → List α → Option (List α)
  | 0, _, items =>
      if items.length ≤ shortLength then sortShort before items else otherwise items
  | limit + 1, floor, items =>
      if items.length ≤ shortLength then sortShort before items
      else do
        let middle ← pivot before items 0 items.length
        let lower := items.filter fun x => before x middle
        if lower.isEmpty || floor.any fun x => !before x middle then
          let greater ← sortParts otherwise limit none (items.filter fun x => before middle x)
          return (items.filter fun x => !before middle x) ++ greater
        else
          let upper ← sortParts otherwise limit (some middle)
            (items.filter fun x => !before x middle)
          let lower ← sortParts otherwise limit floor lower
          return lower ++ upper

/-- Sorts by partition, or by short runs where this makes no headway. -/
def sortLong (items : List α) : Option (List α) :=
  sortParts before (sortRuns before some items.length true) (2 * (items.length ||| 1).log2) none
    items

/-! ## The sort -/

/-- Sorts items so that those of which neither is before the other stay in order.  There are `room`
places to work in.  An order that contradicts itself may leave the items in any order, or without a
result. -/
def stableSort (room : Nat) (items : List α) : Option (List α) :=
  if items.length ≤ 20 then some (insertionSort before items)
  else sortRuns before (sortLong before) room (items.length ≤ 2 * shortLength) items

end JsonQuery.Sorting
