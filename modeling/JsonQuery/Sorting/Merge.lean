/-!
# Insertion and merging

Sorting asks an order for nothing but whether one item is strictly before another.  Few items are
sorted by insertion.  Some more are sorted in two halves, which are merged from both of their ends
at once; where the two merges do not meet, the order contradicts itself and nothing comes out.
-/

set_option autoImplicit false

namespace JsonQuery.Sorting

variable {α : Type} (before : α → α → Bool)

/-! ## Insertion -/

/-- Puts an item into a sorted list that is held last item first.  The item passes only those that
it is strictly before. -/
def insertLast (new : α) : List α → List α
  | [] => [new]
  | last :: rest => if before new last then last :: insertLast new rest else new :: last :: rest

def insertAll (sorted items : List α) : List α :=
  items.foldl (fun sorted new => insertLast before new sorted) sorted

def insertionSort (items : List α) : List α :=
  (insertAll before [] items).reverse

/-! ## Merging -/

/-- Two lists of which some items have been merged. -/
structure Merging (α : Type) where
  merged : List α
  /-- What is left of the first list. -/
  left : List α
  /-- What is left of the second list. -/
  right : List α

def Merging.cons (item : α) (merging : Merging α) : Merging α :=
  { merging with merged := item :: merging.merged }

/-- Merges up to `n` items from the fronts of two lists, while neither list is used up.  An item of
the second list goes first only if it is strictly before the one of the first list. -/
def mergeFront : Nat → List α → List α → Merging α
  | 0, left, right => ⟨[], left, right⟩
  | _ + 1, [], right => ⟨[], [], right⟩
  | _ + 1, a :: left, [] => ⟨[], a :: left, []⟩
  | n + 1, a :: left, b :: right =>
      if before b a then (mergeFront n (a :: left) right).cons b
      else (mergeFront n left (b :: right)).cons a

def mergeBack (n : Nat) (left right : List α) : Merging α :=
  let turned := mergeFront (fun x y => before y x) n right.reverse left.reverse
  ⟨turned.merged.reverse, turned.right.reverse, turned.left.reverse⟩

/-- Merges two lists, from the front if the first one is not longer and from the end otherwise. -/
def merge (left right : List α) : List α :=
  if left.length ≤ right.length then
    let front := mergeFront before (left.length + right.length) left right
    front.merged ++ (front.left ++ front.right)
  else
    let back := mergeBack before (left.length + right.length) left right
    back.left ++ back.right ++ back.merged

/-- Merges two lists from both ends at once, half of the items from each, unless this would take an
item twice. -/
def mergeBoth (left right : List α) : Option (List α) :=
  let half := (left.length + right.length) / 2
  let front := mergeFront before half left right
  let back := mergeBack before half left right
  if left.length ≤ front.left.length + back.left.length ∧
      right.length ≤ front.right.length + back.right.length then
    let middle := front.left.take (front.left.length + back.left.length - left.length) ++
      front.right.take (front.right.length + back.right.length - right.length)
    some (front.merged ++ middle ++ back.merged)
  else none

/-! ## Short lists -/

def sortTwo (a b : α) : α × α :=
  if before b a then (b, a) else (a, b)

/-- Merges two sorted pairs by three questions: about their first items, about their last ones, and
about those that are neither first nor last. -/
def mergePairs : α × α → α × α → List α
  | (a, b), (c, d) =>
      let overtakes := before c a
      let stays := before d b
      let first := if overtakes then c else a
      let last := if stays then b else d
      let left := if overtakes then a else if stays then c else b
      let right := if stays then d else if overtakes then b else c
      if before right left then [first, right, left, last] else [first, left, right, last]

def sortFour (a b c d : α) : List α :=
  mergePairs before (sortTwo before a b) (sortTwo before c d)

/-- Sorts the first four items, and inserts the others. -/
def sortFromFour : List α → List α
  | a :: b :: c :: d :: rest => (insertAll before (sortFour before a b c d).reverse rest).reverse
  | items => insertionSort before items

def shortLength : Nat :=
  32

def sortShort (items : List α) : Option (List α) :=
  let sortHalf := if 8 ≤ items.length then sortFromFour before else insertionSort before
  let half := items.length / 2
  if items.length < 2 then some items
  else mergeBoth before (sortHalf (items.take half)) (sortHalf (items.drop half))

end JsonQuery.Sorting
