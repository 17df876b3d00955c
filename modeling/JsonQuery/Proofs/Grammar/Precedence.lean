import JsonQuery.Proofs.Grammar.Inside
import Mathlib.Logic.Function.Iterate

/-!
# How operators nest

Operands in parentheses, negated or not, with operators between them, are read as the one binary
tree that keeps their order and in which an operator has only stronger ones to its right and only
operators at least as strong to its left.  While an expression is read, the waiting operators are
the right spine of the tree for what has been read so far.
-/

set_option autoImplicit false

namespace JsonQuery

namespace Grammar

/-- How tightly an operator holds its sides together. -/
def Connective.strength : Connective → Nat
  | .pipe => 1
  | .either => 2
  | .both => 3
  | .compare _ => 5

theorem Connective.strength_eq_power (op : Connective) : op.strength = op.power := by
  cases op <;> rfl

/-- A tree of operators over queries that are not looked into. -/
inductive OperatorTree where
  | leaf (query : Query)
  | node (op : Connective) (left right : OperatorTree)

namespace OperatorTree

/-- The query that the tree stands for. -/
def query : OperatorTree → Query
  | .leaf q => q
  | .node op left right => op.join left.query right.query

def leaves : OperatorTree → List Query
  | .leaf q => [q]
  | .node _ left right => left.leaves ++ right.leaves

def operators : OperatorTree → List Connective
  | .leaf _ => []
  | .node op left right => left.operators ++ op :: right.operators

def root? : OperatorTree → Option Connective
  | .leaf _ => none
  | .node op _ _ => some op

/-- At every operator, those to its left are at least as strong and those to its right stronger. -/
def Nests : OperatorTree → Prop
  | .leaf _ => True
  | .node op left right =>
      left.Nests ∧ right.Nests ∧ (∀ o ∈ left.root?, op.strength ≤ o.strength) ∧
        ∀ o ∈ right.root?, op.strength < o.strength

/-- The tree has these leaves and operators from left to right, nested by strength. -/
structure Arranges (tree : OperatorTree) (leaves : List Query) (operators : List Connective) :
    Prop where
  nests : tree.Nests
  leaves_eq : tree.leaves = leaves
  operators_eq : tree.operators = operators

/-- Adds an operator and a leaf at the right end. -/
def extend (op : Connective) (q : Query) : OperatorTree → OperatorTree
  | .leaf p => .node op (.leaf p) (.leaf q)
  | .node o left right =>
      if o.strength < op.strength then .node o left (right.extend op q)
      else .node op (.node o left right) (.leaf q)

/-- Adds operators and leaves one after the other. -/
def extendAll (tree : OperatorTree) (rest : List (Connective × Query)) : OperatorTree :=
  rest.foldl (fun tree next => tree.extend next.1 next.2) tree

/-! ### Existence -/

theorem leaves_extend (op : Connective) (q : Query) (tree : OperatorTree) :
    (tree.extend op q).leaves = tree.leaves ++ [q] := by
  induction tree with
  | leaf p => rfl
  | node o left right _ ih =>
      rw [extend]
      split
      · rw [leaves, ih, leaves, List.append_assoc]
      · rfl

theorem operators_extend (op : Connective) (q : Query) (tree : OperatorTree) :
    (tree.extend op q).operators = tree.operators ++ [op] := by
  induction tree with
  | leaf p => rfl
  | node o left right _ ih =>
      rw [extend]
      split
      · rw [operators, ih, operators, List.append_assoc, List.cons_append]
      · rfl

theorem root?_extend {op : Connective} {q : Query} {tree : OperatorTree} {o : Connective}
    (found : o ∈ (tree.extend op q).root?) : o = op ∨ o ∈ tree.root? := by
  cases tree with
  | leaf p =>
      cases found
      exact .inl rfl
  | node o' left right =>
      rw [extend] at found
      split at found
      · exact .inr found
      · cases found
        exact .inl rfl

theorem Nests.extend {tree : OperatorTree} (nests : tree.Nests) (op : Connective) (q : Query) :
    (tree.extend op q).Nests := by
  induction tree with
  | leaf p => exact ⟨trivial, trivial, nofun, nofun⟩
  | node o left right _ ih =>
      obtain ⟨inLeft, inRight, toLeft, toRight⟩ := nests
      rw [OperatorTree.extend]
      split
      · rename_i weaker
        refine ⟨inLeft, ih inRight, toLeft, fun o' found => ?_⟩
        obtain rfl | found := root?_extend found
        · exact weaker
        · exact toRight o' found
      · rename_i stronger
        refine ⟨⟨inLeft, inRight, toLeft, toRight⟩, trivial, ?_, nofun⟩
        rintro _ ⟨⟩
        omega

theorem Arranges.extend {tree : OperatorTree} {leaves : List Query} {operators : List Connective}
    (arranges : tree.Arranges leaves operators) (op : Connective) (q : Query) :
    (tree.extend op q).Arranges (leaves ++ [q]) (operators ++ [op]) where
  nests := arranges.nests.extend op q
  leaves_eq := by rw [leaves_extend, arranges.leaves_eq]
  operators_eq := by rw [operators_extend, arranges.operators_eq]

theorem Arranges.extendAll {tree : OperatorTree} {leaves : List Query}
    {operators : List Connective} (arranges : tree.Arranges leaves operators)
    (rest : List (Connective × Query)) :
    (tree.extendAll rest).Arranges (leaves ++ rest.map Prod.snd)
      (operators ++ rest.map Prod.fst) := by
  induction rest generalizing tree leaves operators with
  | nil =>
      rw [List.map_nil, List.map_nil, List.append_nil, List.append_nil]
      exact arranges
  | cons next rest ih =>
      have extended := ih (arranges.extend next.1 next.2)
      rw [List.append_assoc, List.append_assoc] at extended
      exact extended

/-! ### Uniqueness -/

/-- The leftmost leaf. -/
def first : OperatorTree → Query
  | .leaf q => q
  | .node _ left _ => left.first

/-- Each operator with the leaf behind it. -/
def pairs : OperatorTree → List (Connective × Query)
  | .leaf _ => []
  | .node op left right => left.pairs ++ (op, right.first) :: right.pairs

theorem leaves_eq_pairs (tree : OperatorTree) :
    tree.leaves = tree.first :: tree.pairs.map Prod.snd := by
  induction tree with
  | leaf q => rfl
  | node op left right ihLeft ihRight =>
      rw [leaves, ihLeft, ihRight, first, pairs, List.map_append, List.map_cons, List.cons_append]

theorem operators_eq_pairs (tree : OperatorTree) : tree.operators = tree.pairs.map Prod.fst := by
  induction tree with
  | leaf q => rfl
  | node op left right ihLeft ihRight =>
      rw [operators, ihLeft, ihRight, pairs, List.map_append, List.map_cons]

theorem eq_of_map_fst_snd {α β : Type} {as bs : List (α × β)}
    (fsts : as.map Prod.fst = bs.map Prod.fst) (snds : as.map Prod.snd = bs.map Prod.snd) :
    as = bs := by
  rw [← List.zip_unzip as, ← List.zip_unzip bs, List.unzip_eq_map, List.unzip_eq_map, fsts, snds]

/-- The root is the weakest operator. -/
theorem Nests.strength_le {tree : OperatorTree} (nests : tree.Nests) {o : Connective}
    (root : o ∈ tree.root?) : ∀ next ∈ tree.pairs, o.strength ≤ next.1.strength := by
  induction tree generalizing o with
  | leaf q => cases root
  | node op left right ihLeft ihRight =>
      cases root
      obtain ⟨inLeft, inRight, toLeft, toRight⟩ := nests
      intro next found
      obtain found | found := List.mem_append.mp found
      · cases left with
        | leaf p => cases found
        | node o' _ _ => exact Nat.le_trans (toLeft o' rfl) (ihLeft inLeft rfl next found)
      · obtain rfl | found := List.mem_cons.mp found
        · exact Nat.le_refl _
        · cases right with
          | leaf p => cases found
          | node o' _ _ =>
              exact Nat.le_trans (Nat.le_of_lt (toRight o' rfl)) (ihRight inRight rfl next found)

theorem extendAll_node {op : Connective} (left right : OperatorTree)
    {rest : List (Connective × Query)} (stronger : ∀ next ∈ rest, op.strength < next.1.strength) :
    (node op left right).extendAll rest = .node op left (right.extendAll rest) := by
  induction rest generalizing right with
  | nil => rfl
  | cons next rest ih =>
      rw [List.forall_mem_cons] at stronger
      have extended : (node op left right).extend next.1 next.2 =
          .node op left (right.extend next.1 next.2) := if_pos stronger.1
      simp only [extendAll, List.foldl_cons, extended]
      exact ih _ stronger.2

/-- A tree that nests is what its leaves and operators are arranged into. -/
theorem Nests.extendAll_pairs {tree : OperatorTree} (nests : tree.Nests) :
    (leaf tree.first).extendAll tree.pairs = tree := by
  induction tree with
  | leaf q => rfl
  | node op left right ihLeft ihRight =>
      obtain ⟨inLeft, inRight, toLeft, toRight⟩ := nests
      have stronger : ∀ next ∈ right.pairs, op.strength < next.1.strength := by
        intro next found
        cases right with
        | leaf p => cases found
        | node o _ _ => exact Nat.lt_of_lt_of_le (toRight o rfl) (inRight.strength_le rfl next found)
      have extended : left.extend op right.first = .node op left (.leaf right.first) := by
        cases left with
        | leaf p => rfl
        | node o _ _ => exact if_neg (Nat.not_lt.mpr (toLeft o rfl))
      have whole : (leaf left.first).extendAll (left.pairs ++ (op, right.first) :: right.pairs) =
          (((leaf left.first).extendAll left.pairs).extend op right.first).extendAll
            right.pairs := by
        simp only [extendAll, List.foldl_append, List.foldl_cons]
      rw [first, pairs, whole, ihLeft inLeft, extended, extendAll_node left _ stronger,
        ihRight inRight]

theorem Arranges.unique {tree other : OperatorTree} {leaves : List Query}
    {operators : List Connective} (arranges : tree.Arranges leaves operators)
    (others : other.Arranges leaves operators) : other = tree := by
  have sameLeaves := others.leaves_eq.trans arranges.leaves_eq.symm
  have sameOperators := others.operators_eq.trans arranges.operators_eq.symm
  rw [leaves_eq_pairs, leaves_eq_pairs, List.cons.injEq] at sameLeaves
  rw [operators_eq_pairs, operators_eq_pairs] at sameOperators
  rw [← arranges.nests.extendAll_pairs, ← others.nests.extendAll_pairs, sameLeaves.1,
    eq_of_map_fst_snd sameOperators sameLeaves.2]

/-! ### The waiting operators -/

/-- The operators on the right spine as they wait, with what is to their left, and the last leaf. -/
def spine : OperatorTree → List Pending × Query
  | .leaf q => ([], q)
  | .node op left right => (right.spine.1 ++ [.connective op left.query], right.spine.2)

theorem settle_append {power : Nat} {first : List Pending} {q q' : Query}
    (settled : settle power first q = ([], q')) (second : List Pending) :
    settle power (first ++ second) q = settle power second q' := by
  induction first generalizing q with
  | nil =>
      cases settled
      rfl
  | cons p ps ih =>
      rw [settle] at settled
      by_cases weaker : p.power < power
      · rw [if_pos weaker] at settled
        cases settled
      · rw [if_neg weaker] at settled
        rw [List.cons_append, settle, if_neg weaker]
        exact ih settled

theorem settle_append_weaker {power : Nat} {p : Pending} (weaker : p.power < power)
    (first : List Pending) (q : Query) :
    settle power (first ++ [p]) q = ((settle power first q).1 ++ [p], (settle power first q).2) := by
  induction first generalizing q with
  | nil => exact if_pos weaker
  | cons p' ps ih =>
      rw [List.cons_append, settle, settle]
      by_cases weaker' : p'.power < power
      · rw [if_pos weaker', if_pos weaker', List.cons_append]
      · rw [if_neg weaker', if_neg weaker']
        exact ih _

/-- A token that is not above the root completes the whole tree. -/
theorem settle_spine {power : Nat} {tree : OperatorTree} (nests : tree.Nests)
    (root : ∀ o ∈ tree.root?, power ≤ o.strength) :
    settle power tree.spine.1 tree.spine.2 = ([], tree.query) := by
  induction tree with
  | leaf q => rfl
  | node op left right _ ih =>
      obtain ⟨-, inRight, -, toRight⟩ := nests
      have here : power ≤ op.strength := root op rfl
      have settled := ih inRight fun o found =>
        Nat.le_trans here (Nat.le_of_lt (toRight o found))
      have last : ¬(Pending.connective op left.query).power < power := by
        rw [Pending.power, ← op.strength_eq_power]
        exact Nat.not_lt.mpr here
      rw [spine, settle_append settled, settle, if_neg last]
      rfl

/-- The next operator waits where the tree grows, with what its power completes to its left. -/
theorem spine_extend {tree : OperatorTree} (nests : tree.Nests) (op : Connective) (q : Query) :
    (tree.extend op q).spine =
      (.connective op (settle op.power tree.spine.1 tree.spine.2).2 ::
        (settle op.power tree.spine.1 tree.spine.2).1, q) := by
  induction tree with
  | leaf p => rfl
  | node o left right _ ih =>
      rw [OperatorTree.extend]
      by_cases weaker : o.strength < op.strength
      · obtain ⟨-, inRight, -, -⟩ := nests
        have waits : (Pending.connective o left.query).power < op.power := by
          rwa [Pending.power, ← o.strength_eq_power, ← op.strength_eq_power]
        rw [if_pos weaker, spine, ih inRight, spine, settle_append_weaker waits]
        rfl
      · have settled : settle op.power (node o left right).spine.1 (node o left right).spine.2 =
            ([], (node o left right).query) := by
          rw [← op.strength_eq_power]
          apply settle_spine nests
          rintro _ ⟨⟩
          exact Nat.not_lt.mp weaker
        rw [if_neg weaker, settled]
        rfl

end OperatorTree

/-- Negations bind tighter than the operators, so they go to the operand behind them. -/
theorem settle_negations {power : Nat} (weak : power ≤ TokenKind.not.power) (negations : Nat)
    (pending : List Pending) (q : Query) :
    settle power (List.replicate negations .negation ++ pending) q =
      settle power pending (Query.negate^[negations] q) := by
  induction negations generalizing q with
  | zero => rfl
  | succ n ih =>
      have strong : ¬Pending.negation.power < power := Nat.not_lt.mpr weak
      rw [List.replicate_succ, List.cons_append, settle, if_neg strong, ih]
      rfl

end Grammar

end JsonQuery
