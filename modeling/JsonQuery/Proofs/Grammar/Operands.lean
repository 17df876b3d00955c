import JsonQuery.Proofs.Grammar.Precedence
import Mathlib

/-!
# Expressions of parenthesized operands

Expressions in parentheses, negated or not, with operators between them, are read as the tree in
which the strength of the operators decides what nests.
-/

set_option autoImplicit false

namespace JsonQuery

namespace Grammar.Connective

def symbol : Connective → String
  | .pipe => "|"
  | .either => "||"
  | .both => "&&"
  | .compare op => op.symbol

def lexeme : Connective → Lexeme
  | .pipe => .pipe
  | .either => .or
  | .both => .and
  | .compare op => .comparator op

theorem power_lexeme (op : Connective) : op.lexeme.power = op.power := by
  cases op <;> rfl

theorem power_ne_zero (op : Connective) : op.power ≠ 0 := by
  unfold power
  split <;> decide

theorem power_le_not (op : Connective) : op.power ≤ TokenKind.not.power := by
  unfold power
  split <;> decide

/-- An operator waits for its right-hand side, with what its power completes to its left. -/
theorem step_lexeme (op : Connective) (lenient : Bool) (pending : List Pending)
    (levels : List Level) (q : Query) :
    (State.mk (.operator q) ⟨pending, levels⟩).step lenient op.lexeme =
      .ok ⟨.operand, ⟨.connective op (settle op.power pending q).2 ::
        (settle op.power pending q).1, levels⟩⟩ := by
  have joined (context : Context) (left : Query) : stepInfix context left op.lexeme =
      .ok ⟨.operand, context.push (.connective op left)⟩ := by
    cases op <;> rfl
  simp only [State.step, stepOperator, power_lexeme, if_neg op.power_ne_zero, joined]
  rfl

end Grammar.Connective

namespace Lexeme

open Grammar (Connective)

theorem lexemes_lparen (rest : List Char) : lexemes ('(' :: rest) = .lparen :: lexemes rest :=
  lexemes_mark (by decide) rest

theorem lexemes_rparen (rest : List Char) : lexemes (')' :: rest) = .rparen :: lexemes rest :=
  lexemes_mark (by decide) rest

theorem lexemes_negations (negations : Nat) (rest : List Char) :
    lexemes (List.replicate negations '!' ++ '(' :: rest) =
      List.replicate negations .not ++ .lparen :: lexemes rest := by
  induction negations with
  | zero => exact lexemes_lparen rest
  | succ n ih =>
      have alone : extent '!' (List.replicate n '!' ++ '(' :: rest) = 0 := by
        cases n <;> rfl
      rw [List.replicate_succ, List.cons_append, lexemes_single rfl alone, ih]
      rfl

theorem lexemes_symbol (op : Connective) (rest : List Char) :
    lexemes (' ' :: (op.symbol.toList ++ ' ' :: rest)) = op.lexeme :: lexemes rest := by
  obtain ⟨first, second, spelled, extent_eq, visible, read⟩ :
      ∃ first second, op.symbol.toList = first :: second ∧
        extent first (second ++ ' ' :: rest) = second.length ∧ isBlank first = false ∧
        ofSpelling first second = op.lexeme := by
    rcases op with _ | _ | _ | op
    · exact ⟨'|', [], rfl, rfl, rfl, rfl⟩
    · exact ⟨'|', ['|'], rfl, rfl, rfl, rfl⟩
    · exact ⟨'&', ['&'], rfl, rfl, rfl, rfl⟩
    · cases op with
      | eq => exact ⟨'=', ['='], rfl, rfl, rfl, rfl⟩
      | ne => exact ⟨'!', ['='], rfl, rfl, rfl, rfl⟩
      | lt => exact ⟨'<', [], rfl, rfl, rfl, rfl⟩
      | le => exact ⟨'<', ['='], rfl, rfl, rfl, rfl⟩
      | gt => exact ⟨'>', [], rfl, rfl, rfl, rfl⟩
      | ge => exact ⟨'>', ['='], rfl, rfl, rfl, rfl⟩
  have blank (rest : List Char) : lexemes (' ' :: rest) = lexemes rest := lexemes_blank rfl
  rw [blank, spelled, List.cons_append, lexemes_cons visible, extent_eq, List.take_left,
    List.drop_left, blank, read]

end Lexeme

/-- An expression in parentheses with exclamation marks before them. -/
structure Operand (parser : Parser) where
  negations : Nat
  text : String
  query : Query
  reads : parser.parse text = .ok query

open Grammar

namespace Operand

variable {parser : Parser}

/-- The query that the operand is read as. -/
def leaf (operand : Operand parser) : Query :=
  Query.negate^[operand.negations] operand.query

def spelling (operand : Operand parser) : List Char :=
  List.replicate operand.negations '!' ++ '(' :: (operand.text.toList ++ [')'])

def lexemes (operand : Operand parser) : List Lexeme :=
  List.replicate operand.negations .not ++
    .lparen :: (JsonQuery.lexemes operand.text.toList ++ [.rparen])

theorem lexemes_spelling (operand : Operand parser) (tail : List Char) :
    JsonQuery.lexemes (operand.spelling ++ tail) = operand.lexemes ++ JsonQuery.lexemes tail := by
  have separate : Lexeme.StartsSeparate (')' :: tail) := by
    rintro _ ⟨⟩
    rfl
  have known := unknown_not_mem_of_parse operand.reads
  rw [spelling, lexemes, List.append_assoc, List.cons_append, List.append_assoc,
    Lexeme.lexemes_negations, List.singleton_append, Lexeme.lexemes_append known separate,
    Lexeme.lexemes_rparen, List.append_assoc, List.cons_append, List.append_assoc]
  rfl

/-- The negations wait before the query of the operand. -/
theorem walk_lexemes (operand : Operand parser) (pending : List Pending) (rest : List Lexeme) :
    walk parser.lenient ⟨.operand, ⟨pending, []⟩⟩ (operand.lexemes ++ rest) =
      walk parser.lenient ⟨.operator operand.query,
        ⟨List.replicate operand.negations .negation ++ pending, []⟩⟩ rest := by
  obtain ⟨negations, text, q, reads⟩ := operand
  induction negations generalizing pending with
  | zero =>
      have grouped := walk_group reads ⟨pending, []⟩ rest
      rw [lexemes, List.append_assoc, List.cons_append, List.append_assoc]
      exact grouped
  | succ n ih =>
      have negated : (State.mk .operand ⟨pending, []⟩).step parser.lenient .not =
          .ok ⟨.operand, ⟨.negation :: pending, []⟩⟩ := rfl
      have others := ih (.negation :: pending)
      have moved : List.replicate n Pending.negation ++ .negation :: pending =
          List.replicate (n + 1) .negation ++ pending := by
        rw [List.replicate_succ', List.append_assoc, List.singleton_append]
      rw [moved] at others
      exact (walk_cons_of_step negated _).trans others

end Operand

/-! ## Reading operands and operators -/

section

open OperatorTree

variable {parser : Parser}

/-- The state behind an operand that is the last leaf of a tree. -/
def State.behind (tree : OperatorTree) (operand : Operand parser) : State :=
  ⟨.operator operand.query, ⟨List.replicate operand.negations .negation ++ tree.spine.1, []⟩⟩

variable {tree : OperatorTree} {operand : Operand parser}

theorem settle_behind (last : tree.spine.2 = operand.leaf) {power : Nat}
    (weak : power ≤ TokenKind.not.power) :
    settle power (List.replicate operand.negations .negation ++ tree.spine.1) operand.query =
      settle power tree.spine.1 tree.spine.2 := by
  rw [settle_negations weak, last, Operand.leaf]

theorem step_eof_behind (nests : tree.Nests) (last : tree.spine.2 = operand.leaf) :
    (State.behind tree operand).step parser.lenient .eof = .ok ⟨.done tree.query, .outermost⟩ := by
  have settled := settle_behind last (Nat.zero_le _)
  rw [settle_spine nests fun o _ => Nat.zero_le o.strength] at settled
  have ended : stepOperator parser.lenient
      ⟨List.replicate operand.negations .negation ++ tree.spine.1, []⟩ operand.query .eof =
      .ok ⟨.done tree.query, .outermost⟩ := by
    rw [stepOperator_powerless _ _ rfl, settled]
    rfl
  exact ended

/-- An operator and an operand extend the tree. -/
theorem walk_behind (nests : tree.Nests) (last : tree.spine.2 = operand.leaf) (op : Connective)
    (next : Operand parser) (rest : List Lexeme) :
    walk parser.lenient (State.behind tree operand) (op.lexeme :: (next.lexemes ++ rest)) =
      walk parser.lenient (State.behind (tree.extend op next.leaf) next) rest := by
  have stepped := op.step_lexeme parser.lenient
    (List.replicate operand.negations .negation ++ tree.spine.1) [] operand.query
  rw [settle_behind last op.power_le_not] at stepped
  rw [State.behind, walk_cons_of_step stepped, next.walk_lexemes, State.behind, spine_extend nests]

/-- With a tree read up to its last leaf, the rest extends the tree and the end completes it. -/
theorem walk_rest (nests : tree.Nests) (last : tree.spine.2 = operand.leaf)
    (rest : List (Connective × Operand parser)) :
    walk parser.lenient (State.behind tree operand)
        ((rest.flatMap fun next => next.1.lexeme :: next.2.lexemes) ++ [.eof]) =
      .ok ⟨.done (tree.extendAll (rest.map fun next => (next.1, next.2.leaf))).query,
        .outermost⟩ := by
  induction rest generalizing tree operand with
  | nil => exact walk_cons_of_step (step_eof_behind nests last) []
  | cons next rest ih =>
      have extended := nests.extend next.1 next.2.leaf
      have last' : (tree.extend next.1 next.2.leaf).spine.2 = next.2.leaf := by
        rw [spine_extend nests]
      rw [List.flatMap_cons, List.cons_append, List.cons_append, List.append_assoc,
        walk_behind nests last, ih extended last']
      rfl

/-- The text of operands with operators between them. -/
def spell (first : Operand parser) (rest : List (Connective × Operand parser)) : String :=
  String.ofList (first.spelling ++ rest.flatMap fun next =>
    ' ' :: (next.1.symbol.toList ++ ' ' :: next.2.spelling))

theorem lexemes_spell (first : Operand parser) (rest : List (Connective × Operand parser)) :
    lexemes (spell first rest).toList =
      first.lexemes ++ rest.flatMap fun next => next.1.lexeme :: next.2.lexemes := by
  rw [spell, String.toList_ofList]
  induction rest generalizing first with
  | nil =>
      rw [List.flatMap_nil, first.lexemes_spelling, Lexeme.lexemes_nil, List.flatMap_nil]
  | cons next rest ih =>
      rw [first.lexemes_spelling, List.flatMap_cons, List.flatMap_cons, List.cons_append,
        List.append_assoc, List.cons_append, Lexeme.lexemes_symbol, ih, List.cons_append]

theorem parse_spell_extendAll (first : Operand parser) (rest : List (Connective × Operand parser)) :
    parser.parse (spell first rest) =
      .ok ((leaf first.leaf).extendAll (rest.map fun next => (next.1, next.2.leaf))).query := by
  have single : (leaf first.leaf).Nests := trivial
  have last : (leaf first.leaf).spine.2 = first.leaf := rfl
  rw [parse_eq_ok, lexemes_spell, List.append_assoc]
  exact (first.walk_lexemes [] _).trans (walk_rest single last rest)

theorem parse_parenthesized {text : String} {q : Query} (read : parser.parse text = .ok q) :
    parser.parse ("(" ++ text ++ ")") = .ok q := by
  have spelled : spell ⟨0, text, q, read⟩ [] = "(" ++ text ++ ")" := by
    apply String.toList_inj.mp
    rw [spell, Operand.spelling]
    simp only [List.replicate_zero, List.nil_append, List.flatMap_nil, List.append_nil,
      String.toList_ofList, String.toList_append]
    rfl
  rw [← spelled]
  exact parse_spell_extendAll _ []

/-- Operands in parentheses with operators between them are read as the one tree that keeps their
order and nests by strength.  Without operators the parentheses change nothing. -/
theorem parse_spell (parser : Parser) :
    (∀ (first : Operand parser) (rest : List (Connective × Operand parser)),
      ∃ tree : OperatorTree,
        parser.parse (spell first rest) = .ok tree.query ∧
        tree.Arranges (first.leaf :: rest.map fun next => next.2.leaf) (rest.map Prod.fst) ∧
        ∀ other : OperatorTree,
          other.Arranges (first.leaf :: rest.map fun next => next.2.leaf) (rest.map Prod.fst) →
            other = tree) ∧
    ∀ (text : String) (q : Query), parser.parse text = .ok q →
      parser.parse ("(" ++ text ++ ")") = .ok q := by
  refine ⟨fun first rest => ?_, fun text q read => parse_parenthesized read⟩
  have single : (leaf first.leaf).Arranges [first.leaf] [] := ⟨trivial, rfl, rfl⟩
  have arranges := single.extendAll (rest.map fun next => (next.1, next.2.leaf))
  rw [List.map_map, List.map_map] at arranges
  exact ⟨_, parse_spell_extendAll first rest, arranges, fun other others =>
    arranges.unique others⟩

/-- Each operator stands next to a weaker and to a stronger one, on either side. -/
theorem parse_spell_mixed :
    (Parser.mk false).parse "(a) | !!(b || c) == (d) && (a) || (b) && (c) < (d)" =
        .ok (.pipe (.field "a")
          (.either
            (.both
              (.compare .eq (.negate (.negate (.either (.field "b") (.field "c")))) (.field "d"))
              (.field "a"))
            (.both (.field "b") (.compare .lt (.field "c") (.field "d"))))) ∧
      (Parser.mk false).parse "(b || c)" = .ok (.either (.field "b") (.field "c")) := by
  have readA : (Parser.mk false).parse "a" = .ok (.field "a") := by cbv
  have readB : (Parser.mk false).parse "b" = .ok (.field "b") := by cbv
  have readC : (Parser.mk false).parse "c" = .ok (.field "c") := by cbv
  have readD : (Parser.mk false).parse "d" = .ok (.field "d") := by cbv
  have readOr : (Parser.mk false).parse "b || c" = .ok (.either (.field "b") (.field "c")) := by cbv
  refine ⟨?_, (parse_spell ⟨false⟩).2 "b || c" _ readOr⟩
  let a : Operand ⟨false⟩ := ⟨0, "a", _, readA⟩
  let b : Operand ⟨false⟩ := ⟨0, "b", _, readB⟩
  let c : Operand ⟨false⟩ := ⟨0, "c", _, readC⟩
  let d : Operand ⟨false⟩ := ⟨0, "d", _, readD⟩
  let either : Operand ⟨false⟩ := ⟨2, "b || c", _, readOr⟩
  obtain ⟨tree, read, arranges, unique⟩ := (parse_spell ⟨false⟩).1 a
    [(.pipe, either), (.compare .eq, d), (.both, a), (.either, b), (.both, c), (.compare .lt, d)]
  have spelled : spell a [(.pipe, either), (.compare .eq, d), (.both, a), (.either, b), (.both, c),
      (.compare .lt, d)] = "(a) | !!(b || c) == (d) && (a) || (b) && (c) < (d)" := by cbv
  let guarded := node .both (node (.compare .eq) (leaf either.leaf) (leaf d.leaf)) (leaf a.leaf)
  let below := node .both (leaf b.leaf) (node (.compare .lt) (leaf c.leaf) (leaf d.leaf))
  have nests : (node .pipe (leaf a.leaf) (node .either guarded below)).Nests := by
    simp [guarded, below, Nests, root?, Connective.strength]
  rw [← unique _ ⟨nests, rfl, rfl⟩, spelled] at read
  exact read

end

end JsonQuery
