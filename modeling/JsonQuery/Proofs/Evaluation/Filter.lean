import JsonQuery.Proofs.Builtin.Contract
import JsonQuery.Proofs.Grammar.Constructs

/-!
# What filters select

A filter keeps the items on which its test is truthy, and drops nulls whatever their test says.
Whichever fused form a test takes, it is truthy where its plain form is; so a filter by a negated
test selects the other items, and two filters in a row select by both tests.
-/

set_option autoImplicit false

namespace JsonQuery

open Grammar Lexeme

/-! ## Reading filters -/

namespace Reading

variable {parser : Parser}

/-- The negation of an expression in parentheses. -/
def negated (reading : Reading parser) : Reading parser where
  text := "!(" ++ reading.text ++ ")"
  query := .negate reading.query
  reads := by
    have spelled : "!(" ++ reading.text ++ ")" = spell ⟨1, _, _, reading.reads⟩ [] := by
      apply String.toList_inj.mp
      simp [spell, Operand.spelling]
    rw [spelled]
    exact parse_spell_extendAll _ []

/-- Two expressions in parentheses with `&&` between them. -/
def conjunction (left right : Reading parser) : Reading parser where
  text := "(" ++ left.text ++ ") && (" ++ right.text ++ ")"
  query := .both left.query right.query
  reads := by
    have spelled : "(" ++ left.text ++ ") && (" ++ right.text ++ ")" =
        spell ⟨0, _, _, left.reads⟩ [(.both, ⟨0, _, _, right.reads⟩)] := by
      apply String.toList_inj.mp
      simp [spell, Operand.spelling, Connective.symbol]
    rw [spelled]
    exact parse_spell_extendAll _ _

variable (test : Reading parser)

/-- The text of a filter by this test. -/
def filterText : String :=
  "[?" ++ test.text ++ "]"

theorem lexemes_filterText (tail : List Char) :
    JsonQuery.lexemes (test.filterText.toList ++ tail) =
      .filter :: (test.lexemes ++ .rbracket :: JsonQuery.lexemes tail) := by
  have spelled : test.filterText.toList ++ tail =
      '[' :: '?' :: (test.text.toList ++ ']' :: tail) := by
    simp [filterText]
  rw [spelled, Lexeme.lexemes_cons rfl, ← test.lexemes_rbracket]
  rfl

theorem walk_filterText (context : Context) (rest : List Lexeme) :
    walk parser.lenient ⟨.operand, context⟩ (.filter :: (test.lexemes ++ .rbracket :: rest)) =
      walk parser.lenient ⟨.body (.filtered .current test.query), context⟩ rest := by
  have opened : (State.mk .operand context).step parser.lenient .filter =
      .ok ⟨.operand, context.enter (.filter .current)⟩ := rfl
  rw [walk_cons_of_step opened, walk_filter]

/-- A filter of the current node. -/
def filtering : Query :=
  .eachItem .current (.guard test.query .current)

theorem parse_filterText : parser.parse test.filterText = .ok test.filtering := by
  have read := test.lexemes_filterText []
  rw [List.append_nil, Lexeme.lexemes_nil] at read
  apply parse_of_walk
  rw [read, List.cons_append, List.append_assoc, List.singleton_append, State.start,
    walk_filterText]
  rfl

theorem filterText_parenthesized :
    "[?(" ++ test.text ++ ")]" = test.parenthesized.filterText := by
  apply String.toList_inj.mp
  simp [filterText, parenthesized]

theorem filterText_negated : "[?!(" ++ test.text ++ ")]" = test.negated.filterText := by
  apply String.toList_inj.mp
  simp [filterText, negated]

theorem filterText_conjunction (second : Reading parser) :
    "[?(" ++ test.text ++ ") && (" ++ second.text ++ ")]" =
      (test.conjunction second).filterText := by
  apply String.toList_inj.mp
  simp [filterText, conjunction]

theorem filterText_pipe (second : Reading parser) :
    "[?(" ++ test.text ++ ")] | [?(" ++ second.text ++ ")]" =
      test.parenthesized.filterText ++ " | " ++ second.parenthesized.filterText := by
  apply String.toList_inj.mp
  simp [filterText, parenthesized]

theorem parse_filterText_pipe (first second : Reading parser) :
    parser.parse (first.filterText ++ " | " ++ second.filterText) =
      .ok (.pipe first.filtering second.filtering) := by
  have spelled : (first.filterText ++ " | " ++ second.filterText).toList =
      first.filterText.toList ++ ' ' :: '|' :: ' ' :: (second.filterText.toList ++ []) := by
    simp
  have bar (tail : List Char) :
      JsonQuery.lexemes (' ' :: '|' :: ' ' :: tail) = .pipe :: JsonQuery.lexemes tail := by
    rw [lexemes_blank (by decide), lexemes_cons rfl]
    exact congrArg _ (lexemes_blank (by decide))
  have joined (rest : List Lexeme) :
      walk parser.lenient ⟨.body (.filtered .current first.query), .outermost⟩ (.pipe :: rest) =
        walk parser.lenient
          ⟨.operand, Context.outermost.push (.connective .pipe first.filtering)⟩ rest := rfl
  apply parse_of_walk
  rw [spelled, lexemes_filterText, bar, lexemes_filterText, Lexeme.lexemes_nil]
  simp only [List.cons_append, List.append_assoc, List.nil_append]
  rw [State.start, walk_filterText, joined, walk_filterText]
  rfl

end Reading

/-! ## Evaluating filters -/

/-- The items that are not null and for which the answer is truthy. -/
def selected (f : Value → Value) (xs : List Value) : List Value :=
  xs.filter fun x => !x.isNull && (f x).isTruthy

section Selected

variable {f g : Value → Value} {xs : List Value}

theorem present_guarded (f : Value → Value) (xs : List Value) :
    Value.present (xs.map fun x => if (f x).isTruthy then x else .null) =
      .array (selected f xs) := by
  rw [Value.present, selected, Value.array.injEq]
  induction xs with
  | nil => rfl
  | cons x rest ih =>
      rw [List.map_cons, List.filter_cons, List.filter_cons, ih]
      cases (f x).isTruthy with
      | true => rw [if_pos rfl, Bool.and_true]
      | false => rw [Bool.and_false]; rfl

theorem mem_of_mem_selected {x : Value} (found : x ∈ selected f xs) : x ∈ xs :=
  (List.mem_filter.mp found).1

/-- The items that are selected by a test and by its negation make up all that are not null. -/
theorem selected_append_perm (opposite : ∀ x ∈ xs, (g x).isTruthy = !(f x).isTruthy) :
    (selected f xs ++ selected g xs).Perm (xs.filter fun x => !x.isNull) := by
  have others : selected g xs =
      (xs.filter fun x => !x.isNull).filter fun x => !(f x).isTruthy := by
    rw [List.filter_filter, selected]
    refine List.filter_congr fun x found => ?_
    rw [opposite x found, Bool.and_comm]
  have first : selected f xs = (xs.filter fun x => !x.isNull).filter fun x => (f x).isTruthy := by
    rw [List.filter_filter, selected]
    exact List.filter_congr fun x _ => Bool.and_comm _ _
  rw [first, others]
  exact List.filter_append_perm _ _

theorem selected_selected (f g : Value → Value) (xs : List Value) :
    selected g (selected f xs) =
      xs.filter fun x => !x.isNull && ((f x).isTruthy && (g x).isTruthy) := by
  rw [selected, selected, List.filter_filter]
  refine List.filter_congr fun x _ => ?_
  cases x.isNull <;> cases (f x).isTruthy <;> cases (g x).isTruthy <;> rfl

end Selected

namespace Query

variable {parser : Parser} {apply : Builtin.Apply} {f g : Value → Value} {xs : List Value}

theorem evalWith_filtering {test : Reading parser}
    (answers : ∀ x ∈ xs, evalWith apply test.query.simplify x = .answer (f x)) :
    evalWith apply test.filtering.simplify (.array xs) = .answer (.array (selected f xs)) := by
  have each : List.Forall₂
      (fun x a => evalWith apply (fuseGuard test.query.simplify .current) x = .answer a) xs
      (xs.map fun x => if (f x).isTruthy then x else .null) := by
    refine List.forall₂_map_right_iff.mpr (List.forall₂_same.mpr fun x found => ?_)
    rw [evalWith_fuseGuard, evalWith, answers x found, Outcome.answer_bind]
    cases (f x).isTruthy <;> rfl
  have fused : test.filtering.simplify =
      fuseItems .current (fuseGuard test.query.simplify .current) := rfl
  have projected : evalWith apply (.eachItem .current (fuseGuard test.query.simplify .current))
      (.array xs) = project (evalWith apply (fuseGuard test.query.simplify .current)) xs := rfl
  rw [fused, evalWith_fuseItems, projected, project, Outcome.traverse_answer each,
    Outcome.answer_bind, Outcome.pure_eq, present_guarded]

theorem evalWith_negated {test : Reading parser} {x : Value}
    (answers : evalWith apply test.query.simplify x = .answer (f x)) :
    evalWith apply test.negated.query.simplify x = .answer (.bool !(f x).isTruthy) := by
  have negated : test.negated.query.simplify = .negate test.query.simplify := rfl
  rw [negated, evalWith, answers]
  rfl

theorem evalWith_conjunction {first second : Reading parser} {x : Value}
    (answers : evalWith apply first.query.simplify x = .answer (f x))
    (answers' : evalWith apply second.query.simplify x = .answer (g x)) :
    evalWith apply (first.conjunction second).query.simplify x =
      .answer (if (f x).isTruthy then g x else f x) := by
  have both : (first.conjunction second).query.simplify =
      .both first.query.simplify second.query.simplify := rfl
  rw [both, evalWith, answers, Outcome.answer_bind]
  split
  · exact answers'
  · rfl

/-- Two filters in a row and one filter by both tests answer the same. -/
theorem evalWith_filtering_pipe {first second : Reading parser}
    (answers : ∀ x ∈ xs, evalWith apply first.query.simplify x = .answer (f x))
    (answers' : ∀ x ∈ xs, evalWith apply second.query.simplify x = .answer (g x)) :
    evalWith apply (Query.pipe first.filtering second.filtering).simplify (.array xs) =
      evalWith apply (first.conjunction second).filtering.simplify (.array xs) := by
  have within : ∀ x ∈ selected f xs, evalWith apply second.query.simplify x = .answer (g x) :=
    fun x found => answers' x (mem_of_mem_selected found)
  have joint : ∀ x ∈ xs, evalWith apply (first.conjunction second).query.simplify x =
      .answer (if (f x).isTruthy then g x else f x) :=
    fun x found => evalWith_conjunction (answers x found) (answers' x found)
  have piped : (Query.pipe first.filtering second.filtering).simplify =
      .pipe first.filtering.simplify second.filtering.simplify := rfl
  rw [piped, evalWith, evalWith_filtering answers, Outcome.answer_bind, evalWith_filtering within,
    evalWith_filtering joint, selected_selected, selected]
  congr 2
  refine List.filter_congr fun x _ => ?_
  cases truthy : (f x).isTruthy <;> simp [truthy]

end Query

/-! ## Searching with filters -/

/-- The outcome of an expression, with references nested at most as deep as the bound, if there is
one. -/
def Parser.searchAt (parser : Parser) (bound : Option Nat) (text : String) (v : Value) :
    Outcome Value :=
  match parser.parse text with
  | .ok q => bound.elim (q.simplify.search v) fun depth => q.simplify.eval depth v
  | .error e => .failure e

theorem Parser.exists_searchAt_eq (parser : Parser) (bound : Option Nat) :
    ∃ apply, ∀ (text : String) (q : Query), parser.parse text = .ok q →
      parser.searchAt bound text = Query.evalWith apply q.simplify := by
  cases bound with
  | none =>
      refine ⟨Query.search, fun text q read => funext fun v => ?_⟩
      rw [Parser.searchAt, read]
      exact q.simplify.search_eq v
  | some depth =>
      obtain ⟨apply, evaluates⟩ := Query.exists_eval_eq_evalWith depth
      refine ⟨apply, fun text q read => funext fun v => ?_⟩
      rw [Parser.searchAt, read, ← evaluates]
      rfl

/-- A filter keeps the items that are not null and on which its test is truthy, and a filter by the
negated test keeps the others.  Two filters in a row keep what one filter by both tests keeps.  This
holds however deep references may be nested, and for every search, which sets no bound. -/
theorem filters_select (options : Options) :
    searchWith options = Parser.searchAt ⟨options.lenient⟩ none ∧
      ∀ (bound : Option Nat) (p : Reading ⟨options.lenient⟩) (xs : List Value) (f : Value → Value),
        (∀ x ∈ xs, Parser.searchAt ⟨options.lenient⟩ bound p.text x = .answer (f x)) →
          (∃ kept dropped,
            Parser.searchAt ⟨options.lenient⟩ bound ("[?(" ++ p.text ++ ")]") (.array xs) =
              .answer (.array kept) ∧
            Parser.searchAt ⟨options.lenient⟩ bound ("[?!(" ++ p.text ++ ")]") (.array xs) =
              .answer (.array dropped) ∧
            kept = xs.filter (fun x => !x.isNull && (f x).isTruthy) ∧
            dropped = xs.filter (fun x => !x.isNull && !(f x).isTruthy) ∧
            (kept ++ dropped).Perm (xs.filter fun x => !x.isNull)) ∧
          ∀ (q : Reading ⟨options.lenient⟩) (g : Value → Value),
            (∀ x ∈ xs, Parser.searchAt ⟨options.lenient⟩ bound q.text x = .answer (g x)) →
              Parser.searchAt ⟨options.lenient⟩ bound
                  ("[?(" ++ p.text ++ ")] | [?(" ++ q.text ++ ")]") (.array xs) =
                Parser.searchAt ⟨options.lenient⟩ bound
                  ("[?(" ++ p.text ++ ") && (" ++ q.text ++ ")]") (.array xs) := by
  refine ⟨funext fun text => funext fun v => ?_, ?_⟩
  · rw [searchWith_eq, Parser.search, Parser.searchAt]
    cases Parser.parse ⟨options.lenient⟩ text <;> rfl
  intro bound p xs f answers
  obtain ⟨apply, evaluates⟩ := Parser.exists_searchAt_eq ⟨options.lenient⟩ bound
  simp only [evaluates _ _ p.reads] at answers
  constructor
  · have opposite : ∀ x ∈ xs, Query.evalWith apply p.negated.query.simplify x =
        .answer (.bool !(f x).isTruthy) := fun x found => Query.evalWith_negated (answers x found)
    have parted : (selected f xs ++ selected (fun x => .bool !(f x).isTruthy) xs).Perm
        (xs.filter fun x => !x.isNull) := selected_append_perm fun _ _ => rfl
    refine ⟨_, _, ?_, ?_, rfl, rfl, parted⟩
    · rw [p.filterText_parenthesized, evaluates _ _ p.parenthesized.parse_filterText]
      exact Query.evalWith_filtering answers
    · rw [p.filterText_negated, evaluates _ _ p.negated.parse_filterText]
      exact Query.evalWith_filtering opposite
  · intro q g answers'
    simp only [evaluates _ _ q.reads] at answers'
    rw [p.filterText_pipe, p.filterText_conjunction,
      evaluates _ _ (p.parenthesized.parse_filterText_pipe q.parenthesized),
      evaluates _ _ (p.conjunction q).parse_filterText]
    exact Query.evalWith_filtering_pipe answers answers'

theorem filters_select_falsy :
    ∃ p q : Reading ⟨false⟩, p.text = "!@" ∧ q.text = "@.a" ∧
      searchWith .standard ("[?(" ++ p.text ++ ")]")
          (.array [.null, .bool false, .int 0, .string ""]) =
        .answer (.array [.bool false, .string ""]) ∧
      searchWith .standard ("[?!(" ++ p.text ++ ")]")
          (.array [.null, .bool false, .int 0, .string ""]) = .answer (.array [.int 0]) ∧
      searchWith .standard ("[?(" ++ p.text ++ ")] | [?(" ++ q.text ++ ")]")
          (.array [.null, .bool false, .int 0, .string ""]) =
        searchWith .standard ("[?(" ++ p.text ++ ") && (" ++ q.text ++ ")]")
          (.array [.null, .bool false, .int 0, .string ""]) := by
  have readNot : (Parser.mk false).parse "!@" = .ok (.negate .current) := by cbv
  have readA : (Parser.mk false).parse "@.a" = .ok (.chain .current (.field "a")) := by cbv
  obtain ⟨unbounded, filters⟩ := filters_select .standard
  have truth (x : Value) :
      Parser.searchAt ⟨false⟩ none "!@" x = .answer (.bool !x.isTruthy) := by
    rw [Parser.searchAt, readNot]
    exact (Query.negate .current).search_eq x
  have member (x : Value) : Parser.searchAt ⟨false⟩ none "@.a" x = .answer (x.field "a") := by
    rw [Parser.searchAt, readA]
    exact (Query.chain .current (.field "a")).simplify.search_eq x
  obtain ⟨⟨kept, dropped, keeps, drops, same, others, -⟩, joint⟩ :=
    filters none ⟨_, _, readNot⟩ [.null, .bool false, .int 0, .string ""]
      (fun x => .bool !x.isTruthy) fun x _ => truth x
  subst same others
  rw [unbounded]
  exact ⟨⟨_, _, readNot⟩, ⟨_, _, readA⟩, rfl, rfl, keeps, drops,
    joint ⟨_, _, readA⟩ (·.field "a") fun x _ => member x⟩

end JsonQuery
