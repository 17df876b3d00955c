import JsonQuery.Proofs.Grammar.Precedence
import JsonQuery.Proofs.Grammar.Suffix

/-!
# Reading suffixes

A suffix extends what has been read by what its power completes: behind an operand it takes the
settled operand to its left, and at the start of the body of a projection it starts the body.
-/

set_option autoImplicit false

namespace JsonQuery

open Grammar

variable {parser : Parser}

namespace Primary

def query : Primary parser → Query
  | .field name => .field name.name
  | .call builtin _ args => .call builtin.name (args.map Reading.query) parser.lenient
  | .hash first rest => .hash ((first :: rest).map fun pair => (pair.key.name, pair.value.query))

end Primary

namespace Grammar

/-- Where suffixes go on: behind an operand, or at the start of the body of a projection. -/
inductive Stop where
  | operand (query : Query)
  | body (source : Source)

def Stop.mode : Stop → Mode
  | .operand q => .operator q
  | .body source => .body source

/-- What has been read outside of brackets. -/
structure Progress where
  stop : Stop
  pending : List Pending

namespace Progress

def state (progress : Progress) : State :=
  ⟨progress.stop.mode, ⟨progress.pending, []⟩⟩

def query : Progress → Query
  | ⟨.operand q, pending⟩ => (settle 0 pending q).2
  | ⟨.body source, pending⟩ => (settle 0 pending (source.project .current)).2

end Progress

end Grammar

namespace Suffix

def power : Suffix parser → Nat
  | .dot _ | .members => TokenKind.dot.power
  | .index _ | .slice _ | .items => TokenKind.lbracket.power
  | .filter _ => TokenKind.filter.power

/-- The suffix behind an operand that nothing of its power waits for. -/
def behind (left : Query) (pending : List Pending) : Suffix parser → Progress
  | .dot primary => ⟨.operand primary.query, .member left :: pending⟩
  | .members => ⟨.body (.members left), pending⟩
  | .index position => ⟨.operand (.chain left (.index position.number)), pending⟩
  | .slice bounds => ⟨.body (.sliced (some left) bounds.slice), pending⟩
  | .items => ⟨.body (.items left), pending⟩
  | .filter test => ⟨.body (.filtered left test.query), pending⟩

/-- The suffix at the start of a body. -/
def start : Suffix parser → Stop
  | .dot primary => .operand primary.query
  | .members => .body (.members .current)
  | .index position => .operand (.index position.number)
  | .slice bounds => .body (.sliced none bounds.slice)
  | .items => .body (.items .current)
  | .filter test => .body (.filtered .current test.query)

/-- What has been read when a suffix follows. -/
def after : Progress → Suffix parser → Progress
  | ⟨.operand q, pending⟩, suffix =>
      suffix.behind (settle suffix.power pending q).2 (settle suffix.power pending q).1
  | ⟨.body source, pending⟩, suffix => ⟨suffix.start, .projection source :: pending⟩

end Suffix

/-! ## Walking over the parts -/

section Parts

variable {lenient : Bool}

theorem walk_bound (left : Option Query) (complete : List (Option Int64)) (bound : Option Position)
    (context : Context) (rest : List Lexeme) :
    walk lenient ⟨.segments left ⟨complete, none⟩, context⟩ (Bounds.boundLexemes bound ++ rest) =
      walk lenient ⟨.segments left ⟨complete, bound.map Position.number⟩, context⟩ rest := by
  cases bound <;> rfl

theorem walk_segments_colon (left : Option Query) {complete : List (Option Int64)}
    (short : complete.length < 2) (current : Option Int64) (context : Context)
    (rest : List Lexeme) :
    walk lenient ⟨.segments left ⟨complete, current⟩, context⟩ (.colon :: rest) =
      walk lenient ⟨.segments left ⟨complete ++ [current], none⟩, context⟩ rest := by
  refine walk_cons_of_step ?_ rest
  cases current <;> exact if_pos short

theorem walk_slice_end {start stop step : Option Int64} (allowed : Slice.Allowed ⟨start, stop, step⟩)
    (left : Option Query) (context : Context) (rest : List Lexeme) :
    walk lenient ⟨.segments left ⟨[start, stop], step⟩, context⟩ (.rbracket :: rest) =
      walk lenient ⟨.body (.sliced left ⟨start, stop, step⟩), context⟩ rest := by
  have bounds : Slice.ofBounds? start stop step = .ok ⟨start, stop, step⟩ := if_pos allowed
  have closed : (State.mk (.segments left ⟨[start, stop], step⟩) context).step lenient .rbracket =
      .ok ⟨.body (.sliced left ⟨start, stop, step⟩), context⟩ := by
    simp only [State.step, stepSegments, closeSegments, bounds]
  exact walk_cons_of_step closed rest

theorem walk_slice (bounds : Bounds) (left : Option Query) (context : Context)
    (rest : List Lexeme) :
    walk lenient ⟨.segments left ⟨[bounds.slice.start], none⟩, context⟩
        (Bounds.boundLexemes bounds.stop ++
          ((bounds.step.elim [] fun step => .colon :: Bounds.boundLexemes step) ++
            .rbracket :: rest)) =
      walk lenient ⟨.body (.sliced left bounds.slice), context⟩ rest := by
  obtain ⟨start, stop, step, allowed⟩ := bounds
  rw [walk_bound]
  cases step with
  | none => rfl
  | some step =>
      rw [Option.elim_some, List.cons_append, walk_segments_colon left (by simp), walk_bound]
      exact walk_slice_end allowed left context rest

end Parts

section Enclosed

theorem walk_argument (reading : Reading parser) (function : String) (args : List Query)
    (context : Context) (rest : List Lexeme) :
    walk parser.lenient ⟨.argument function args, context⟩ (reading.lexemes ++ rest) =
      walk parser.lenient ⟨.operand, context.enter (.arguments function args)⟩
        (reading.lexemes ++ rest) := by
  obtain ⟨first, others, tokens, started⟩ := exists_cons_of_parse reading.reads
  have same : (State.mk (.argument function args) context).step parser.lenient first =
      (State.mk .operand (context.enter (.arguments function args))).step parser.lenient first := by
    cases first <;> first | rfl | exact absurd rfl started
  rw [Reading.lexemes, tokens, List.cons_append, walk_cons, walk_cons, same]

theorem walk_arguments (builtin : Builtin) (read : List Query) (args : List (Reading parser))
    (context : Context) (rest : List Lexeme) :
    walk parser.lenient ⟨.argument builtin.name read, context⟩
        (separated .comma .rparen (args.map Reading.lexemes) ++ rest) =
      walk parser.lenient ⟨.operator (.call builtin.name (read ++ args.map Reading.query)
        parser.lenient), context⟩ rest := by
  have closed (read : List Query) : closeArguments parser.lenient context builtin.name read =
      .ok ⟨.operator (.call builtin.name read parser.lenient), context⟩ := by
    rw [closeArguments, Builtin.ofName?_name]
    rfl
  induction args generalizing read with
  | nil =>
      have step : (State.mk (.argument builtin.name read) context).step parser.lenient .rparen =
          _ := closed read
      rw [List.map_nil, List.map_nil, List.append_nil]
      exact walk_cons_of_step step rest
  | cons arg args ih =>
      cases args with
      | nil =>
          have ended := walk_enclosed arg.reads (⟨.arguments builtin.name read, context.pending⟩ ::
            context.levels) (rfl : Lexeme.rparen.power = 0) rest
          have met : stepBracket parser.lenient (⟨.arguments builtin.name read, context.pending⟩ ::
              context.levels) arg.query .rparen = _ := closed (read ++ [arg.query])
          rw [met] at ended
          simp only [List.map_cons, List.map_nil, separated, List.append_assoc,
            List.singleton_append]
          rw [walk_argument]
          exact ended
      | cons next args =>
          have ended := walk_enclosed arg.reads (⟨.arguments builtin.name read, context.pending⟩ ::
            context.levels) (rfl : Lexeme.comma.power = 0)
            (separated .comma .rparen ((next :: args).map Reading.lexemes) ++ rest)
          have others := ih (read ++ [arg.query])
          rw [List.append_assoc] at others
          simp only [List.map_cons, separated, List.append_assoc, List.cons_append] at others ended ⊢
          rw [walk_argument]
          exact ended.trans others

theorem walk_key (pair : Pair parser) (entries : List (String × Query)) (context : Context)
    (rest : List Lexeme) :
    walk parser.lenient ⟨.key entries, context⟩ (pair.lexemes ++ rest) =
      walk parser.lenient ⟨.operand, context.enter (.hash entries pair.key.name)⟩
        (pair.value.lexemes ++ rest) := by
  obtain ⟨key, value⟩ := pair
  cases key <;> rfl

theorem walk_pairs (entries : List (String × Query)) (first : Pair parser)
    (others : List (Pair parser)) (context : Context) (rest : List Lexeme) :
    walk parser.lenient ⟨.key entries, context⟩
        (separated .comma .rbrace ((first :: others).map Pair.lexemes) ++ rest) =
      walk parser.lenient ⟨.operator (.hash (entries ++
        (first :: others).map fun pair => (pair.key.name, pair.value.query))), context⟩ rest := by
  induction others generalizing entries first with
  | nil =>
      have ended := walk_enclosed first.value.reads (⟨.hash entries first.key.name,
        context.pending⟩ :: context.levels) (rfl : Lexeme.rbrace.power = 0) rest
      simp only [List.map_cons, List.map_nil, separated, List.append_assoc,
        List.singleton_append]
      rw [walk_key]
      exact ended
  | cons next others ih =>
      have ended := walk_enclosed first.value.reads (⟨.hash entries first.key.name,
        context.pending⟩ :: context.levels) (rfl : Lexeme.comma.power = 0)
        (separated .comma .rbrace ((next :: others).map Pair.lexemes) ++ rest)
      have longer := ih (entries ++ [(first.key.name, first.value.query)]) next
      rw [List.append_assoc] at longer
      simp only [List.map_cons, separated, List.append_assoc, List.cons_append] at longer ended ⊢
      rw [walk_key]
      exact ended.trans longer

end Enclosed

/-! ## Walking over suffixes -/

theorem walk_name (name : Name) {lenient : Bool} (context : Context) {next : Lexeme}
    (noCall : next ≠ .lparen) (rest : List Lexeme) :
    walk lenient ⟨.operand, context⟩ (name.lexeme :: next :: rest) =
      walk lenient ⟨.operator (.field name.name), context⟩ (next :: rest) := by
  cases name <;> cases next <;> first | rfl | exact absurd rfl noCall

theorem walk_dot (owner : Pending) (primary : Primary parser) (context : Context)
    (rest : List Lexeme) :
    walk parser.lenient ⟨.dot owner, context⟩ (primary.lexemes ++ rest) =
      walk parser.lenient ⟨.operand, context.push owner⟩ (primary.lexemes ++ rest) := by
  cases primary with
  | field name => cases name <;> rfl
  | _ => rfl

theorem walk_primary (primary : Primary parser) (context : Context) {next : Lexeme}
    (noCall : next ≠ .lparen) (rest : List Lexeme) :
    walk parser.lenient ⟨.operand, context⟩ (primary.lexemes ++ next :: rest) =
      walk parser.lenient ⟨.operator primary.query, context⟩ (next :: rest) := by
  cases primary with
  | field name => exact walk_name name context noCall rest
  | call builtin name args => exact walk_arguments builtin [] args context (next :: rest)
  | hash first others => exact walk_pairs [] first others context (next :: rest)

theorem walk_filter (test : Reading parser) (left : Query) (context : Context)
    (rest : List Lexeme) :
    walk parser.lenient ⟨.operand, context.enter (.filter left)⟩
        (test.lexemes ++ .rbracket :: rest) =
      walk parser.lenient ⟨.body (.filtered left test.query), context⟩ rest :=
  walk_enclosed test.reads (⟨.filter left, context.pending⟩ :: context.levels) rfl rest

theorem walk_opened (bounds : Bounds) {lenient : Bool} (context : Context) (rest : List Lexeme) :
    walk lenient ⟨.bracket, context⟩ (bounds.lexemes ++ .rbracket :: rest) =
      walk lenient ⟨.body (.sliced none bounds.slice), context⟩ rest := by
  rw [← walk_slice, Bounds.lexemes, List.append_assoc, List.cons_append, List.append_assoc]
  obtain ⟨start, stop, step, allowed⟩ := bounds
  cases start <;> rfl

theorem walk_subscript (bounds : Bounds) (left : Query) {lenient : Bool} (context : Context)
    (rest : List Lexeme) :
    walk lenient ⟨.subscript left, context⟩ (bounds.lexemes ++ .rbracket :: rest) =
      walk lenient ⟨.body (.sliced (some left) bounds.slice), context⟩ rest := by
  rw [← walk_slice, Bounds.lexemes, List.append_assoc, List.cons_append, List.append_assoc]
  obtain ⟨start, stop, step, allowed⟩ := bounds
  cases start <;> rfl

theorem walk_suffix_operand (suffix : Suffix parser) (q : Query) (pending : List Pending)
    {next : Lexeme} (noCall : next ≠ .lparen) (rest : List Lexeme) :
    walk parser.lenient (Progress.state ⟨.operand q, pending⟩) (suffix.lexemes ++ next :: rest) =
      walk parser.lenient (Suffix.after ⟨.operand q, pending⟩ suffix).state (next :: rest) := by
  cases suffix with
  | dot primary =>
      have dotted : (Progress.state ⟨.operand q, pending⟩).step parser.lenient .dot = .ok
          ⟨.dot (.member (settle TokenKind.dot.power pending q).2),
            ⟨(settle TokenKind.dot.power pending q).1, []⟩⟩ := rfl
      rw [Suffix.lexemes, List.cons_append, walk_cons_of_step dotted, walk_dot,
        walk_primary primary _ noCall]
      rfl
  | members => rfl
  | index position => rfl
  | slice bounds =>
      have opened : (Progress.state ⟨.operand q, pending⟩).step parser.lenient .lbracket = .ok
          ⟨.subscript (settle TokenKind.lbracket.power pending q).2,
            ⟨(settle TokenKind.lbracket.power pending q).1, []⟩⟩ := rfl
      rw [Suffix.lexemes, List.cons_append, List.append_assoc, walk_cons_of_step opened,
        List.singleton_append, walk_subscript]
      rfl
  | items => rfl
  | filter test =>
      have opened : (Progress.state ⟨.operand q, pending⟩).step parser.lenient .filter = .ok
          ⟨.operand, Context.enter ⟨(settle TokenKind.filter.power pending q).1, []⟩
            (.filter (settle TokenKind.filter.power pending q).2)⟩ := rfl
      rw [Suffix.lexemes, List.cons_append, List.append_assoc, walk_cons_of_step opened,
        List.singleton_append, walk_filter]
      rfl

theorem walk_suffix_body (suffix : Suffix parser) (source : Source) (pending : List Pending)
    {next : Lexeme} (noCall : next ≠ .lparen) (rest : List Lexeme) :
    walk parser.lenient (Progress.state ⟨.body source, pending⟩) (suffix.lexemes ++ next :: rest) =
      walk parser.lenient (Suffix.after ⟨.body source, pending⟩ suffix).state (next :: rest) := by
  cases suffix with
  | dot primary =>
      have dotted : (Progress.state ⟨.body source, pending⟩).step parser.lenient .dot =
          .ok ⟨.dot (.projection source), ⟨pending, []⟩⟩ := rfl
      rw [Suffix.lexemes, List.cons_append, walk_cons_of_step dotted, walk_dot,
        walk_primary primary _ noCall]
      rfl
  | members => rfl
  | index position => rfl
  | slice bounds =>
      have opened : (Progress.state ⟨.body source, pending⟩).step parser.lenient .lbracket =
          .ok ⟨.bracket, ⟨.projection source :: pending, []⟩⟩ := rfl
      rw [Suffix.lexemes, List.cons_append, List.append_assoc, walk_cons_of_step opened,
        List.singleton_append, walk_opened]
      rfl
  | items => rfl
  | filter test =>
      have opened : (Progress.state ⟨.body source, pending⟩).step parser.lenient .filter = .ok
          ⟨.operand, Context.enter ⟨.projection source :: pending, []⟩ (.filter .current)⟩ := rfl
      rw [Suffix.lexemes, List.cons_append, List.append_assoc, walk_cons_of_step opened,
        List.singleton_append, walk_filter]
      rfl

/-- A suffix leads from what has been read to what has been read after it. -/
theorem walk_suffix (suffix : Suffix parser) (progress : Progress) {next : Lexeme}
    (noCall : next ≠ .lparen) (rest : List Lexeme) :
    walk parser.lenient progress.state (suffix.lexemes ++ next :: rest) =
      walk parser.lenient (Suffix.after progress suffix).state (next :: rest) := by
  obtain ⟨stop, pending⟩ := progress
  cases stop with
  | operand q => exact walk_suffix_operand suffix q pending noCall rest
  | body source => exact walk_suffix_body suffix source pending noCall rest

def Grammar.Progress.extend (progress : Progress) (chain : List (Suffix parser)) : Progress :=
  chain.foldl Suffix.after progress

theorem walk_suffixes (chain : List (Suffix parser)) (progress : Progress) :
    walk parser.lenient progress.state (chain.flatMap Suffix.lexemes ++ [.eof]) =
      .ok ⟨.done (progress.extend chain).query, .outermost⟩ := by
  induction chain generalizing progress with
  | nil =>
      obtain ⟨stop, pending⟩ := progress
      cases stop <;> rfl
  | cons suffix rest ih =>
      -- a name is only known for a member once the lexeme behind it opens no arguments
      obtain ⟨next, others, tokens, noCall⟩ : ∃ next others,
          rest.flatMap Suffix.lexemes ++ [Lexeme.eof] = next :: others ∧ next ≠ .lparen := by
        cases rest with
        | nil => exact ⟨.eof, [], rfl, nofun⟩
        | cons following rest => cases following <;> exact ⟨_, _, rfl, nofun⟩
      rw [List.flatMap_cons, List.append_assoc, tokens, walk_suffix suffix progress noCall, ← tokens,
        ih]
      rfl

end JsonQuery
