import JsonQuery.Proofs.Token.Lexemes

/-!
# Expressions inside brackets

An expression that is read on its own is read in the same way inside open brackets, and the token
that would have to be the end of the text is then the one that meets the innermost bracket.
-/

set_option autoImplicit false

namespace JsonQuery

namespace Grammar

/-- Reads lexemes one after the other. -/
def walk (lenient : Bool) (state : State) (read : List Lexeme) : Step :=
  read.foldlM (State.step lenient) state

variable {lenient : Bool}

theorem walk_cons (state : State) (lexeme : Lexeme) (rest : List Lexeme) :
    walk lenient state (lexeme :: rest) =
      state.step lenient lexeme >>= fun next => walk lenient next rest :=
  rfl

theorem walk_append (state : State) (first second : List Lexeme) :
    walk lenient state (first ++ second) =
      walk lenient state first >>= fun next => walk lenient next second :=
  List.foldlM_append

theorem walk_cons_of_step {state next : State} {lexeme : Lexeme}
    (accepted : state.step lenient lexeme = .ok next) (rest : List Lexeme) :
    walk lenient state (lexeme :: rest) = walk lenient next rest := by
  rw [walk_cons, accepted]
  rfl

theorem walk_append_of_walk {state next : State} {first : List Lexeme}
    (accepted : walk lenient state first = .ok next) (second : List Lexeme) :
    walk lenient state (first ++ second) = walk lenient next second := by
  rw [walk_append, accepted]
  rfl

theorem bind_eq_ok {α β : Type} {x : Except Rejection α} {f : α → Except Rejection β} {b : β}
    (succeeded : x >>= f = .ok b) : ∃ a, x = .ok a ∧ f a = .ok b := by
  cases x with
  | error e => cases succeeded
  | ok a => exact ⟨a, rfl, succeeded⟩

/-! ## The end of the text -/

/-- An expression that the end of the text completes, meets any other token without power as the
whole contents of the brackets around it. -/
theorem stepOperator_end {context : Context} {left : Query} {next : State}
    (accepted : stepOperator lenient context left .eof = .ok next) :
    context.levels = [] ∧ next = ⟨.done (settle 0 context.pending left).2, .outermost⟩ := by
  obtain ⟨pending, levels⟩ := context
  have ended : stepBracket lenient levels (settle 0 pending left).2 .eof = .ok next := accepted
  cases levels with
  | nil =>
      cases ended
      exact ⟨rfl, rfl⟩
  | cons level outer =>
      obtain ⟨bracket, waiting⟩ := level
      cases bracket <;> cases ended

theorem stepOperator_powerless (context : Context) (left : Query) {lexeme : Lexeme}
    (powerless : lexeme.power = 0) :
    stepOperator lenient context left lexeme =
      stepBracket lenient context.levels (settle 0 context.pending left).2 lexeme := by
  simp only [stepOperator, powerless, if_true]

/-! ## Reading inside brackets -/

/-- The same state with more brackets open around it. -/
def State.inside (outer : List Level) (state : State) : State :=
  ⟨state.mode, ⟨state.context.pending, state.context.levels ++ outer⟩⟩

def Context.inside (outer : List Level) (context : Context) : Context :=
  ⟨context.pending, context.levels ++ outer⟩

section Inside

variable (outer : List Level) (context : Context) (lexeme : Lexeme)

theorem stepOperand_inside :
    stepOperand (context.inside outer) lexeme =
      (stepOperand context lexeme).map (State.inside outer) := by
  cases lexeme <;> rfl

theorem stepInfix_inside (left : Query) :
    stepInfix (context.inside outer) left lexeme =
      (stepInfix context left lexeme).map (State.inside outer) := by
  cases lexeme <;> rfl

theorem closeArguments_inside (function : String) (args : List Query) :
    closeArguments lenient (context.inside outer) function args =
      (closeArguments lenient context function args).map (State.inside outer) := by
  simp only [closeArguments]
  cases Builtin.ofName? function <;> rfl

theorem closeList_inside (items : List Query) (owner : Option Pending) :
    closeList (context.inside outer) items owner =
      (closeList context items owner).map (State.inside outer) := by
  cases owner <;> rfl

theorem stepBracket_inside (level : Level) (levels : List Level) (query : Query) :
    stepBracket lenient (level :: levels ++ outer) query lexeme =
      (stepBracket lenient (level :: levels) query lexeme).map (State.inside outer) := by
  obtain ⟨bracket, pending⟩ := level
  cases bracket with
  | group => cases lexeme <;> rfl
  | filter target => cases lexeme <;> rfl
  | list items owner =>
      cases lexeme with
      | rbracket => exact closeList_inside outer ⟨pending, levels⟩ (items ++ [query]) owner
      | _ => rfl
  | arguments function args =>
      cases lexeme with
      | rparen => exact closeArguments_inside outer ⟨pending, levels⟩ function (args ++ [query])
      | _ => rfl
  | hash entries key => cases lexeme <;> rfl

theorem closeSegments_inside (left : Option Query) (segments : Segments) :
    closeSegments (context.inside outer) left segments =
      (closeSegments context left segments).map (State.inside outer) := by
  obtain ⟨complete, current⟩ := segments
  simp only [closeSegments]
  split
  · split <;> rfl
  · rfl
  · split <;> rfl

theorem stepSegments_inside (left : Option Query) (segments : Segments) :
    stepSegments (context.inside outer) left segments lexeme =
      (stepSegments context left segments lexeme).map (State.inside outer) := by
  simp only [stepSegments]
  split
  · exact closeSegments_inside outer context left segments
  · split <;> rfl
  · rfl
  · rfl
  · rfl

theorem stepDot_inside (owner : Pending) :
    stepDot (context.inside outer) owner lexeme =
      (stepDot context owner lexeme).map (State.inside outer) := by
  simp only [stepDot]
  split
  · split
    · rfl
    · rfl
    · exact stepOperand_inside outer (context.push owner) lexeme
  · rfl

theorem stepOpened_inside :
    stepOpened (context.inside outer) lexeme =
      (stepOpened context lexeme).map (State.inside outer) := by
  cases lexeme <;> rfl

theorem stepSubscript_inside (left : Query) :
    stepSubscript (context.inside outer) left lexeme =
      (stepSubscript context left lexeme).map (State.inside outer) := by
  cases lexeme <;> rfl

end Inside

section Step

variable {outer : List Level} {lexeme : Lexeme} {next : State}

theorem ok_of_map {step inside : Step} (same : inside = step.map (State.inside outer))
    (accepted : step = .ok next) : inside = .ok (next.inside outer) := by
  rw [same, accepted]
  rfl

theorem stepOperator_inside (notEnd : lexeme ≠ .eof) {context : Context} {left : Query}
    (accepted : stepOperator lenient context left lexeme = .ok next) :
    stepOperator lenient (context.inside outer) left lexeme = .ok (next.inside outer) := by
  obtain ⟨pending, levels⟩ := context
  simp only [stepOperator, Context.inside] at accepted ⊢
  split at accepted
  · rename_i powerless
    rw [if_pos powerless]
    cases levels with
    | nil =>
        cases lexeme with
        | eof => exact absurd rfl notEnd
        | _ => cases accepted
    | cons level levels =>
        exact ok_of_map (stepBracket_inside outer lexeme level levels _) accepted
  · rename_i powerful
    rw [if_neg powerful]
    exact ok_of_map (stepInfix_inside outer ⟨_, levels⟩ lexeme _) accepted

theorem stepBody_inside (notEnd : lexeme ≠ .eof) {context : Context} {source : Source}
    (accepted : stepBody lenient context source lexeme = .ok next) :
    stepBody lenient (context.inside outer) source lexeme = .ok (next.inside outer) := by
  simp only [stepBody] at accepted ⊢
  split at accepted
  · rename_i weak
    rw [if_pos weak]
    exact stepOperator_inside notEnd accepted
  · rename_i strong
    rw [if_neg strong]
    have opened (started : Lexeme) :=
      stepOperand_inside outer (context.push (.projection source)) started
    split at accepted
    · cases accepted
      rfl
    · exact ok_of_map (opened .lbracket) accepted
    · exact ok_of_map (opened .filter) accepted
    · cases accepted

/-- A token that is accepted where fewer brackets are open is accepted inside of more. -/
theorem step_inside (notEnd : lexeme ≠ .eof) {state : State}
    (accepted : state.step lenient lexeme = .ok next) :
    (state.inside outer).step lenient lexeme = .ok (next.inside outer) := by
  obtain ⟨mode, context⟩ := state
  have operator (left : Query) (accepted : stepOperator lenient context left lexeme = .ok next) :
      stepOperator lenient (context.inside outer) left lexeme = .ok (next.inside outer) :=
    stepOperator_inside notEnd accepted
  have operand (bracket : Bracket) :=
    stepOperand_inside outer (context.enter bracket) lexeme
  cases mode with
  | operand => exact ok_of_map (stepOperand_inside outer context lexeme) accepted
  | operator query => exact operator query accepted
  | name name =>
      cases lexeme with
      | lparen =>
          cases accepted
          rfl
      | _ => exact operator (.field name) accepted
  | quotedName name =>
      cases lexeme with
      | lparen => cases accepted
      | _ => exact operator (.field name) accepted
  | dot owner => exact ok_of_map (stepDot_inside outer context lexeme owner) accepted
  | body source => exact stepBody_inside notEnd accepted
  | bracket => exact ok_of_map (stepOpened_inside outer context lexeme) accepted
  | bracketStar =>
      have body {source : Source} (accepted : stepBody lenient (context.enter (.list [] none))
          source lexeme = .ok next) :
          stepBody lenient ((context.enter (.list [] none)).inside outer) source lexeme =
            .ok (next.inside outer) := stepBody_inside notEnd accepted
      cases lexeme with
      | rbracket =>
          cases accepted
          rfl
      | _ => exact body accepted
  | subscript left => exact ok_of_map (stepSubscript_inside outer context lexeme left) accepted
  | subscriptStar left =>
      cases lexeme with
      | rbracket =>
          cases accepted
          rfl
      | _ => cases accepted
  | segments left segments =>
      exact ok_of_map (stepSegments_inside outer context lexeme left segments) accepted
  | argument function args =>
      cases lexeme with
      | rparen => exact ok_of_map (closeArguments_inside outer context function args) accepted
      | _ => exact ok_of_map (operand (.arguments function args)) accepted
  | item items owner =>
      cases lexeme with
      | rbracket => cases accepted
      | _ => exact ok_of_map (operand (.list items owner)) accepted
  | key entries =>
      cases lexeme with
      | identifier name =>
          cases accepted
          rfl
      | quotedIdentifier name =>
          cases accepted
          rfl
      | _ => cases accepted
  | colon entries key =>
      cases lexeme with
      | colon =>
          cases accepted
          rfl
      | _ => cases accepted
  | done query => cases accepted

theorem walk_inside {state : State} {read : List Lexeme} (notEnd : .eof ∉ read)
    (accepted : walk lenient state read = .ok next) :
    walk lenient (state.inside outer) read = .ok (next.inside outer) := by
  induction read generalizing state with
  | nil =>
      cases accepted
      rfl
  | cons lexeme rest ih =>
      rw [List.mem_cons, not_or] at notEnd
      obtain ⟨middle, first, others⟩ := bind_eq_ok accepted
      rw [walk_cons_of_step (step_inside (Ne.symm notEnd.1) first)]
      exact ih notEnd.2 others

/-- Where the text may end, any token without power meets the bracket around the expression. -/
theorem step_end {state : State} (accepted : state.step lenient .eof = .ok next) :
    ∃ query, next = ⟨.done query, .outermost⟩ ∧ ∀ (outer : List Level) {lexeme : Lexeme},
      lexeme.power = 0 →
        (state.inside outer).step lenient lexeme = stepBracket lenient outer query lexeme := by
  obtain ⟨mode, ⟨pending, levels⟩⟩ := state
  have operator (left : Query)
      (ended : stepOperator lenient ⟨pending, levels⟩ left .eof = .ok next) :
      ∃ query, next = ⟨.done query, .outermost⟩ ∧ ∀ (outer : List Level) {lexeme : Lexeme},
        lexeme.power = 0 →
          stepOperator lenient ⟨pending, levels ++ outer⟩ left lexeme =
            stepBracket lenient outer query lexeme := by
    obtain ⟨none, rfl⟩ := stepOperator_end ended
    refine ⟨_, rfl, fun outer lexeme powerless => ?_⟩
    simp only at none
    rw [stepOperator_powerless _ _ powerless, none]
    rfl
  cases mode with
  | operator left => exact operator left accepted
  | name name =>
      obtain ⟨query, same, meets⟩ := operator (.field name) accepted
      refine ⟨query, same, fun outer lexeme powerless => ?_⟩
      have met := meets outer powerless
      cases lexeme with
      | lparen => cases powerless
      | _ => exact met
  | quotedName name =>
      obtain ⟨query, same, meets⟩ := operator (.field name) accepted
      refine ⟨query, same, fun outer lexeme powerless => ?_⟩
      have met := meets outer powerless
      cases lexeme with
      | lparen => cases powerless
      | _ => exact met
  | body source =>
      obtain ⟨query, same, meets⟩ := operator (source.project .current) accepted
      refine ⟨query, same, fun outer lexeme powerless => ?_⟩
      rw [← meets outer powerless]
      simp only [State.step, State.inside, stepBody, powerless]
      rfl
  | bracketStar =>
      have ended : stepOperator lenient (Context.enter ⟨pending, levels⟩ (.list [] none))
          (.eachMember .current .current) .eof = .ok next := accepted
      exact absurd (stepOperator_end ended).1 (List.cons_ne_nil _ _)
  | segments left segments =>
      obtain ⟨complete, current⟩ := segments
      cases current <;> cases accepted
  | _ => cases accepted

/-- A lexeme that could not be read is never accepted. -/
theorem step_unknown {state : State} (text : String)
    (accepted : state.step lenient (.unknown text) = .ok next) : False := by
  obtain ⟨mode, ⟨pending, levels⟩⟩ := state
  have operator (context : Context) (left : Query)
      (accepted : stepOperator lenient context left (.unknown text) = .ok next) : False := by
    obtain ⟨waiting, opened⟩ := context
    rw [stepOperator_powerless _ left rfl] at accepted
    cases opened with
    | nil => cases accepted
    | cons level outer =>
        obtain ⟨bracket, waiting⟩ := level
        cases bracket <;> cases accepted
  cases mode with
  | operator left => exact operator ⟨pending, levels⟩ left accepted
  | name name => exact operator ⟨pending, levels⟩ (.field name) accepted
  | quotedName name => exact operator ⟨pending, levels⟩ (.field name) accepted
  | body source => exact operator ⟨pending, levels⟩ (source.project .current) accepted
  | bracketStar =>
      exact operator (Context.enter ⟨pending, levels⟩ (.list [] none))
        (.eachMember .current .current) accepted
  | segments left segments =>
      obtain ⟨complete, current⟩ := segments
      cases current <;> cases accepted
  | _ => cases accepted

/-- An opening bracket is not the end of an expression. -/
theorem not_step_eof_of_lbracket {state last : State}
    (accepted : state.step lenient .lbracket = .ok next) : next.step lenient .eof ≠ .ok last := by
  obtain ⟨mode, context⟩ := state
  cases mode with
  | segments left segments =>
      obtain ⟨complete, current⟩ := segments
      cases current <;> cases accepted
  | dot owner => cases owner <;> cases accepted <;> nofun
  | _ => cases accepted <;> nofun

theorem unknown_not_mem_of_walk {state : State} {read : List Lexeme}
    (accepted : walk lenient state read = .ok next) (text : String) : .unknown text ∉ read := by
  induction read generalizing state with
  | nil => exact List.not_mem_nil
  | cons lexeme rest ih =>
      obtain ⟨middle, first, others⟩ := bind_eq_ok accepted
      rw [List.mem_cons, not_or]
      refine ⟨?_, ih others⟩
      rintro rfl
      exact step_unknown text first

end Step

/-! ## Reading a text -/

theorem run_eq_ok {state : State} {text : String} {token : Token} {rest : List Token} {q : Query} :
    run lenient state text token rest = .ok q ↔
      ∃ context, walk lenient state ((token :: rest).map Token.lexeme) = .ok ⟨.done q, context⟩ := by
  induction rest generalizing state token with
  | nil =>
      simp only [run, List.map_cons, List.map_nil, walk_cons]
      cases state.step lenient token.lexeme with
      | error rejection => exact ⟨nofun, nofun⟩
      | ok next =>
          obtain ⟨mode, context⟩ := next
          cases mode with
          | done query =>
              constructor
              · rintro ⟨⟩
                exact ⟨context, rfl⟩
              · rintro ⟨_, ⟨⟩⟩
                rfl
          | _ =>
              constructor
              · nofun
              · rintro ⟨_, ⟨⟩⟩
  | cons following rest ih =>
      rw [run, List.map_cons, walk_cons]
      cases state.step lenient token.lexeme with
      | error rejection => exact ⟨nofun, nofun⟩
      | ok next => exact ih

end Grammar

open Grammar

variable {parser : Parser} {text : String} {q : Query}

theorem parse_eq_ok :
    parser.parse text = .ok q ↔
      walk parser.lenient .start (lexemes text.toList ++ [.eof]) = .ok ⟨.done q, .outermost⟩ := by
  obtain ⟨token, rest, tokens⟩ := tokenize_eq_cons text
  have same : (token :: rest).map Token.lexeme = lexemes text.toList ++ [.eof] := by
    rw [← tokens, tokenize, Lexeme.scan_eq]
  rw [Parser.parse_eq_run parser tokens, run_eq_ok, same]
  constructor
  · rintro ⟨context, ended⟩
    have parts := ended
    rw [walk_append] at parts
    obtain ⟨last, -, step⟩ := bind_eq_ok parts
    rw [walk_cons] at step
    obtain ⟨next, step, same⟩ := bind_eq_ok step
    obtain ⟨query, rfl, -⟩ := step_end step
    cases same
    exact ended
  · exact fun ended => ⟨_, ended⟩

theorem unknown_not_mem_of_parse (read : parser.parse text = .ok q) (unread : String) :
    .unknown unread ∉ lexemes text.toList := by
  have known := unknown_not_mem_of_walk (parse_eq_ok.mp read) unread
  rw [List.mem_append, not_or] at known
  exact known.1

theorem exists_cons_of_parse (read : parser.parse text = .ok q) :
    ∃ first rest, lexemes text.toList = first :: rest ∧ first ≠ .rparen := by
  have ended := parse_eq_ok.mp read
  cases tokens : lexemes text.toList with
  | nil =>
      rw [tokens] at ended
      cases ended
  | cons first rest =>
      refine ⟨first, rest, rfl, ?_⟩
      rintro rfl
      rw [tokens] at ended
      cases ended

theorem getLast?_ne_lbracket_of_parse (read : parser.parse text = .ok q) :
    (lexemes text.toList).getLast? ≠ some .lbracket := by
  intro last
  obtain ⟨init, tokens⟩ := List.getLast?_eq_some_iff.mp last
  have ended := parse_eq_ok.mp read
  rw [tokens, List.append_assoc, walk_append] at ended
  obtain ⟨state, -, ended⟩ := bind_eq_ok ended
  rw [List.singleton_append, walk_cons] at ended
  obtain ⟨next, opened, ended⟩ := bind_eq_ok ended
  rw [walk_cons] at ended
  obtain ⟨done, closed, -⟩ := bind_eq_ok ended
  exact not_step_eof_of_lbracket opened closed

/-- An expression inside brackets is read as on its own, up to the token behind it. -/
theorem walk_enclosed (read : parser.parse text = .ok q) (outer : List Level) {lexeme : Lexeme}
    (powerless : lexeme.power = 0) (rest : List Lexeme) :
    walk parser.lenient ⟨.operand, ⟨[], outer⟩⟩ (lexemes text.toList ++ lexeme :: rest) =
      stepBracket parser.lenient outer q lexeme >>= fun next => walk parser.lenient next rest := by
  have ended := parse_eq_ok.mp read
  rw [walk_append] at ended
  obtain ⟨last, walked, step⟩ := bind_eq_ok ended
  rw [walk_cons] at step
  obtain ⟨next, step, same⟩ := bind_eq_ok step
  obtain ⟨query, rfl, meets⟩ := step_end step
  cases same
  have enclosed : walk parser.lenient (State.start.inside outer) (lexemes text.toList) =
      .ok (last.inside outer) := walk_inside (Lexeme.eof_not_mem_lexemes text.toList) walked
  have started : State.start.inside outer = ⟨.operand, ⟨[], outer⟩⟩ := rfl
  rw [← started, walk_append_of_walk enclosed, walk_cons, meets outer powerless]

/-- A group is read as the expression in it. -/
theorem walk_group (read : parser.parse text = .ok q) (context : Context) (rest : List Lexeme) :
    walk parser.lenient ⟨.operand, context⟩
        (.lparen :: (lexemes text.toList ++ .rparen :: rest)) =
      walk parser.lenient ⟨.operator q, context⟩ rest := by
  have opened : (State.mk .operand context).step parser.lenient .lparen =
      .ok ⟨.operand, ⟨[], ⟨.group, context.pending⟩ :: context.levels⟩⟩ := rfl
  rw [walk_cons_of_step opened, walk_enclosed read _ rfl]
  rfl

end JsonQuery
