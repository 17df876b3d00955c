import JsonQuery.Proofs.Grammar.Rejection
import JsonQuery.Proofs.Token.Segment

/-!
# Completing what has been read

Whatever has been accepted can be completed: an expression that is missing is supplied, and then the
open brackets are closed one after the other.  So a complaint names the earliest place at which a
text cannot be continued any more.
-/

set_option autoImplicit false

namespace JsonQuery

namespace Grammar

/-- Accepted, or rejected for what it means rather than for how it is written. -/
def Step.HasNoComplaint : Step → Prop
  | .error (.complaint _) => False
  | _ => True

/-- The lexemes of a completion, each of them spelled by one character. -/
def completing : List Char :=
  ['@', 'a', '*', ':', ')', ']', '\x7d']

/-- Some lexemes lead from the state to the end of the text without a complaint. -/
def Completable (lenient : Bool) (state : State) : Prop :=
  ∃ spelled : List Char, (∀ c ∈ spelled, c ∈ completing) ∧
    Step.HasNoComplaint
      (walk lenient state (spelled.map (fun c => Lexeme.ofSpelling c []) ++ [.eof]))

variable {lenient : Bool} {state next : State}

theorem Completable.cons {c : Char} (one : c ∈ completing)
    (accepted : state.step lenient (Lexeme.ofSpelling c []) = .ok next)
    (completable : Completable lenient next) : Completable lenient state := by
  obtain ⟨spelled, letters, ends⟩ := completable
  refine ⟨c :: spelled, List.forall_mem_cons.mpr ⟨one, letters⟩, ?_⟩
  rwa [List.map_cons, List.cons_append, walk_cons_of_step accepted]

theorem Completable.of_reject {c : Char} (one : c ∈ completing) {rejection : Rejection}
    (rejected : state.step lenient (Lexeme.ofSpelling c []) = .error rejection)
    (meant : ∀ complaint, rejection ≠ .complaint complaint) : Completable lenient state := by
  refine ⟨[c], List.forall_mem_singleton.mpr one, ?_⟩
  rw [List.map_singleton, List.singleton_append, walk_cons, rejected]
  cases rejection with
  | complaint complaint => exact meant complaint rfl
  | unknownFunction name => trivial
  | zeroStep => trivial

/-! ## Closing brackets -/

/-- An expression has been read that is complete as it stands. -/
def Mode.IsComplete : Mode → Prop
  | .operator _ | .name _ | .quotedName _ | .body _ => True
  | _ => False

/-- A token without power meets the bracket around a complete expression. -/
theorem step_of_isComplete {mode : Mode} (complete : mode.IsComplete) (context : Context)
    {lexeme : Lexeme} (powerless : lexeme.power = 0) :
    ∃ query, (State.mk mode context).step lenient lexeme =
      stepBracket lenient context.levels query lexeme := by
  have operator (query : Query) : stepOperator lenient context query lexeme =
      stepBracket lenient context.levels (settle 0 context.pending query).2 lexeme :=
    stepOperator_powerless context query powerless
  cases mode with
  | operator query => exact ⟨_, operator query⟩
  | name name =>
      refine ⟨_, (?_ : _ = stepOperator lenient context (.field name) lexeme).trans (operator _)⟩
      cases lexeme with
      | lparen => cases powerless
      | _ => rfl
  | quotedName name =>
      refine ⟨_, (?_ : _ = stepOperator lenient context (.field name) lexeme).trans (operator _)⟩
      cases lexeme with
      | lparen => cases powerless
      | _ => rfl
  | body source =>
      have weak : lexeme.power < TokenKind.projectionPower := by
        rw [powerless]
        decide
      exact ⟨_, (if_pos weak).trans (operator _)⟩
  | _ => exact complete.elim

/-- The character that closes a bracket. -/
def Bracket.closing : Bracket → Char
  | .group | .arguments _ _ => ')'
  | .filter _ | .list _ _ => ']'
  | .hash _ _ => '\x7d'

/-- A bracket that is closed behind a complete expression is again a complete expression, unless it
holds the arguments of an unknown function. -/
theorem stepBracket_closing (level : Level) (outer : List Level) (query : Query) :
    (∃ mode : Mode, mode.IsComplete ∧
      stepBracket lenient (level :: outer) query (Lexeme.ofSpelling level.bracket.closing []) =
        .ok ⟨mode, ⟨level.pending, outer⟩⟩) ∨
      ∃ name,
        stepBracket lenient (level :: outer) query (Lexeme.ofSpelling level.bracket.closing []) =
          .error (.unknownFunction name) := by
  obtain ⟨bracket, pending⟩ := level
  cases bracket with
  | group => exact .inl ⟨.operator _, trivial, rfl⟩
  | filter target => exact .inl ⟨.body _, trivial, rfl⟩
  | list items owner => cases owner <;> exact .inl ⟨.operator _, trivial, rfl⟩
  | hash entries key => exact .inl ⟨.operator _, trivial, rfl⟩
  | arguments function args =>
      have closed : stepBracket lenient (⟨.arguments function args, pending⟩ :: outer) query .rparen =
          closeArguments lenient ⟨pending, outer⟩ function (args ++ [query]) := rfl
      rw [closeArguments] at closed
      cases known : Builtin.ofName? function with
      | some builtin =>
          rw [known] at closed
          exact .inl ⟨.operator _, trivial, closed⟩
      | none =>
          rw [known] at closed
          exact .inr ⟨function, closed⟩

/-- Behind a complete expression the open brackets are closed, innermost first. -/
theorem completable_of_isComplete {mode : Mode} (complete : mode.IsComplete)
    (pending : List Pending) (levels : List Level) :
    Completable lenient ⟨mode, ⟨pending, levels⟩⟩ := by
  induction levels generalizing mode pending with
  | nil =>
      obtain ⟨query, ended⟩ := step_of_isComplete complete ⟨pending, []⟩
        (rfl : Lexeme.eof.power = 0)
      refine ⟨[], List.forall_mem_nil _, ?_⟩
      rw [List.map_nil, List.nil_append, walk_cons, ended]
      trivial
  | cons level outer ih =>
      have closing : level.bracket.closing ∈ completing := by
        cases level.bracket <;> simp [Bracket.closing, completing]
      have powerless : (Lexeme.ofSpelling level.bracket.closing []).power = 0 := by
        cases level.bracket <;> rfl
      obtain ⟨query, met⟩ := step_of_isComplete complete ⟨pending, level :: outer⟩ powerless
      obtain ⟨mode, complete, closed⟩ | ⟨name, unknown⟩ := stepBracket_closing level outer query
      · exact .cons closing (met.trans closed) (ih complete level.pending)
      · exact .of_reject closing (met.trans unknown) nofun

/-! ## Supplying what is missing -/

theorem completable_of_step {c : Char} (one : c ∈ completing)
    (accepted : state.step lenient (Lexeme.ofSpelling c []) = .ok next)
    (complete : next.mode.IsComplete) : Completable lenient state :=
  .cons one accepted (completable_of_isComplete complete next.context.pending next.context.levels)

theorem completable_argument (function : String) (args : List Query) (context : Context) :
    Completable lenient ⟨.argument function args, context⟩ := by
  have closed : (State.mk (.argument function args) context).step lenient .rparen =
      closeArguments lenient context function args := rfl
  rw [closeArguments] at closed
  cases known : Builtin.ofName? function with
  | some builtin =>
      rw [known] at closed
      exact completable_of_step (by decide : ')' ∈ completing) closed trivial
  | none =>
      rw [known] at closed
      exact .of_reject (by decide : ')' ∈ completing) closed fun _ same => by cases same

theorem completable_segments (left : Option Query) {segments : Segments}
    (filled : segments ≠ ⟨[], none⟩) (context : Context) :
    Completable lenient ⟨.segments left segments, context⟩ := by
  have one : ']' ∈ completing := by decide
  have closed : (State.mk (.segments left segments) context).step lenient .rbracket =
      closeSegments context left segments := by
    obtain ⟨complete, current⟩ := segments
    cases current <;> rfl
  obtain ⟨complete, current⟩ := segments
  cases complete with
  | nil =>
      cases current with
      | none => exact absurd rfl filled
      | some position => cases left <;> exact completable_of_step one closed trivial
  | cons start more =>
      simp only [closeSegments] at closed
      split at closed
      · exact completable_of_step one closed trivial
      · exact .of_reject one closed fun _ same => by cases same

/-- Every state in which more has to be read can be completed. -/
theorem completable_of_isOpen {state : State} (open_ : state.mode.IsOpen) :
    Completable lenient state := by
  obtain ⟨mode, context⟩ := state
  have current : '@' ∈ completing := by decide
  have close : ']' ∈ completing := by decide
  have whole (mode : Mode) (complete : mode.IsComplete) : Completable lenient ⟨mode, context⟩ :=
    completable_of_isComplete complete context.pending context.levels
  have operand (context : Context) : Completable lenient ⟨.operand, context⟩ :=
    completable_of_step current rfl trivial
  have colon (entries : List (String × Query)) (key : String) :
      Completable lenient ⟨.colon entries key, context⟩ :=
    .cons (by decide : ':' ∈ completing) rfl (operand _)
  have star (left : Query) : Completable lenient ⟨.subscriptStar left, context⟩ :=
    completable_of_step close rfl trivial
  cases mode with
  | operand => exact operand context
  | operator left => exact whole (.operator left) trivial
  | name name => exact whole (.name name) trivial
  | quotedName name => exact whole (.quotedName name) trivial
  | body source => exact whole (.body source) trivial
  | dot owner =>
      have named : (State.mk (.dot owner) context).step lenient (Lexeme.ofSpelling 'a' []) =
          .ok ⟨.name "a", context.push owner⟩ := by
        cases owner <;> rfl
      exact completable_of_step (by decide : 'a' ∈ completing) named trivial
  | bracket => exact completable_of_step current rfl trivial
  | bracketStar => exact completable_of_step close rfl trivial
  | subscript left => exact .cons (by decide : '*' ∈ completing) rfl (star left)
  | subscriptStar left => exact star left
  | segments left segments => exact completable_segments left open_ context
  | argument function args => exact completable_argument function args context
  | item items owner => exact completable_of_step current rfl trivial
  | key entries => exact .cons (by decide : 'a' ∈ completing) rfl (colon entries "a")
  | colon entries key => exact colon entries key
  | done query => exact open_.elim

theorem walk_isOpen {read : List Lexeme} (accepted : walk lenient state read = .ok next)
    (notEnd : .eof ∉ read) (open_ : state.mode.IsOpen) : next.mode.IsOpen := by
  induction read generalizing state with
  | nil =>
      cases accepted
      exact open_
  | cons lexeme rest ih =>
      rw [List.mem_cons, not_or] at notEnd
      obtain ⟨middle, first, others⟩ := bind_eq_ok accepted
      exact ih others notEnd.2 (step_isOpen (Ne.symm notEnd.1) first)

theorem walk_of_stops {tokens : List Token} {k : Nat} {found : Token} {rejection : Rejection}
    (stops : Stops lenient state tokens k found rejection) :
    walk lenient state (tokens.map Token.lexeme) = .error rejection := by
  obtain ⟨here, last, walked, rejected⟩ := stops
  obtain ⟨inside, rfl⟩ := List.getElem?_eq_some_iff.mp here
  rw [← List.take_append_drop k tokens, List.map_append, walk_append_of_walk walked,
    List.drop_eq_getElem_cons inside, List.map_cons, walk_cons, rejected]
  rfl

end Grammar

open Grammar

/-! ## Completing a text -/

/-- Characters with a blank behind each. -/
def spaced (cs : List Char) : List Char :=
  cs.flatMap fun c => [c, ' ']

theorem lexemes_spaced {cs : List Char} (letters : ∀ c ∈ cs, c ∈ completing) :
    lexemes (spaced cs) = cs.map fun c => Lexeme.ofSpelling c [] := by
  induction cs with
  | nil => exact Lexeme.lexemes_nil
  | cons c cs ih =>
      rw [List.forall_mem_cons] at letters
      have alone : Lexeme.isBlank c = false ∧ Lexeme.extent c (' ' :: spaced cs) = 0 := by
        have one := letters.1
        simp only [completing, List.mem_cons, List.not_mem_nil, or_false] at one
        rcases one with rfl | rfl | rfl | rfl | rfl | rfl | rfl <;> exact ⟨rfl, rfl⟩
      have spelled : spaced (c :: cs) = c :: ' ' :: spaced cs := rfl
      rw [spelled, Lexeme.lexemes_single alone.1 alone.2,
        Lexeme.lexemes_blank (by decide), ih letters.2, List.map_cons]

/-- The first characters of a text, a blank, and more text. -/
def continuedBy (text : String) (position : Nat) (more : String) : String :=
  String.ofList (text.toList.take position) ++ " " ++ more

theorem toList_continuedBy (text : String) (position : Nat) (more : String) :
    (continuedBy text position more).toList =
      text.toList.take position ++ ' ' :: more.toList := by
  simp [continuedBy]

/-- Up to the place that a complaint names, a text can be continued: with a blank and some text
behind it, it is read or fails only for an unknown function or a step of zero. -/
theorem complaint_is_earliest (parser : Parser) (text : String) {complaint : Complaint}
    {whole : String} {position : Nat}
    (failed : parser.parse text = .error (.malformed complaint whole position)) :
    ∃ more : String,
      (∃ q, parser.parse (continuedBy text position more) = .ok q) ∨
        parser.parse (continuedBy text position more) = .error .zeroStep ∨
        ∃ name, parser.parse (continuedBy text position more) = .error (.unknownFunction name) := by
  obtain ⟨k, token, rejection, stops, same⟩ := parse_eq_error.mp failed
  obtain ⟨here, last, walked, rejected⟩ := stops
  obtain rfl : position = token.position := by
    cases rejection <;> cases same
    rfl
  -- the part in front of the place is exactly the tokens that are accepted
  have before : lexemes (text.toList.take token.position) =
      ((tokenize text).take k).map Token.lexeme := (lexemes_take_scan 0 text.toList k token here).2
  rw [← before] at walked
  have notEnd := Lexeme.eof_not_mem_lexemes (text.toList.take token.position)
  obtain ⟨spelled, letters, ends⟩ := completable_of_isOpen (walk_isOpen walked notEnd trivial)
  have continued :
      lexemes (continuedBy text token.position (String.ofList (spaced spelled))).toList =
        lexemes (text.toList.take token.position) ++
          spelled.map fun c => Lexeme.ofSpelling c [] := by
    have separate : Lexeme.StartsSeparate (' ' :: spaced spelled) := by
      rintro _ ⟨⟩
      decide
    rw [toList_continuedBy, String.toList_ofList,
      Lexeme.lexemes_append (unknown_not_mem_of_walk walked) separate,
      Lexeme.lexemes_blank (by decide), lexemes_spaced letters]
  refine ⟨String.ofList (spaced spelled), ?_⟩
  cases read : parser.parse (continuedBy text token.position (String.ofList (spaced spelled))) with
  | ok q => exact .inl ⟨q, rfl⟩
  | error error =>
      obtain ⟨k', found, rejection', stops', rfl⟩ := parse_eq_error.mp read
      have stopped := walk_of_stops stops'
      rw [tokenize, Lexeme.scan_eq, continued, List.append_assoc, walk_append_of_walk walked]
        at stopped
      rw [stopped] at ends
      cases rejection' with
      | complaint c => exact ends.elim
      | unknownFunction name => exact .inr (.inr ⟨name, rfl⟩)
      | zeroStep => exact .inr (.inl rfl)

theorem complaint_is_earliest_member :
    (Parser.mk false).parse "a[?\x7bb: c| |" =
        .error (.malformed (.unexpected .pipe) "a[?\x7bb: c| |" 10) ∧
      ∃ more : String,
        (∃ q, (Parser.mk false).parse (continuedBy "a[?\x7bb: c| |" 10 more) = .ok q) ∨
          (Parser.mk false).parse (continuedBy "a[?\x7bb: c| |" 10 more) = .error .zeroStep ∨
          ∃ name, (Parser.mk false).parse (continuedBy "a[?\x7bb: c| |" 10 more) =
            .error (.unknownFunction name) := by
  have failed : (Parser.mk false).parse "a[?\x7bb: c| |" =
      .error (.malformed (.unexpected .pipe) "a[?\x7bb: c| |" 10) := by cbv
  exact ⟨failed, complaint_is_earliest ⟨false⟩ _ failed⟩

end JsonQuery
