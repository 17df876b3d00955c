import JsonQuery.Grammar.Step

/-!
# What a token leads to

Reading ends with the end of the text only.  Of the rejections, those that are no complaints about
the token belong to the token that closes the arguments or brackets in question.  Segments are read
behind an opening bracket or other segments.
-/

set_option autoImplicit false

namespace JsonQuery

namespace Grammar

/-- The segments that are being read behind a token, by what the token is read as. -/
def Mode.Opens : Mode → Segments → Prop
  | .bracket, next | .subscript _, next =>
      next = ⟨[none], none⟩ ∨ ∃ n, next = ⟨[], some n⟩
  | .segments _ ⟨complete, current⟩, next =>
      (complete.length < 2 ∧ next = ⟨complete ++ [current], none⟩) ∨
        ∃ n, next = ⟨complete, some n⟩
  | _, _ => False

/-- Outside of an index or slice, and not behind the end of the text unless `lexeme` marks it. -/
def Mode.IsPlain (lexeme : Lexeme) : Mode → Prop
  | .segments _ _ => False
  | .done _ => lexeme = .eof
  | _ => True

/-- Functions are looked up behind their arguments, and steps are checked behind their bracket. -/
def Rejection.IsPlain (lexeme : Lexeme) : Rejection → Prop
  | .complaint _ => True
  | .unknownFunction _ => lexeme = .rparen
  | .zeroStep => lexeme = .rbracket

def Step.IsPlain (lexeme : Lexeme) : Step → Prop
  | .ok next => next.mode.IsPlain lexeme
  | .error rejection => rejection.IsPlain lexeme

variable {lenient : Bool} (context : Context) (lexeme : Lexeme)

theorem stepOperand_isPlain : Step.IsPlain lexeme (stepOperand context lexeme) := by
  cases lexeme <;> trivial

theorem stepInfix_isPlain (left : Query) :
    Step.IsPlain lexeme (stepInfix context left lexeme) := by
  cases lexeme <;> trivial

theorem closeSegments_isPlain (left : Option Query) (segments : Segments) :
    Step.IsPlain .rbracket (closeSegments context left segments) := by
  unfold closeSegments
  split
  · cases left <;> trivial
  · trivial
  · dsimp only
    split <;> trivial

theorem closeArguments_isPlain (function : String) (args : List Query) :
    Step.IsPlain .rparen (closeArguments lenient context function args) := by
  unfold closeArguments
  split <;> trivial

theorem stepBracket_isPlain (levels : List Level) (query : Query) :
    Step.IsPlain lexeme (stepBracket lenient levels query lexeme) := by
  cases levels with
  | nil => cases lexeme <;> trivial
  | cons level outer =>
      obtain ⟨bracket, pending⟩ := level
      cases bracket with
      | list items owner =>
          cases lexeme with
          | rbracket => cases owner <;> trivial
          | _ => trivial
      | arguments function args =>
          cases lexeme with
          | rparen => exact closeArguments_isPlain _ function _
          | _ => trivial
      | _ => cases lexeme <;> trivial

theorem stepOperator_isPlain (query : Query) :
    Step.IsPlain lexeme (stepOperator lenient context query lexeme) := by
  unfold stepOperator
  dsimp only
  split
  · exact stepBracket_isPlain lexeme _ _
  · exact stepInfix_isPlain _ lexeme _

theorem stepBody_isPlain (source : Source) :
    Step.IsPlain lexeme (stepBody lenient context source lexeme) := by
  unfold stepBody
  split
  · exact stepOperator_isPlain context lexeme _
  · cases lexeme <;> trivial

theorem stepDot_isPlain (owner : Pending) :
    Step.IsPlain lexeme (stepDot context owner lexeme) := by
  unfold stepDot
  split
  · split
    · trivial
    · trivial
    · exact stepOperand_isPlain _ lexeme
  · trivial

theorem stepSegments_follows (left : Option Query) (segments : Segments) :
    Step.IsPlain lexeme (stepSegments context left segments lexeme) ∨
      ∃ next, stepSegments context left segments lexeme = .ok ⟨.segments left next, context⟩ ∧
        (Mode.segments left segments).Opens next := by
  obtain ⟨complete, current⟩ := segments
  unfold stepSegments
  split
  · exact .inl (closeSegments_isPlain context left _)
  · split
    · rename_i short
      exact .inr ⟨_, rfl, .inl ⟨short, rfl⟩⟩
    · exact .inl trivial
  · exact .inr ⟨_, rfl, .inr ⟨_, rfl⟩⟩
  · exact .inl trivial
  · exact .inl trivial

/-- A token leads to segments only where it opens or continues them. -/
theorem step_follows (lenient : Bool) (lexeme : Lexeme) (state : State) :
    Step.IsPlain lexeme (state.step lenient lexeme) ∨
      ∃ left next, state.step lenient lexeme = .ok ⟨.segments left next, state.context⟩ ∧
        state.mode.Opens next := by
  obtain ⟨mode, context⟩ := state
  have operand (context : Context) := stepOperand_isPlain context lexeme
  have operator (query : Query) : Step.IsPlain lexeme (stepOperator lenient context query lexeme) :=
    stepOperator_isPlain context lexeme query
  cases mode with
  | operand => exact .inl (operand context)
  | operator left => exact .inl (operator left)
  | name name =>
      left
      cases lexeme with
      | lparen => trivial
      | _ => exact operator (.field name)
  | quotedName name =>
      left
      cases lexeme with
      | lparen => trivial
      | _ => exact operator (.field name)
  | dot owner => exact .inl (stepDot_isPlain context lexeme owner)
  | body source => exact .inl (stepBody_isPlain context lexeme source)
  | bracket =>
      cases lexeme with
      | number n => exact .inr ⟨none, ⟨[], some n⟩, rfl, .inr ⟨n, rfl⟩⟩
      | colon => exact .inr ⟨none, ⟨[none], none⟩, rfl, .inl rfl⟩
      | star => exact .inl trivial
      | _ => exact .inl (operand (context.enter (.list [] none)))
  | bracketStar =>
      left
      have body : Step.IsPlain lexeme (stepBody lenient (context.enter (.list [] none))
        (.members .current) lexeme) := stepBody_isPlain _ lexeme _
      cases lexeme with
      | rbracket => trivial
      | _ => exact body
  | subscript left =>
      cases lexeme with
      | number n => exact .inr ⟨some left, ⟨[], some n⟩, rfl, .inr ⟨n, rfl⟩⟩
      | colon => exact .inr ⟨some left, ⟨[none], none⟩, rfl, .inl rfl⟩
      | _ => exact .inl trivial
  | subscriptStar left =>
      left
      cases lexeme <;> trivial
  | segments left segments =>
      obtain plain | ⟨next, stepped, opens⟩ := stepSegments_follows context lexeme left segments
      · exact .inl plain
      · exact .inr ⟨left, next, stepped, opens⟩
  | argument function args =>
      left
      cases lexeme with
      | rparen => exact closeArguments_isPlain context function args
      | _ => exact operand (context.enter (.arguments function args))
  | item items owner =>
      left
      cases lexeme with
      | rbracket => trivial
      | _ => exact operand (context.enter (.list items owner))
  | key entries =>
      left
      cases lexeme <;> trivial
  | colon entries key =>
      left
      cases lexeme <;> trivial
  | done query => exact .inl trivial

variable {context : Context} {lexeme : Lexeme}

/-- A rejection that is no complaint belongs to a closing token. -/
theorem isPlain_of_reject {state : State} {rejection : Rejection}
    (rejected : state.step lenient lexeme = .error rejection) : rejection.IsPlain lexeme := by
  obtain plain | ⟨left, next, stepped, -⟩ := step_follows lenient lexeme state
  · rwa [rejected] at plain
  · rw [rejected] at stepped
    cases stepped

/-- More has to be read, and brackets around segments are not empty. -/
def Mode.IsOpen : Mode → Prop
  | .segments _ current => current ≠ ⟨[], none⟩
  | .done _ => False
  | _ => True

theorem step_isOpen (notEnd : lexeme ≠ .eof) {state next : State}
    (accepted : state.step lenient lexeme = .ok next) : next.mode.IsOpen := by
  obtain plain | ⟨left, segments, stepped, opens⟩ := step_follows lenient lexeme state
  · rw [accepted] at plain
    obtain ⟨mode, context⟩ := next
    cases mode with
    | segments left segments => exact plain.elim
    | done query => exact notEnd plain
    | _ => trivial
  · rw [accepted] at stepped
    cases stepped
    obtain ⟨mode, context⟩ := state
    cases mode with
    | bracket => rcases opens with rfl | ⟨n, rfl⟩ <;> simp [Mode.IsOpen]
    | subscript left => rcases opens with rfl | ⟨n, rfl⟩ <;> simp [Mode.IsOpen]
    | segments left previous => rcases opens with ⟨-, rfl⟩ | ⟨n, rfl⟩ <;> simp [Mode.IsOpen]
    | _ => exact opens.elim

end Grammar

end JsonQuery
