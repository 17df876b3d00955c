import JsonQuery.Proofs.Grammar.Standing

/-!
# Descent agrees with the states of reading

Each call reads as the state in which it is made does, up to the state behind the query that it
answers with.  So reading by recursive descent is reading by states.
-/

set_option autoImplicit false

namespace JsonQuery

namespace Descent

open Grammar Outcome

variable {lenient : Bool} {state next : State} {context : Context} {c : Cursor} {lexeme : Lexeme}
  {recur : Call → Cursor → Outcome Found}

/-! ## One call -/

section Procedures

variable {base : Cursor} (later : ∀ call c, base.Passes c → Follows lenient recur call c)
include later

/-- The right-hand side of an operator that waits. -/
theorem waiting_agrees (p : Pending) (passes : base.Passes c) :
    finish lenient ⟨.operand, context.push p⟩ c =
      recur (.expression p.power) c >>= fun found =>
        goOn lenient context (p.complete found.1, found.2) := by
  refine (later _ c passes).bind (.expression ?_) fun q c' leaves => goOn_push leaves.2 q
  rintro p ⟨⟩
  exact Nat.le_refl _

theorem behindDot_agrees (owner : Pending) (passes : base.Passes c) (ended : c.Ended)
    (listed : c.kind ∈ afterDot) (body : c.kind = .star → ∀ left, owner ≠ .member left) :
    finish lenient ⟨.dot owner, context⟩ c =
      behindDot recur owner.power c >>= fun found =>
        goOn lenient context (owner.complete found.1, found.2) := by
  unfold behindDot
  split
  · rename_i opens
    have found := Lexeme.eq_of_kind opens rfl
    rw [finish_of_accept ended found (by simp) rfl]
    exact (later _ _ (passes.trans_reaches c.reaches_advance)).agrees .items
  · rename_i plain
    rw [← waiting_agrees later owner passes]
    refine finish_congr rfl ?_
    have allowed : c.token.lexeme.kind ∈ afterDot := listed
    simp only [State.step, stepDot, allowed, if_true]
    split
    · rename_i found
      exact absurd (kind_eq found) plain
    · rename_i left found
      exact absurd rfl (body (kind_eq found) left)
    · rfl

variable (ended : base.Ended)
include ended

theorem filter_agrees {left : Query} (found : base.token.lexeme = lexeme) (more : lexeme ≠ .eof)
    (accepted : state.step lenient lexeme = .ok ⟨.operand, context.enter (.filter left)⟩) :
    finish lenient state base = filter recur left base >>= goOn lenient context := by
  have passes := ended.passes_advance (kind_eq_ne_eof found more)
  rw [finish_of_accept ended found more accepted, filter, bind_assoc]
  refine (later _ _ passes).bind (.opened rfl) fun test c leaves => ?_
  have behind := passes.trans_reaches leaves.1.reaches
  have met := step_enter lenient context (.filter left) test leaves.2
  dsimp only [id]
  split
  · rename_i close
    have close := Lexeme.eq_of_kind close rfl
    rw [close] at met
    rw [goOn, finish_of_accept (ended.of_reaches behind.reaches) close (by simp) met, bind_assoc]
    exact (later _ _ (behind.trans_reaches c.reaches_advance)).agrees
      (.projection (.filtered left test))
  · rename_i other
    refine finish_of_complaint rfl (met.trans ?_)
    cases found : c.token.lexeme with
    | rbracket => exact absurd (kind_eq found) other
    | _ => rfl

theorem flatten_agrees {left : Query} (found : base.token.lexeme = lexeme) (more : lexeme ≠ .eof)
    (accepted : state.step lenient lexeme = .ok ⟨.body (.flattened left), context⟩) :
    finish lenient state base = flatten recur left base >>= goOn lenient context := by
  rw [finish_of_accept ended found more accepted, flatten, bind_assoc]
  exact (later _ _ (ended.passes_advance (kind_eq_ne_eof found more))).agrees
    (.projection (.flattened left))

theorem allMembers_agrees {left : Query} (reaches : base.Reaches c)
    (found : c.token.lexeme = lexeme) (more : lexeme ≠ .eof)
    (accepted : state.step lenient lexeme = .ok ⟨.body (.members left), context⟩) :
    finish lenient state c = allMembers recur left c >>= goOn lenient context := by
  rw [finish_of_accept (ended.of_reaches reaches) found more accepted, allMembers, bind_assoc]
  exact (later _ _ (passes_advance ended reaches (kind_eq_ne_eof found more))).agrees
    (.projection (.members left))

theorem allItems_agrees {left : Query} (reaches : base.Reaches c)
    (found : c.token.lexeme = lexeme) (more : lexeme ≠ .eof)
    (accepted : state.step lenient lexeme = .ok next)
    (closed : next.step lenient .rbracket = .ok ⟨.body (.items left), context⟩)
    (rejected : c.advance.kind ∉ [.rbracket] →
      next.step lenient c.advance.token.lexeme =
        reject (.expectedOneOf [.rbracket] c.advance.kind)) :
    finish lenient state c = allItems recur left c >>= goOn lenient context := by
  have passes := passes_advance ended reaches (kind_eq_ne_eof found more)
  have endedThere := ended.of_reaches reaches
  rw [allItems, bind_assoc]
  refine finish_advanceTo endedThere found more accepted rejected fun listed => ?_
  have close := Lexeme.eq_of_kind (List.mem_singleton.mp listed) rfl
  rw [finish_of_accept (ended.of_reaches passes.reaches) close (by simp) closed, bind_assoc]
  exact (later _ _ (passes.trans_reaches c.advance.reaches_advance)).agrees
    (.projection (.items left))

theorem behindBracket_agrees (passes : base.Passes c) :
    finish lenient ⟨.bracket, context⟩ c = behindBracket recur c >>= goOn lenient context := by
  have list (state : State) (same : state.step lenient c.token.lexeme =
      State.step lenient ⟨.operand, context.enter (.list [] none)⟩ c.token.lexeme) :
      finish lenient state c = recur (.loop (.items [])) c >>= goOn lenient context := by
    rw [finish_congr rfl same]
    exact (later _ c passes).agrees .items
  have segments (continues : Continues ⟨[], none⟩ c.token.lexeme)
      (same : State.step lenient ⟨.bracket, context⟩ c.token.lexeme =
        State.step lenient ⟨.segments none ⟨[], none⟩, context⟩ c.token.lexeme) :
      finish lenient ⟨.bracket, context⟩ c =
        recur (.loop (.segments [none, none, none] 0)) c >>= goOn lenient context :=
    (finish_congr rfl same).trans ((later _ c passes).agrees (.segments continues))
  have endedThere := ended.of_reaches passes.reaches
  cases found : c.token.lexeme with
  | number n =>
      rw [behindBracket, kind_eq found]
      exact segments ⟨Nat.zero_le _, .inr ⟨rfl, n, found⟩⟩ (found ▸ rfl)
  | colon =>
      rw [behindBracket, kind_eq found]
      exact segments ⟨Nat.zero_le _, .inl found⟩ (found ▸ rfl)
  | star =>
      rw [behindBracket, kind_eq found]
      dsimp only [Lexeme.kind]
      rw [c.lookahead_one]
      split
      · rename_i close
        refine allItems_agrees later ended passes.reaches found (by simp) rfl rfl fun other => ?_
        exact absurd (List.mem_singleton.mpr close) other
      · rename_i other
        -- the star starts the first item of a list
        rw [finish_of_accept endedThere found (by simp) rfl, ← list _ rfl,
          finish_of_accept endedThere found (by simp) rfl]
        refine finish_congr rfl ?_
        cases close : c.advance.token.lexeme with
        | rbracket => exact absurd (kind_eq close) other
        | _ => rfl
  | _ =>
      rw [behindBracket, kind_eq found]
      refine list _ ?_
      rw [found]
      rfl

theorem group_agrees (found : base.token.lexeme = .lparen) :
    finish lenient ⟨.operand, context⟩ base = group recur base >>= goOn lenient context := by
  have passes := ended.passes_advance (kind_eq_ne_eof found (by simp))
  unfold group
  rw [finish_of_accept ended found (by simp) rfl, bind_assoc]
  refine (later _ _ passes).bind (.opened rfl) fun q c leaves => ?_
  have met := step_enter lenient context .group q leaves.2
  dsimp only [id]
  split
  · rename_i close
    have close := Lexeme.eq_of_kind close rfl
    rw [close] at met
    exact finish_of_accept (ended.of_reaches (passes.reaches.trans leaves.1.reaches)) close
      (by simp) met
  · rename_i other
    refine finish_of_complaint rfl (met.trans ?_)
    cases found : c.token.lexeme with
    | rparen => exact absurd (kind_eq found) other
    | _ => rfl

theorem named_agrees {name : String} (found : base.token.lexeme = .identifier name) :
    finish lenient ⟨.operand, context⟩ base = named recur name base >>= goOn lenient context := by
  have passes := ended.passes_advance (kind_eq_ne_eof found (by simp))
  unfold named
  rw [finish_of_accept ended found (by simp) rfl]
  split
  · rename_i opens
    rw [finish_of_accept (ended.of_reaches passes.reaches) (Lexeme.eq_of_kind opens rfl) (by simp)
      rfl]
    exact (later _ _ (passes.trans_reaches base.advance.reaches_advance)).agrees .arguments
  · rename_i other
    refine finish_congr rfl ?_
    cases found : base.advance.token.lexeme with
    | lparen => exact absurd (kind_eq found) other
    | _ => rfl

omit later in
theorem quotedNamed_agrees {name : String} (found : base.token.lexeme = .quotedIdentifier name) :
    finish lenient ⟨.operand, context⟩ base = quotedNamed name base >>= goOn lenient context := by
  unfold quotedNamed
  rw [finish_of_accept ended found (by simp) rfl]
  split
  · rename_i opens
    exact finish_of_complaint (Lexeme.eq_of_kind opens rfl) rfl
  · rename_i other
    refine finish_congr rfl ?_
    cases found : base.advance.token.lexeme with
    | lparen => exact absurd (kind_eq found) other
    | _ => rfl

theorem operand_agrees :
    finish lenient ⟨.operand, context⟩ base = operand recur base >>= goOn lenient context := by
  unfold operand
  cases found : base.token.lexeme with
  | current => exact finish_of_accept ended found (by simp) rfl
  | literal v => exact finish_of_accept ended found (by simp) rfl
  | expref =>
      rw [finish_of_accept ended found (by simp) rfl, bind_assoc]
      exact waiting_agrees later .reference (ended.passes_advance (kind_eq_ne_eof found (by simp)))
  | not =>
      rw [finish_of_accept ended found (by simp) rfl, bind_assoc]
      exact waiting_agrees later .negation (ended.passes_advance (kind_eq_ne_eof found (by simp)))
  | lparen => exact group_agrees later ended found
  | filter => exact filter_agrees later ended found (by simp) rfl
  | flatten => exact flatten_agrees later ended found (by simp) rfl
  | identifier name => exact named_agrees later ended found
  | quotedIdentifier name => exact quotedNamed_agrees ended found
  | lbrace =>
      have passes := ended.passes_advance (kind_eq_ne_eof found (by simp))
      rw [bind_assoc]
      refine finish_advanceTo ended found (by simp) rfl step_key fun listed => ?_
      exact (later _ _ passes).agrees (.members listed)
  | lbracket =>
      rw [finish_of_accept ended found (by simp) rfl]
      exact behindBracket_agrees later ended (ended.passes_advance (kind_eq_ne_eof found (by simp)))
  | star => exact allMembers_agrees later ended (.refl base) found (by simp) rfl
  | _ => exact finish_of_complaint found rfl

theorem member_agrees {left : Query} (found : base.token.lexeme = .dot)
    (accepted : state.step lenient .dot = .ok ⟨.dot (.member left), context⟩) :
    finish lenient state base = member recur left base >>= goOn lenient context := by
  have passes := ended.passes_advance (kind_eq_ne_eof found (by simp))
  unfold member
  rw [bind_assoc]
  refine finish_advanceTo ended found (by simp) accepted step_dot fun listed => ?_
  split
  · rename_i star
    exact allMembers_agrees later ended passes.reaches (Lexeme.eq_of_kind star rfl) (by simp) rfl
  · rename_i other
    rw [bind_assoc]
    exact behindDot_agrees later (.member left) passes (ended.of_reaches passes.reaches) listed
      fun star => absurd star other

theorem subscript_agrees {left : Query} (found : base.token.lexeme = .lbracket)
    (accepted : state.step lenient .lbracket = .ok ⟨.subscript left, context⟩) :
    finish lenient state base = subscript recur left base >>= goOn lenient context := by
  have passes := ended.passes_advance (kind_eq_ne_eof found (by simp))
  unfold subscript
  rw [bind_assoc]
  refine finish_advanceTo ended found (by simp) accepted step_subscript fun listed => ?_
  split
  · rename_i star
    exact allItems_agrees later ended passes.reaches (Lexeme.eq_of_kind star rfl) (by simp) rfl rfl
      step_subscriptStar
  · rename_i other
    rw [bind_assoc]
    have opens := step_subscript_opens listed other lenient left context
    exact (finish_congr rfl opens.2).trans ((later _ _ passes).agrees (.segments opens.1))

/-- An operator that is read behind others of less power. -/
theorem operator_agrees {left : Query} (strong : 0 < base.token.lexeme.power)
    (weak : ∀ p ∈ context.pending.head?, p.power < base.token.lexeme.power) :
    finish lenient ⟨.operator left, context⟩ base =
      operator recur left base >>= goOn lenient context := by
  have step : State.step lenient ⟨.operator left, context⟩ base.token.lexeme =
      stepInfix context left base.token.lexeme := stepOperator_strong strong weak left
  have connective {lexeme : Lexeme} (op : Connective) (found : base.token.lexeme = lexeme) (more : lexeme ≠ .eof)
      (accepted : State.step lenient ⟨.operator left, context⟩ lexeme =
        .ok ⟨.operand, context.push (.connective op left)⟩) :
      finish lenient ⟨.operator left, context⟩ base =
        connective recur op left base >>= goOn lenient context := by
    rw [finish_of_accept ended found more accepted, connective, bind_assoc]
    exact waiting_agrees later (.connective op left)
      (ended.passes_advance (kind_eq_ne_eof found more))
  unfold operator
  cases found : base.token.lexeme with
  | comparator op =>
      rw [found] at step
      exact connective (.compare op) found (by simp) step
  | or =>
      rw [found] at step
      exact connective .either found (by simp) step
  | and =>
      rw [found] at step
      exact connective .both found (by simp) step
  | pipe =>
      rw [found] at step
      exact connective .pipe found (by simp) step
  | dot =>
      rw [found] at step
      exact member_agrees later ended found step
  | filter =>
      rw [found] at step
      exact filter_agrees later ended found (by simp) step
  | flatten =>
      rw [found] at step
      exact flatten_agrees later ended found (by simp) step
  | lbracket =>
      rw [found] at step
      exact subscript_agrees later ended found step
  | _ =>
      rw [found] at step
      exact finish_of_complaint found step

end Procedures

/-! ### Projections and loops -/

section Inner

variable {call : Call} {base : Cursor}
  (inner : ∀ call' c, Below call' c call base → Follows lenient recur call' c) (ended : base.Ended)
include inner ended

theorem projection_agrees (rank : 2 < call.rank) (source : Source) :
    finish lenient ⟨.body source, context⟩ base =
      projection recur source.power base >>= fun found =>
        goOn lenient context (source.project found.1, found.2) := by
  have later (call : Call) (c : Cursor) (passes : base.Passes c) := inner call c (.inl passes)
  -- the body of the projection starts where the call is made
  have starts (same : State.step lenient ⟨.body source, context⟩ base.token.lexeme =
        State.step lenient ⟨.operand, context.push (.projection source)⟩ base.token.lexeme) :
      finish lenient ⟨.body source, context⟩ base =
        recur (.expression source.power) base >>= fun found =>
          goOn lenient context (source.project found.1, found.2) := by
    refine (finish_congr rfl same).trans ?_
    refine (inner (.expression source.power) base (.inr ⟨rfl, rank⟩)).bind (.expression ?_)
      fun q c leaves => goOn_push leaves.2 q
    rintro p ⟨⟩
    exact Nat.le_refl _
  unfold projection
  split
  · rename_i weak
    refine finish_congr rfl ?_
    simp only [State.step, stepBody, weak, if_true]
  · rename_i strong
    have step : State.step lenient ⟨.body source, context⟩ base.token.lexeme = _ := if_neg strong
    cases found : base.token.lexeme with
    | dot =>
        have passes := ended.passes_advance (kind_eq_ne_eof found (by simp))
        rw [bind_assoc]
        refine finish_advanceTo ended found (by simp) rfl step_dot fun listed => ?_
        exact behindDot_agrees later (.projection source) passes (ended.of_reaches passes.reaches)
          listed fun _ _ same => by cases same
    | lbracket => exact starts (found ▸ rfl)
    | filter => exact starts (found ▸ rfl)
    | _ =>
        rw [found] at step
        exact finish_of_complaint found step

/-! ### Turns of a loop -/

theorem argumentsTurn_agrees (rank : 2 < call.rank) {resume : Turn → Outcome Query}
    (resumes : Resumes lenient base resume id context) (function : String) (args : List Query) :
    finish lenient ⟨.argument function args, context⟩ base =
      argumentsTurn lenient recur function args base >>= resume := by
  unfold argumentsTurn
  split
  · rename_i close
    have close := Lexeme.eq_of_kind close rfl
    split
    · rename_i builtin known
      have closed : State.step lenient ⟨.argument function args, context⟩ .rparen =
          found context (.call function args lenient) := by
        simp only [State.step, closeArguments, known]
      rw [finish_of_accept ended close (by simp) closed]
      exact (resumes.leave _ (ended.passes_advance (kind_eq_ne_eof close (by simp)))).symm
    · rename_i unknown
      have rejected : State.step lenient ⟨.argument function args, context⟩ .rparen =
          .error (.unknownFunction function) := by
        simp only [State.step, closeArguments, unknown]
      exact finish_of_reject close rejected
  · rename_i other
    rw [bind_assoc]
    have same : State.step lenient ⟨.argument function args, context⟩ base.token.lexeme =
        State.step lenient ⟨.operand, context.enter (.arguments function args)⟩
          base.token.lexeme := by
      cases found : base.token.lexeme with
      | rparen => exact absurd (kind_eq found) other
      | _ => rfl
    refine (finish_congr rfl same).trans ?_
    refine (inner (.expression 0) base (.inr ⟨rfl, rank⟩)).bind (.opened rfl)
      fun arg c leaves => ?_
    have met := step_enter lenient context (.arguments function args) arg leaves.2
    have endedThere := ended.of_reaches leaves.1.reaches
    dsimp only [id]
    cases found : c.token.lexeme with
    | comma =>
        rw [found] at met
        rw [goOn, finish_of_accept endedThere found (by simp) met]
        exact (resumes.again (leaves.1.trans_reaches c.reaches_advance) .arguments).symm
    | rparen =>
        -- the parenthesis is left for the next turn, which closes the arguments
        rw [found] at met
        refine (finish_congr found ?_).trans (resumes.again leaves.1 .arguments).symm
        exact met
    | _ =>
        rw [found] at met
        exact finish_of_complaint found met

theorem itemsTurn_agrees (rank : 2 < call.rank) {resume : Turn → Outcome Query}
    {owner : Option Pending}
    (resumes : Resumes lenient base resume (fun q => owner.elim q (·.complete q)) context)
    (items : List Query) :
    finish lenient ⟨.operand, context.enter (.list items owner)⟩ base =
      itemsTurn recur items base >>= resume := by
  unfold itemsTurn
  rw [bind_assoc]
  refine (inner (.expression 0) base (.inr ⟨rfl, rank⟩)).bind (.opened rfl)
    fun item c leaves => ?_
  have met := step_enter lenient context (.list items owner) item leaves.2
  have endedThere := ended.of_reaches leaves.1.reaches
  have passes := leaves.1.trans_reaches c.reaches_advance
  dsimp only [id]
  cases found : c.token.lexeme with
  | comma =>
      rw [found] at met
      rw [goOn, finish_of_accept endedThere found (by simp) met]
      dsimp only
      split
      · rename_i close
        exact finish_of_complaint (Lexeme.eq_of_kind close rfl) rfl
      · rename_i other
        refine (finish_congr rfl ?_).trans (resumes.again passes .items).symm
        cases found : c.advance.token.lexeme with
        | rbracket => exact absurd (kind_eq found) other
        | _ => rfl
  | rbracket =>
      rw [found] at met
      have closed : stepBracket lenient (⟨.list items owner, context.pending⟩ :: context.levels)
          item .rbracket =
          .ok ⟨.operator (owner.elim (.list (items ++ [item])) (·.complete (.list (items ++ [item])))),
            context⟩ := by
        cases owner <;> rfl
      rw [goOn, finish_of_accept endedThere found (by simp) (met.trans closed)]
      exact (resumes.leave _ passes).symm
  | _ =>
      rw [found] at met
      exact finish_of_complaint found met

theorem membersTurn_agrees {resume : Turn → Outcome Query}
    (resumes : Resumes lenient base resume id context) (entries : List (String × Query))
    (key : base.kind ∈ hashKeys) :
    finish lenient ⟨.key entries, context⟩ base = membersTurn recur entries base >>= resume := by
  have later (call : Call) (c : Cursor) (passes : base.Passes c) := inner call c (.inl passes)
  have more : base.token.lexeme ≠ .eof := by
    intro last
    rw [kind_eq last] at key
    exact absurd key (by decide)
  have passes := ended.passes_advance (kind_eq_ne_eof rfl more)
  unfold membersTurn
  dsimp only
  rw [bind_assoc]
  refine finish_advanceTo ended rfl more (step_key_of_mem key) step_colon fun listed => ?_
  have colon := Lexeme.eq_of_kind (List.mem_singleton.mp listed) rfl
  rw [finish_of_accept (ended.of_reaches passes.reaches) colon (by simp) rfl, bind_assoc]
  refine (later (.expression 0) _ (passes.trans_reaches base.advance.reaches_advance)).bind
    (.opened rfl) fun v c leaves => ?_
  have met := step_enter lenient context (.hash entries base.token.lexeme.text) v leaves.2
  have behind := passes.trans_reaches (base.advance.reaches_advance.trans leaves.1.reaches)
  have endedThere := ended.of_reaches behind.reaches
  dsimp only [id]
  cases found : c.token.lexeme with
  | comma =>
      rw [found] at met
      rw [bind_assoc]
      refine finish_advanceTo endedThere found (by simp) met step_key fun listed => ?_
      exact (resumes.again (behind.trans_reaches c.reaches_advance) (.members listed)).symm
  | rbrace =>
      rw [found] at met
      rw [goOn, finish_of_accept endedThere found (by simp) met]
      exact (resumes.leave _ (behind.trans_reaches c.reaches_advance)).symm
  | _ =>
      rw [found] at met
      exact finish_of_complaint found met

/-- The bracket that closes a slice, and the projection behind it. -/
theorem closeSlice_agrees {left : Option Query} {resume : Turn → Outcome Query}
    (resumes : Resumes lenient base resume (fun q => left.elim q (.chain · q)) context)
    (passes : base.Passes c) (close : c.token.lexeme = .rbracket) (start stop step : Option Int64)
    (closed : state.step lenient .rbracket =
      match Slice.ofBounds? start stop step with
      | .ok s => .ok ⟨.body (.sliced left s), context⟩
      | .error _ => .error .zeroStep) :
    finish lenient state c =
      (match Slice.ofBounds? start stop step with
        | .ok s => do
            let (body, c) ← recur (.projection TokenKind.star.power) c.advance
            return .leave (.eachItem (.slice s) body) c
        | .error e => .failure e : Outcome Turn) >>= resume := by
  cases bounds : Slice.ofBounds? start stop step with
  | error e =>
      rw [bounds] at closed
      obtain rfl : e = .zeroStep := by
        simp only [Slice.ofBounds?] at bounds
        split at bounds <;> cases bounds
        rfl
      exact finish_of_reject close closed
  | ok s =>
      rw [bounds] at closed
      have behind := passes.trans_reaches c.reaches_advance
      dsimp only
      rw [finish_of_accept (ended.of_reaches passes.reaches) close (by simp) closed, bind_assoc]
      refine (inner _ _ (.inl behind)).bind (.projection (.sliced left s)) fun body c' reaches => ?_
      refine .trans ?_ (resumes.leave _ (behind.trans_reaches reaches)).symm
      cases left <;> rfl

/-- The bracket that closes an index or a slice. -/
theorem closeSegments_agrees {left : Option Query} {resume : Turn → Outcome Query}
    (resumes : Resumes lenient base resume (fun q => left.elim q (.chain · q)) context)
    {segments : Segments} (short : segments.complete.length ≤ 2) (filled : segments ≠ ⟨[], none⟩)
    (passes : base.Passes c) (close : c.token.lexeme = .rbracket) :
    finish lenient ⟨.segments left segments, context⟩ c =
      closeSegments recur segments.bounds segments.complete.length c.advance >>= resume := by
  obtain ⟨complete, current⟩ := segments
  match complete, current, short, filled with
  | [], none, _, filled => exact absurd rfl filled
  | [], some position, _, _ =>
      have closed : State.step lenient ⟨.segments left ⟨[], some position⟩, context⟩ .rbracket =
          found context (left.elim (.index position) (.chain · (.index position))) := by
        cases left <;> rfl
      rw [finish_of_accept (ended.of_reaches passes.reaches) close (by simp) closed]
      exact (resumes.leave _ (passes.trans_reaches c.reaches_advance)).symm
  | [start], stop, _, _ => exact closeSlice_agrees inner ended resumes passes close start stop none rfl
  | [start, stop], step, _, _ =>
      exact closeSlice_agrees inner ended resumes passes close start stop step rfl

/-- The token behind a colon or number inside brackets. -/
theorem segmentsNext_agrees {left : Option Query} {resume : Turn → Outcome Query}
    (resumes : Resumes lenient base resume (fun q => left.elim q (.chain · q)) context)
    {segments : Segments} (short : segments.complete.length ≤ 2) (filled : segments ≠ ⟨[], none⟩)
    (read : base.token.lexeme = lexeme) (more : lexeme ≠ .eof)
    (accepted : state.step lenient lexeme = .ok ⟨.segments left segments, context⟩) :
    finish lenient state base =
      segmentsNext recur segments.bounds segments.complete.length segments.expected base >>=
        resume := by
  have passes := ended.passes_advance (kind_eq_ne_eof read more)
  unfold segmentsNext
  rw [bind_assoc]
  refine finish_advanceTo ended read more accepted step_segments fun listed => ?_
  split
  · rename_i close
    exact closeSegments_agrees inner ended resumes short filled
      (passes.trans_reaches (.refl _)) (Lexeme.eq_of_kind close rfl)
  · rename_i other
    exact (resumes.again passes (.segments ⟨short, continues_of_mem listed other⟩)).symm

theorem segmentsTurn_agrees {left : Option Query} {resume : Turn → Outcome Query}
    (resumes : Resumes lenient base resume (fun q => left.elim q (.chain · q)) context)
    {segments : Segments} (continues : Continues segments base.token.lexeme) :
    finish lenient ⟨.segments left segments, context⟩ base =
      segmentsTurn recur segments.bounds segments.complete.length base >>= resume := by
  obtain ⟨complete, current⟩ := segments
  obtain ⟨short, read | ⟨rfl, n, read⟩⟩ := continues
  · unfold segmentsTurn
    rw [read]
    dsimp only
    split
    · rename_i many
      refine finish_of_complaint read ?_
      have few : ¬ complete.length < 2 := by omega
      simp only [State.step, stepSegments, few, if_false]
    · rename_i few
      have few : complete.length < 2 := by omega
      have accepted : State.step lenient ⟨.segments left ⟨complete, current⟩, context⟩ .colon =
          .ok ⟨.segments left ⟨complete ++ [current], none⟩, context⟩ := by
        simp only [State.step, stepSegments, few, if_true]
      have length : (complete ++ [current]).length = complete.length + 1 := List.length_append
      have next := segmentsNext_agrees inner ended resumes (length ▸ few) ?_ read (by simp) accepted
      · rwa [Segments.bounds_colon current few, length] at next
      · intro empty
        exact List.append_ne_nil_of_right_ne_nil _ (List.cons_ne_nil _ _)
          (congrArg Segments.complete empty)
  · unfold segmentsTurn
    rw [read]
    dsimp only
    rw [Segments.bounds_number]
    exact segmentsNext_agrees inner ended resumes short (by simp) read (by simp) rfl

/-- A call agrees when the calls below it do. -/
theorem perform_agrees {build : Query → Query} (stands : Stands call base state build context) :
    finish lenient state base =
      perform lenient recur call base >>= fun found =>
        goOn lenient context (build found.1, found.2) := by
  have later (call : Call) (c : Cursor) (passes : base.Passes c) := inner call c (.inl passes)
  have resumes {build : Query → Query} : Resumes lenient base
      (fun turned => turned.resume recur >>= fun found =>
        goOn lenient context (build found.1, found.2)) build context :=
    ⟨fun _ _ => rfl, fun passes stands => ((later _ _ passes).agrees stands).symm⟩
  cases stands with
  | expression weak =>
      rw [perform, bind_assoc]
      exact (inner .operand base (.inr ⟨rfl, Nat.zero_lt_two⟩)).bind .operand
        fun q c passes => (later _ c passes).agrees (.operators weak)
  | operand => exact operand_agrees later ended
  | operators weak =>
      rename_i power left
      unfold perform
      dsimp only
      split
      · rename_i strong
        rw [bind_assoc]
        refine (inner (.operator left) base (.inr ⟨rfl, Nat.one_pos⟩)).bind
          (.operator (Nat.zero_lt_of_lt strong) fun p first => ?_)
          fun q c passes => (later _ c passes).agrees (.operators weak)
        exact Nat.lt_of_le_of_lt (weak p first) strong
      · rfl
  | operator strong weak => exact operator_agrees later ended strong weak
  | projection source => exact projection_agrees inner ended (Nat.lt_succ_self 2) source
  | arguments =>
      rw [perform, bind_assoc]
      exact argumentsTurn_agrees inner ended (Nat.lt_succ_self 2) resumes _ _
  | items =>
      rw [perform, bind_assoc]
      exact itemsTurn_agrees inner ended (Nat.lt_succ_self 2) resumes _
  | members key =>
      rw [perform, bind_assoc]
      exact membersTurn_agrees inner ended resumes _ key
  | segments continues =>
      rw [perform, bind_assoc]
      exact segmentsTurn_agrees inner ended resumes continues

end Inner

/-! ## Whole texts -/

/-- By induction on how deep calls nest: the calls below nest less deep. -/
theorem read_follows {call : Call} (ended : c.Ended) : Follows lenient (read lenient) call c := by
  induction measure : call.depth c using Nat.strong_induction_on generalizing call c with
  | _ depth ih =>
      refine ⟨read_settles ended, fun stands => ?_⟩
      rw [read_eq_perform ended]
      refine perform_agrees (fun call' c' below => ?_) ended stands
      exact ih _ (measure ▸ below.depth_lt) (below.ended ended) rfl

/-- Reads an expression, behind which the text has to end. -/
def readText (lenient : Bool) (text : String) : Outcome Query := do
  let (query, c) ← read lenient (.expression 0) (Cursor.ofTokens text (tokenize text))
  if c.kind = .eof then return query else fail c (.afterExpression c.token.lexeme)

/-- Behind a whole expression the text has to end. -/
theorem goOn_outermost {lenient : Bool} {c : Cursor} (ended : c.Ended) (q : Query)
    (powerless : c.token.lexeme.power ≤ 0) :
    goOn lenient .outermost (q, c) =
      if c.kind = .eof then .answer q else fail c (.afterExpression c.token.lexeme) := by
  have met : State.step lenient ⟨.operator q, .outermost⟩ c.token.lexeme =
      stepBracket lenient [] q c.token.lexeme :=
    stepOperator_powerless _ _ (Nat.le_zero.mp powerless)
  split
  · rename_i last
    rw [Lexeme.eq_of_kind last rfl] at met
    simp only [goOn, finish, ended.rest_eq_nil last, run, Lexeme.eq_of_kind last rfl, met]
    rfl
  · rename_i more
    refine finish_of_complaint rfl (met.trans ?_)
    cases found : c.token.lexeme with
    | eof => exact absurd (kind_eq found) more
    | _ => rfl

theorem parse_eq_readText (parser : Parser) (text : String) :
    ofResult (parser.parse text) = readText parser.lenient text := by
  obtain ⟨token, rest, tokens⟩ := tokenize_eq_cons text
  have ended := Cursor.ended_ofTokens text
  rw [parser.parse_eq_run tokens, readText]
  rw [Cursor.ofTokens_tokenize tokens] at ended ⊢
  have stands : Stands (.expression 0) ⟨text, token, rest⟩ .start id .outermost := .opened rfl
  have reads : Follows parser.lenient (read parser.lenient) (.expression 0) ⟨text, token, rest⟩ :=
    read_follows ended
  refine reads.bind stands fun q c leaves => ?_
  exact goOn_outermost (ended.of_reaches leaves.1.reaches) q leaves.2

end Descent

end JsonQuery
