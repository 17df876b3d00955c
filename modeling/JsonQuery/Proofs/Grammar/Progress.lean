import JsonQuery.Proofs.Grammar.Descent
import JsonQuery.Proofs.Token.Cursor

/-!
# Progress of reading

A call goes on only behind its own cursor, or in the same place with a call of lower rank.  So the
tokens that are left bound how deep calls nest, and from this depth on nothing is cut off and the
depth makes no difference.
-/

set_option autoImplicit false

namespace JsonQuery

/-! ## Outcomes that are alike -/

namespace Outcome

variable {α β : Type} {P Q : α → Prop}

/-- The same answer, with a given property, or the same error. -/
inductive Alike (P : α → Prop) : Outcome α → Outcome α → Prop
  | answer {a : α} (holds : P a) : Alike P (.answer a) (.answer a)
  | failure (e : Error) : Alike P (.failure e) (.failure e)

namespace Alike

theorem bind {R : β → Prop} {o o' : Outcome α} {f f' : α → Outcome β} (alike : Alike P o o')
    (next : ∀ a, P a → Alike R (f a) (f' a)) : Alike R (o >>= f) (o' >>= f') := by
  cases alike with
  | answer holds => exact next _ holds
  | failure e => exact .failure e

theorem mono {o o' : Outcome α} (alike : Alike P o o') (weaker : ∀ a, P a → Q a) :
    Alike Q o o' := by
  cases alike with
  | answer holds => exact .answer (weaker _ holds)
  | failure e => exact .failure e

theorem eq {o o' : Outcome α} (alike : Alike P o o') : o = o' := by
  cases alike <;> rfl

theorem ne_unsettled {o o' : Outcome α} (alike : Alike P o o') : o ≠ .unsettled := by
  cases alike <;> nofun

theorem holds {a : α} {o' : Outcome α} (alike : Alike P (.answer a) o') : P a := by
  cases alike with
  | answer holds => exact holds

end Alike

end Outcome

namespace Descent

open Grammar Outcome

/-! ## Where calls lead -/

/-- Among calls in one place, those of lower rank are made by those of higher rank. -/
def Call.rank : Call → Nat
  | .operand | .operator _ => 0
  | .operators _ _ => 1
  | .expression _ => 2
  | .projection _ | .loop _ => 3

/-- A call is made behind the one that makes it, or it is of lower rank. -/
def Below (inner : Call) (c' : Cursor) (outer : Call) (c : Cursor) : Prop :=
  c.Passes c' ∨ c' = c ∧ inner.rank < outer.rank

/-- How deep calls nest within a call, at most. -/
def Call.depth (call : Call) (c : Cursor) : Nat :=
  4 * c.rest.length + call.rank + 1

theorem Call.rank_lt (call : Call) : call.rank < 4 := by
  cases call <;> simp [rank]

theorem Below.depth_lt {inner outer : Call} {c c' : Cursor} (below : Below inner c' outer c) :
    inner.depth c' < outer.depth c := by
  simp only [Call.depth]
  obtain passes | ⟨rfl, lower⟩ := below
  · have shorter := passes.length_lt
    have rank := inner.rank_lt
    omega
  · omega

theorem Below.ended {inner outer : Call} {c c' : Cursor} (below : Below inner c' outer c)
    (ended : c.Ended) : c'.Ended := by
  obtain passes | ⟨rfl, -⟩ := below
  · exact ended.of_reaches passes.reaches
  · exact ended

/-- Where a call that succeeds leaves the cursor.  Only the operators behind an expression and the
body of a projection may be empty. -/
def Call.Leaves : Call → Cursor → Cursor → Prop
  | .expression power, c, c' => c.Passes c' ∧ c'.token.lexeme.power ≤ power
  | .operators power _, c, c' => c.Reaches c' ∧ c'.token.lexeme.power ≤ power
  | .projection _, c, c' => c.Reaches c'
  | _, c, c' => c.Passes c'

theorem Call.Leaves.reaches {call : Call} {c c' : Cursor} (leaves : call.Leaves c c') :
    c.Reaches c' := by
  cases call with
  | expression power => exact leaves.1.reaches
  | operators power left => exact leaves.1
  | projection power => exact leaves
  | _ => exact Cursor.Passes.reaches leaves

variable {lenient : Bool} {recur recur' : Call → Cursor → Outcome Found} {c c' : Cursor}

/-- Both ways of answering calls settle one alike, and move its cursor on. -/
def Settle (recur recur' : Call → Cursor → Outcome Found) (call : Call) (c : Cursor) : Prop :=
  (recur call c).Alike (fun found => call.Leaves c found.2) (recur' call c)

/-- The query that has been read leaves the cursor behind `c`. -/
def Behind (c : Cursor) (found : Found) : Prop :=
  c.Passes found.2

/-- A turn moves the cursor on, whether another one follows or not. -/
def Turn.Behind (c : Cursor) : Turn → Prop
  | .again _ c' | .leave _ c' => c.Passes c'

theorem advanceTo_alike {kinds : List TokenKind} (noEnd : .eof ∉ kinds) (ended : c.Ended) :
    (advanceTo kinds c).Alike (fun c' => c.Passes c' ∧ c'.kind ∈ kinds) (advanceTo kinds c) := by
  simp only [advanceTo, Cursor.expect]
  by_cases listed : c.advance.kind ∈ kinds
  · simp only [listed, if_true]
    refine .answer ⟨ended.passes_advance fun last => ?_, listed⟩
    rw [ended.advance_eq last, last] at listed
    exact noEnd listed
  · simp only [listed, if_false]
    exact .failure _

/-! ## One call

`later` says that calls behind `base` settle.  Each procedure is entered at `base` or behind it, and
leaves the cursor behind it. -/

theorem passes_advance {base : Cursor} (ended : base.Ended) (reaches : base.Reaches c)
    (more : c.kind ≠ .eof) : base.Passes c.advance :=
  reaches.trans_passes ((ended.of_reaches reaches).passes_advance more)

section Procedures

variable {base : Cursor} (later : ∀ call c, base.Passes c → Settle recur recur' call c)
include later

theorem recur_alike (call : Call) (passes : base.Passes c) :
    (recur call c).Alike (Behind base) (recur' call c) :=
  (later call c passes).mono fun _ leaves => passes.trans_reaches leaves.reaches

/-- A call whose answer goes into a larger query. -/
theorem build_alike (call : Call) (build : Query → Query) (passes : base.Passes c) :
    Outcome.Alike (Behind base) (do let (q, c) ← recur call c; return (build q, c))
      (do let (q, c) ← recur' call c; return (build q, c)) :=
  (recur_alike later call passes).bind fun _ behind => .answer behind

theorem behindDot_alike (power : Nat) (passes : base.Passes c) :
    (behindDot recur power c).Alike (Behind base) (behindDot recur' power c) := by
  unfold behindDot
  split
  · exact recur_alike later _ (passes.trans_reaches c.reaches_advance)
  · exact recur_alike later _ passes

variable (ended : base.Ended)
include ended

theorem filter_alike (left : Query) (more : base.kind ≠ .eof) :
    (filter recur left base).Alike (Behind base) (filter recur' left base) := by
  refine (recur_alike later _ (ended.passes_advance more)).bind ?_
  rintro ⟨test, c⟩ behind
  dsimp only
  split
  · exact build_alike later _ (fun body => .eachItem left (.guard test body))
      (behind.trans_reaches c.reaches_advance)
  · exact .failure _

theorem flatten_alike (left : Query) (more : base.kind ≠ .eof) :
    (flatten recur left base).Alike (Behind base) (flatten recur' left base) :=
  build_alike later _ _ (ended.passes_advance more)

theorem allItems_alike (left : Query) (reaches : base.Reaches c) :
    (allItems recur left c).Alike (Behind base) (allItems recur' left c) := by
  refine (advanceTo_alike (by decide) (ended.of_reaches reaches)).bind ?_
  rintro c' ⟨passes, -⟩
  exact build_alike later _ _ ((reaches.trans_passes passes).trans_reaches c'.reaches_advance)

theorem allMembers_alike (left : Query) (reaches : base.Reaches c) (more : c.kind ≠ .eof) :
    (allMembers recur left c).Alike (Behind base) (allMembers recur' left c) :=
  build_alike later _ _ (passes_advance ended reaches more)

theorem behindBracket_alike (passes : base.Passes c) :
    (behindBracket recur c).Alike (Behind base) (behindBracket recur' c) := by
  unfold behindBracket
  split
  · exact recur_alike later _ passes
  · exact recur_alike later _ passes
  · split
    · exact allItems_alike later ended .current passes.reaches
    · exact recur_alike later _ passes
  · exact recur_alike later _ passes

theorem group_alike (more : base.kind ≠ .eof) :
    (group recur base).Alike (Behind base) (group recur' base) := by
  refine (recur_alike later _ (ended.passes_advance more)).bind ?_
  rintro ⟨q, c⟩ behind
  dsimp only
  split
  · exact .answer (behind.trans_reaches c.reaches_advance)
  · exact .failure _

theorem named_alike (name : String) (more : base.kind ≠ .eof) :
    (named recur name base).Alike (Behind base) (named recur' name base) := by
  have passes := ended.passes_advance more
  unfold named
  split
  · exact recur_alike later _ (passes.trans_reaches base.advance.reaches_advance)
  · exact .answer passes

theorem operand_alike : (operand recur base).Alike (Behind base) (operand recur' base) := by
  by_cases last : base.kind = .eof
  · rw [operand, operand, Lexeme.eq_of_kind last rfl]
    exact .failure _
  · have passes := ended.passes_advance last
    unfold operand
    cases base.token.lexeme with
    | current => exact .answer passes
    | literal v => exact .answer passes
    | expref => exact build_alike later _ _ passes
    | not => exact build_alike later _ _ passes
    | lparen => exact group_alike later ended last
    | filter => exact filter_alike later ended .current last
    | flatten => exact flatten_alike later ended .current last
    | identifier name => exact named_alike later ended name last
    | quotedIdentifier name =>
        dsimp only [quotedNamed]
        split
        · exact .failure _
        · exact .answer passes
    | lbrace =>
        refine (advanceTo_alike (by decide) ended).bind ?_
        rintro c ⟨passes, -⟩
        exact recur_alike later _ passes
    | lbracket => exact behindBracket_alike later ended passes
    | star => exact allMembers_alike later ended .current (.refl _) last
    | _ => exact .failure _

theorem member_alike (left : Query) :
    (member recur left base).Alike (Behind base) (member recur' left base) := by
  refine (advanceTo_alike (by decide) ended).bind ?_
  rintro c ⟨passes, listed⟩
  have more : c.kind ≠ .eof := fun last => absurd (last ▸ listed) (by decide)
  split
  · exact allMembers_alike later ended left passes.reaches more
  · exact (behindDot_alike later _ passes).bind fun _ behind => .answer behind

theorem subscript_alike (left : Query) :
    (subscript recur left base).Alike (Behind base) (subscript recur' left base) := by
  refine (advanceTo_alike (by decide) ended).bind ?_
  rintro c ⟨passes, -⟩
  split
  · exact allItems_alike later ended left passes.reaches
  · exact build_alike later _ _ passes

theorem operator_alike (left : Query) :
    (operator recur left base).Alike (Behind base) (operator recur' left base) := by
  by_cases last : base.kind = .eof
  · rw [operator, operator, Lexeme.eq_of_kind last rfl]
    exact .failure _
  · have passes := ended.passes_advance last
    have connective (op : Connective) :
        (connective recur op left base).Alike (Behind base) (connective recur' op left base) :=
      build_alike later _ _ passes
    unfold operator
    cases base.token.lexeme with
    | comparator op => exact connective (.compare op)
    | or => exact connective .either
    | and => exact connective .both
    | pipe => exact connective .pipe
    | dot => exact member_alike later ended left
    | filter => exact filter_alike later ended left last
    | flatten => exact flatten_alike later ended left last
    | lbracket => exact subscript_alike later ended left
    | _ => exact .failure _

end Procedures

/-! ### Projections and loops

These also make calls in the place where they are entered. -/

section Inner

variable {call : Call} {base : Cursor}
  (inner : ∀ call' c, Below call' c call base → Settle recur recur' call' c)
include inner

theorem here_alike (power : Nat) (lower : (Call.expression power).rank < call.rank) :
    (recur (.expression power) base).Alike (Behind base) (recur' (.expression power) base) :=
  (inner _ base (.inr ⟨rfl, lower⟩)).mono fun _ leaves => leaves.1

theorem projection_alike (ended : base.Ended) (power : Nat) (rank : 2 < call.rank) :
    (projection recur power base).Alike (fun found => base.Reaches found.2)
      (projection recur' power base) := by
  have later (call : Call) (c : Cursor) (passes : base.Passes c) := inner call c (.inl passes)
  unfold projection
  split
  · exact .answer (.refl base)
  · refine Alike.mono (P := Behind base) ?_ fun _ behind => behind.reaches
    split
    · refine (advanceTo_alike (by decide) ended).bind ?_
      rintro c ⟨passes, -⟩
      exact behindDot_alike later power passes
    · exact here_alike inner power rank
    · exact here_alike inner power rank
    · exact .failure _

theorem argumentsTurn_alike (ended : base.Ended) (function : String) (args : List Query)
    (rank : 2 < call.rank) :
    (argumentsTurn lenient recur function args base).Alike (Turn.Behind base)
      (argumentsTurn lenient recur' function args base) := by
  unfold argumentsTurn
  split
  · rename_i close
    have passes := ended.passes_advance (close ▸ by decide)
    split
    · exact .answer passes
    · exact .failure _
  · refine (here_alike inner 0 rank).bind ?_
    rintro ⟨arg, c⟩ behind
    dsimp only
    split
    · exact .answer (behind.trans_reaches c.reaches_advance)
    · exact .answer behind
    · exact .failure _

theorem itemsTurn_alike (items : List Query) (rank : 2 < call.rank) :
    (itemsTurn recur items base).Alike (Turn.Behind base) (itemsTurn recur' items base) := by
  refine (here_alike inner 0 rank).bind ?_
  rintro ⟨item, c⟩ behind
  have passes := Cursor.Passes.trans_reaches behind c.reaches_advance
  dsimp only
  split
  · split
    · exact .failure _
    · exact .answer passes
  · exact .answer passes
  · exact .failure _

theorem membersTurn_alike (ended : base.Ended) (entries : List (String × Query)) :
    (membersTurn recur entries base).Alike (Turn.Behind base) (membersTurn recur' entries base) := by
  have later (call : Call) (c : Cursor) (passes : base.Passes c) := inner call c (.inl passes)
  refine (advanceTo_alike (by decide) ended).bind ?_
  rintro c ⟨passes, -⟩
  refine (recur_alike later _ (passes.trans_reaches c.reaches_advance)).bind ?_
  rintro ⟨v, c⟩ behind
  dsimp only
  split
  · refine (advanceTo_alike (by decide) (ended.of_reaches behind.reaches)).bind ?_
    rintro c' ⟨passes, -⟩
    exact .answer (behind.trans_reaches passes.reaches)
  · exact .answer (behind.trans_reaches c.reaches_advance)
  · exact .failure _

theorem closeSegments_alike (bounds : List (Option Int64)) (colons : Nat) {c : Cursor}
    (passes : base.Passes c) :
    (closeSegments recur bounds colons c).Alike (Turn.Behind base)
      (closeSegments recur' bounds colons c) := by
  unfold closeSegments
  split
  · split
    · exact .answer passes
    · exact .failure _
  · split
    · refine (inner _ c (.inl passes)).bind ?_
      rintro ⟨body, c'⟩ reaches
      exact .answer (passes.trans_reaches reaches)
    · exact .failure _

theorem segmentsTurn_alike (ended : base.Ended) (bounds : List (Option Int64)) (colons : Nat) :
    (segmentsTurn recur bounds colons base).Alike (Turn.Behind base)
      (segmentsTurn recur' bounds colons base) := by
  have next (bounds : List (Option Int64)) (colons : Nat) {expected : List TokenKind}
      (noEnd : .eof ∉ expected) :
      (segmentsNext recur bounds colons expected base).Alike (Turn.Behind base)
        (segmentsNext recur' bounds colons expected base) := by
    refine (advanceTo_alike noEnd ended).bind ?_
    rintro c ⟨passes, -⟩
    split
    · exact closeSegments_alike inner bounds colons (passes.trans_reaches c.reaches_advance)
    · exact .answer passes
  unfold segmentsTurn
  split
  · split
    · exact .failure _
    · exact next _ _ (by decide)
  · exact next _ _ (by decide)
  · exact next _ _ (by decide)

end Inner

/-- Every turn of a loop moves the cursor on or fails. -/
theorem turn_alike {base : Cursor} (ended : base.Ended) (loop : Loop)
    (inner : ∀ call c, Below call c (.loop loop) base → Settle recur recur' call c) :
    (turn lenient recur loop base).Alike (Turn.Behind base) (turn lenient recur' loop base) := by
  cases loop with
  | arguments function args => exact argumentsTurn_alike inner ended function args (Nat.lt_succ_self 2)
  | segments bounds colons => exact segmentsTurn_alike inner ended bounds colons
  | items items => exact itemsTurn_alike inner items (Nat.lt_succ_self 2)
  | members entries => exact membersTurn_alike inner ended entries

/-- A call settles when the calls below it do. -/
theorem perform_alike {base : Cursor} (ended : base.Ended) (call : Call)
    (inner : ∀ call' c, Below call' c call base → Settle recur recur' call' c) :
    Settle (perform lenient recur) (perform lenient recur') call base := by
  have later (call : Call) (c : Cursor) (passes : base.Passes c) := inner call c (.inl passes)
  cases call with
  | expression power =>
      refine (inner .operand base (.inr ⟨rfl, Nat.zero_lt_two⟩)).bind ?_
      -- the operand has moved the cursor on, so the operators need not
      rintro ⟨left, c⟩ (passes : base.Passes c)
      exact (later (.operators power left) c passes).mono fun _ leaves =>
        ⟨passes.trans_reaches leaves.1, leaves.2⟩
  | operand => exact operand_alike later ended
  | operators power left =>
      simp only [Settle, perform]
      split
      · refine (inner (.operator left) base (.inr ⟨rfl, Nat.one_pos⟩)).bind ?_
        rintro ⟨left, c⟩ (passes : base.Passes c)
        exact (later (.operators power left) c passes).mono fun _ leaves =>
          ⟨(passes.trans_reaches leaves.1).reaches, leaves.2⟩
      · rename_i weak
        exact .answer ⟨.refl base, Nat.le_of_not_lt weak⟩
  | operator left => exact operator_alike later ended left
  | projection power => exact projection_alike inner ended power (Nat.lt_succ_self 2)
  | loop loop =>
      refine (turn_alike ended loop inner).bind ?_
      intro turned behind
      cases turned with
      | again loop c => exact recur_alike later _ behind
      | leave query c => exact .answer behind

/-! ## All calls -/

theorem descend_alike {depth depth' : Nat} {call : Call} (ended : c.Ended)
    (enough : call.depth c ≤ depth) (enough' : call.depth c ≤ depth') :
    Settle (descend lenient depth) (descend lenient depth') call c := by
  induction depth generalizing depth' call c with
  | zero => exact absurd enough (Nat.not_succ_le_zero _)
  | succ depth ih =>
      cases depth' with
      | zero => exact absurd enough' (Nat.not_succ_le_zero _)
      | succ depth' =>
          refine perform_alike ended call fun call' c' below => ?_
          -- both depths leave enough for the calls below
          have lower := below.depth_lt
          exact ih (below.ended ended) (by omega) (by omega)

/-- The outcome of a call, at a depth at which nothing is cut off. -/
def read (lenient : Bool) (call : Call) (c : Cursor) : Outcome Found :=
  descend lenient (call.depth c) call c

variable {call : Call} (ended : c.Ended)
include ended

theorem descend_eq_read {depth : Nat} (enough : call.depth c ≤ depth) :
    descend lenient depth call c = read lenient call c :=
  (descend_alike ended enough (Nat.le_refl _)).eq

theorem read_settles : Settle (read lenient) (read lenient) call c :=
  descend_alike ended (Nat.le_refl _) (Nat.le_refl _)

/-- Reading is total by recursion on the tokens that are left. -/
theorem read_eq_perform : read lenient call c = perform lenient (read lenient) call c := by
  refine (perform_alike ended call fun call' c' below => ?_).eq
  exact descend_alike (below.ended ended) (Nat.le_of_lt_succ below.depth_lt) (Nat.le_refl _)

theorem read_turn (lenient : Bool) (loop : Loop) :
    (turn lenient (read lenient) loop c).Alike (Turn.Behind c) (turn lenient (read lenient) loop c) :=
  turn_alike ended loop fun _ _ below => read_settles (below.ended ended)

/-! ## The end of the text -/

/-- What a call answers at the last token: it fails there, unless it may stop. -/
def Call.AnswersAtEnd : Call → Cursor → Outcome Found → Prop
  | .operators _ left, c, outcome => outcome = .answer (left, c)
  | .projection _, c, outcome => outcome = .answer (.current, c)
  | _, c, outcome => ∃ complaint, outcome = .failure (c.error complaint)

theorem advanceTo_at_end {kinds : List TokenKind} (noEnd : .eof ∉ kinds) (last : c.kind = .eof) :
    advanceTo kinds c = .failure (c.error (.expectedOneOf kinds .eof)) := by
  simp only [advanceTo, Cursor.expect, ended.advance_eq last, last, noEnd, if_false]

theorem read_operand_at_end (last : c.kind = .eof) :
    read lenient .operand c = .failure (c.error .unexpectedEnd) := by
  rw [read_eq_perform ended, perform, operand, Lexeme.eq_of_kind last rfl]
  rfl

theorem read_expression_at_end (power : Nat) (last : c.kind = .eof) :
    read lenient (.expression power) c = .failure (c.error .unexpectedEnd) := by
  rw [read_eq_perform ended, perform, read_operand_at_end ended last]
  rfl

theorem turn_at_end (loop : Loop) (last : c.kind = .eof) :
    ∃ complaint, turn lenient (read lenient) loop c = .failure (c.error complaint) := by
  cases loop with
  | arguments function args =>
      refine ⟨.unexpectedEnd, ?_⟩
      simp only [turn, argumentsTurn, last, read_expression_at_end ended 0 last]
      rfl
  | segments bounds colons =>
      refine ⟨.expectedOneOf afterColon .eof, ?_⟩
      simp only [turn, segmentsTurn, Lexeme.eq_of_kind last rfl, segmentsNext]
      rw [advanceTo_at_end ended (by decide) last]
      rfl
  | items items =>
      refine ⟨.unexpectedEnd, ?_⟩
      simp only [turn, itemsTurn, read_expression_at_end ended 0 last]
      rfl
  | members entries =>
      refine ⟨.expectedOneOf [.colon] .eof, ?_⟩
      simp only [turn, membersTurn]
      rw [advanceTo_at_end ended (by decide) last]
      rfl

theorem read_at_end (call : Call) (last : c.kind = .eof) :
    call.AnswersAtEnd c (read lenient call c) := by
  cases call with
  | expression power => exact ⟨_, read_expression_at_end ended power last⟩
  | operand => exact ⟨_, read_operand_at_end ended last⟩
  | operators power left =>
      rw [read_eq_perform ended, perform, Lexeme.eq_of_kind last rfl]
      rfl
  | operator left =>
      refine ⟨.unexpected .eof, ?_⟩
      rw [read_eq_perform ended, perform, operator, Lexeme.eq_of_kind last rfl]
      rfl
  | projection power =>
      rw [read_eq_perform ended, perform, projection, Lexeme.eq_of_kind last rfl]
      rfl
  | loop loop =>
      obtain ⟨complaint, failed⟩ := turn_at_end ended loop last
      refine ⟨complaint, ?_⟩
      rw [read_eq_perform ended, perform, failed]
      rfl

end Descent

end JsonQuery
