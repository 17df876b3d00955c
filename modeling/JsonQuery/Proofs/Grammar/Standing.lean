import JsonQuery.Proofs.Grammar.Inside
import JsonQuery.Proofs.Grammar.Progress

/-!
# The states of calls

A state of reading is what the calls that are under way have still to do.  So each call is made in a
state of a certain form, and there is one state behind each query that it can answer with.
-/

set_option autoImplicit false

namespace JsonQuery

namespace Outcome

/-- Reading does not get cut off. -/
def ofResult {α : Type} : Except Error α → Outcome α
  | .ok a => .answer a
  | .error e => .failure e

end Outcome

namespace Grammar.Segments

/-- The bounds that segments stand for, as far as they have been read. -/
def bounds (segments : Segments) : List (Option Int64) :=
  segments.complete ++ segments.current :: List.replicate (2 - segments.complete.length) none

/-- What may follow in brackets. -/
def expected (segments : Segments) : List TokenKind :=
  match segments.current with
  | none => afterColon
  | some _ => afterNumber

theorem bounds_colon {complete : List (Option Int64)} (current : Option Int64)
    (few : complete.length < 2) :
    bounds ⟨complete ++ [current], none⟩ = bounds ⟨complete, current⟩ := by
  have more : 2 - complete.length = 2 - (complete.length + 1) + 1 := by omega
  simp only [bounds, List.length_append, List.length_singleton, more, List.replicate_succ,
    List.append_assoc, List.singleton_append]

theorem bounds_number {complete : List (Option Int64)} (current : Option Int64) (n : Int64) :
    (bounds ⟨complete, current⟩).set complete.length (some n) = bounds ⟨complete, some n⟩ := by
  simp only [bounds, List.set_append_right, Nat.le_refl, Nat.sub_self, List.set_cons_zero]

end Grammar.Segments

namespace Descent

open Grammar Outcome

/-! ## Reading on -/

/-- The outcome of reading from a state on. -/
def finish (lenient : Bool) (state : State) (c : Cursor) : Outcome Query :=
  .ofResult (run lenient state c.text c.token c.rest)

/-- The outcome of reading on behind a query that has been read. -/
def goOn (lenient : Bool) (context : Context) (found : Found) : Outcome Query :=
  finish lenient ⟨.operator found.1, context⟩ found.2

variable {lenient : Bool} {state state' next : State} {context : Context} {c : Cursor}
  {lexeme : Lexeme}

theorem kind_eq (found : c.token.lexeme = lexeme) : c.kind = lexeme.kind :=
  congrArg Lexeme.kind found

theorem kind_eq_ne_eof (found : c.token.lexeme = lexeme) (more : lexeme ≠ .eof) :
    c.kind ≠ .eof :=
  fun last => more (found ▸ Lexeme.eq_of_kind last rfl)

theorem finish_of_reject {rejection : Rejection} (found : c.token.lexeme = lexeme)
    (rejected : state.step lenient lexeme = .error rejection) :
    finish lenient state c = .failure (rejection.toError c) := by
  obtain ⟨text, token, rest⟩ := c
  subst found
  cases rest with
  | nil => simp only [finish, run, rejected, ofResult]
  | cons following rest => simp only [finish, run, rejected, ofResult]

theorem finish_of_complaint {complaint : Complaint} (found : c.token.lexeme = lexeme)
    (rejected : state.step lenient lexeme = reject complaint) :
    finish lenient state c = .failure (c.error complaint) :=
  finish_of_reject found rejected

theorem finish_of_accept (ended : c.Ended) (found : c.token.lexeme = lexeme) (more : lexeme ≠ .eof)
    (accepted : state.step lenient lexeme = .ok next) :
    finish lenient state c = finish lenient next c.advance := by
  obtain ⟨text, token, rest⟩ := c
  subst found
  cases rest with
  | nil => exact absurd (Lexeme.eq_of_kind ended rfl) more
  | cons following rest => simp only [finish, run, accepted, Cursor.advance]

/-- States that read the current token alike read everything alike. -/
theorem finish_congr (found : c.token.lexeme = lexeme)
    (same : state.step lenient lexeme = state'.step lenient lexeme) :
    finish lenient state c = finish lenient state' c := by
  obtain ⟨text, token, rest⟩ := c
  subst found
  cases rest with
  | nil => simp only [finish, run, same]
  | cons following rest => simp only [finish, run, same]

/-- A token that binds no stronger than an operator completes its right-hand side. -/
theorem goOn_push {p : Pending} (weak : c.token.lexeme.power ≤ p.power) (q : Query) :
    goOn lenient (context.push p) (q, c) = goOn lenient context (p.complete q, c) := by
  refine finish_congr rfl ?_
  simp only [State.step, stepOperator, Context.push, settle, Nat.not_lt.mpr weak, if_false]

/-- Operators of less power wait on. -/
theorem stepOperator_strong (strong : 0 < lexeme.power)
    (weak : ∀ p ∈ context.pending.head?, p.power < lexeme.power) (left : Query) :
    stepOperator lenient context left lexeme = stepInfix context left lexeme := by
  obtain ⟨pending, levels⟩ := context
  have settled : settle lexeme.power pending left = (pending, left) := by
    cases pending with
    | nil => rfl
    | cons p ps => simp only [settle, weak p rfl, if_true]
  simp only [stepOperator, Nat.ne_of_gt strong, if_false, settled]

/-- Inside a bracket, a token without power meets the bracket. -/
theorem step_enter (lenient : Bool) (context : Context) (bracket : Bracket) (q : Query)
    (powerless : lexeme.power ≤ 0) :
    State.step lenient ⟨.operator q, context.enter bracket⟩ lexeme =
      stepBracket lenient (⟨bracket, context.pending⟩ :: context.levels) q lexeme :=
  stepOperator_powerless _ _ (Nat.le_zero.mp powerless)

/-- What no key can be is rejected where a key follows. -/
theorem step_key {entries : List (String × Query)} (other : lexeme.kind ∉ hashKeys) :
    State.step lenient ⟨.key entries, context⟩ lexeme =
      reject (.expectedOneOf hashKeys lexeme.kind) := by
  cases lexeme with
  | identifier name => exact absurd (.head _) other
  | quotedIdentifier name => exact absurd (.tail _ (.head _)) other
  | _ => rfl

theorem step_key_of_mem {entries : List (String × Query)} (listed : lexeme.kind ∈ hashKeys) :
    State.step lenient ⟨.key entries, context⟩ lexeme =
      .ok ⟨.colon entries lexeme.text, context⟩ := by
  cases lexeme with
  | identifier name => rfl
  | quotedIdentifier name => rfl
  | _ => simp [hashKeys, Lexeme.kind] at listed

theorem step_colon {entries : List (String × Query)} {key : String}
    (other : lexeme.kind ∉ [.colon]) :
    State.step lenient ⟨.colon entries key, context⟩ lexeme =
      reject (.expectedOneOf [.colon] lexeme.kind) := by
  cases lexeme with
  | colon => exact absurd (.head _) other
  | _ => rfl

theorem step_dot {owner : Pending} (other : lexeme.kind ∉ afterDot) :
    State.step lenient ⟨.dot owner, context⟩ lexeme =
      reject (.expectedOneOf afterDot lexeme.kind) :=
  if_neg other

theorem step_subscript {left : Query} (other : lexeme.kind ∉ afterSubscript) :
    State.step lenient ⟨.subscript left, context⟩ lexeme =
      reject (.expectedOneOf afterSubscript lexeme.kind) := by
  cases lexeme with
  | number n => exact absurd (.head _) other
  | colon => exact absurd (.tail _ (.head _)) other
  | star => exact absurd (.tail _ (.tail _ (.head _))) other
  | _ => rfl

theorem step_subscriptStar {left : Query} (other : lexeme.kind ∉ [.rbracket]) :
    State.step lenient ⟨.subscriptStar left, context⟩ lexeme =
      reject (.expectedOneOf [.rbracket] lexeme.kind) := by
  cases lexeme with
  | rbracket => exact absurd (.head _) other
  | _ => rfl

/-! ## The states of calls -/

/-- A colon, or a number where none has been read, behind at most two colons. -/
def Continues (segments : Segments) (lexeme : Lexeme) : Prop :=
  segments.complete.length ≤ 2 ∧
    (lexeme = .colon ∨ segments.current = none ∧ ∃ n, lexeme = .number n)

/-- The state in which a call is made at a cursor, and how its answer becomes the query to read on
behind in some context. -/
inductive Stands : Call → Cursor → State → (Query → Query) → Context → Prop
  | expression {power : Nat} {context : Context} {c : Cursor}
      (weak : ∀ p ∈ context.pending.head?, p.power ≤ power) :
      Stands (.expression power) c ⟨.operand, context⟩ id context
  | operand {context : Context} {c : Cursor} : Stands .operand c ⟨.operand, context⟩ id context
  | operators {power : Nat} {left : Query} {context : Context} {c : Cursor}
      (weak : ∀ p ∈ context.pending.head?, p.power ≤ power) :
      Stands (.operators power left) c ⟨.operator left, context⟩ id context
  | operator {left : Query} {context : Context} {c : Cursor}
      (strong : 0 < c.token.lexeme.power)
      (weak : ∀ p ∈ context.pending.head?, p.power < c.token.lexeme.power) :
      Stands (.operator left) c ⟨.operator left, context⟩ id context
  | projection (source : Source) {context : Context} {c : Cursor} :
      Stands (.projection source.power) c ⟨.body source, context⟩ source.project context
  | arguments {function : String} {args : List Query} {context : Context} {c : Cursor} :
      Stands (.loop (.arguments function args)) c ⟨.argument function args, context⟩ id context
  | items {items : List Query} {owner : Option Pending} {context : Context} {c : Cursor} :
      Stands (.loop (.items items)) c ⟨.operand, context.enter (.list items owner)⟩
        (fun q => owner.elim q (·.complete q)) context
  | members {entries : List (String × Query)} {context : Context} {c : Cursor}
      (key : c.kind ∈ hashKeys) :
      Stands (.loop (.members entries)) c ⟨.key entries, context⟩ id context
  | segments {left : Option Query} {segments : Segments} {context : Context} {c : Cursor}
      (continues : Continues segments c.token.lexeme) :
      Stands (.loop (.segments segments.bounds segments.complete.length)) c
        ⟨.segments left segments, context⟩ (fun q => left.elim q (.chain · q)) context

/-- Nothing waits where a bracket has just been opened. -/
theorem Stands.opened (none : context.pending = []) :
    Stands (.expression 0) c ⟨.operand, context⟩ id context := by
  refine .expression fun p first => ?_
  rw [none] at first
  cases first

/-- A call settles, and does what the state says in which it is made. -/
structure Follows (lenient : Bool) (recur : Call → Cursor → Outcome Found) (call : Call)
    (c : Cursor) : Prop where
  settles : Settle recur recur call c
  agrees : ∀ {state : State} {build : Query → Query} {context : Context},
    Stands call c state build context →
      finish lenient state c =
        recur call c >>= fun found => goOn lenient context (build found.1, found.2)

/-- The first number or colon inside brackets. -/
theorem step_subscript_opens (listed : lexeme.kind ∈ afterSubscript) (other : lexeme.kind ≠ .star)
    (lenient : Bool) (left : Query) (context : Context) :
    Continues ⟨[], none⟩ lexeme ∧
      State.step lenient ⟨.subscript left, context⟩ lexeme =
        State.step lenient ⟨.segments (some left) ⟨[], none⟩, context⟩ lexeme := by
  cases lexeme with
  | number n => exact ⟨⟨Nat.zero_le _, .inr ⟨rfl, n, rfl⟩⟩, rfl⟩
  | colon => exact ⟨⟨Nat.zero_le _, .inl rfl⟩, rfl⟩
  | star => exact absurd rfl other
  | _ => simp [afterSubscript, Lexeme.kind] at listed

theorem step_segments {left : Option Query} {segments : Segments}
    (other : lexeme.kind ∉ segments.expected) :
    State.step lenient ⟨.segments left segments, context⟩ lexeme =
      reject (.expectedOneOf segments.expected lexeme.kind) := by
  obtain ⟨complete, current⟩ := segments
  cases current with
  | none =>
      cases lexeme with
      | number n => exact absurd (.head _) other
      | colon => exact absurd (.tail _ (.head _)) other
      | rbracket => exact absurd (.tail _ (.tail _ (.head _))) other
      | _ => rfl
  | some n =>
      cases lexeme with
      | colon => exact absurd (.head _) other
      | rbracket => exact absurd (.tail _ (.head _)) other
      | _ => rfl

theorem continues_of_mem {segments : Segments} (listed : lexeme.kind ∈ segments.expected)
    (other : lexeme.kind ≠ .rbracket) :
    lexeme = .colon ∨ segments.current = none ∧ ∃ n, lexeme = .number n := by
  obtain ⟨complete, current⟩ := segments
  cases lexeme with
  | colon => exact .inl rfl
  | number n =>
      cases current with
      | none => exact .inr ⟨rfl, n, rfl⟩
      | some _ => simp [Segments.expected, afterNumber, Lexeme.kind] at listed
  | rbracket => exact absurd rfl other
  | _ => cases current <;> simp [Segments.expected, afterColon, afterNumber, Lexeme.kind] at listed

variable {recur : Call → Cursor → Outcome Found}

/-- How reading goes on behind a turn of a loop: with the next turn, or behind the loop. -/
structure Resumes (lenient : Bool) (base : Cursor) (resume : Turn → Outcome Query)
    (build : Query → Query) (context : Context) : Prop where
  leave : ∀ {c : Cursor} (q : Query), base.Passes c →
    resume (.leave q c) = goOn lenient context (build q, c)
  again : ∀ {c : Cursor} {loop : Loop} {state : State}, base.Passes c →
    Stands (.loop loop) c state build context → resume (.again loop c) = finish lenient state c

/-- A call, and what is done with its answer. -/
theorem Follows.bind {call : Call} {build : Query → Query} {f : Found → Outcome Query}
    (follows : Follows lenient recur call c) (stands : Stands call c state build context)
    (next : ∀ q c', call.Leaves c c' → goOn lenient context (build q, c') = f (q, c')) :
    finish lenient state c = recur call c >>= f := by
  rw [follows.agrees stands]
  have settles := follows.settles
  rw [Settle] at settles
  cases outcome : recur call c with
  | answer found =>
      rw [outcome] at settles
      exact next found.1 found.2 settles.holds
  | failure e => rfl
  | aborted => rfl
  | unsettled => exact absurd outcome settles.ne_unsettled

/-- Moving to the next token, and what is done there. -/
theorem finish_advanceTo {kinds : List TokenKind} {f : Cursor → Outcome Query} (ended : c.Ended)
    (found : c.token.lexeme = lexeme) (more : lexeme ≠ .eof)
    (accepted : state.step lenient lexeme = .ok next)
    (rejected : c.advance.kind ∉ kinds →
      next.step lenient c.advance.token.lexeme = reject (.expectedOneOf kinds c.advance.kind))
    (go : c.advance.kind ∈ kinds → finish lenient next c.advance = f c.advance) :
    finish lenient state c = advanceTo kinds c >>= f := by
  rw [finish_of_accept ended found more accepted]
  simp only [advanceTo, Cursor.expect]
  by_cases listed : c.advance.kind ∈ kinds
  · simp only [listed, if_true]
    exact go listed
  · simp only [listed, if_false]
    exact finish_of_complaint rfl (rejected listed)

end Descent

end JsonQuery
