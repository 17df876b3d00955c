import JsonQuery.Proofs.Grammar.Agreement
import JsonQuery.Proofs.Token.Next

/-!
# Reading terminates

Scanning goes on with the characters behind a token, and calls go on with the tokens behind their
cursor or in a fixed order.  At the last token nothing goes on, so both phases end on every text.
-/

set_option autoImplicit false

namespace JsonQuery

namespace Descent

/-- What reading from a cursor does, however the tokens go on. -/
structure Terminates (lenient : Bool) (c : Cursor) : Prop where
  /-- A call is not cut off at the depth that the tokens allow, nor at any greater one. -/
  settles : ∀ (call : Call) (depth : Nat), call.depth c ≤ depth →
    descend lenient depth call c = read lenient call c ∧ read lenient call c ≠ .unsettled
  /-- A call does what its procedure says, with calls that do so too. -/
  recursive : ∀ call, read lenient call c = perform lenient (read lenient) call c
  operand_passes : ∀ q c', read lenient .operand c = .answer (q, c') → c.Passes c'
  operator_passes : ∀ left q c', read lenient (.operator left) c = .answer (q, c') → c.Passes c'
  expression_passes : ∀ power q c',
    read lenient (.expression power) c = .answer (q, c') → c.Passes c'
  /-- A turn of a loop moves the cursor on or fails. -/
  turn_passes : ∀ loop turned,
    turn lenient (read lenient) loop c = .answer turned → turned.Behind c
  /-- At the last token every call fails, or stops there. -/
  stops : c.kind = .eof → ∀ call : Call, call.AnswersAtEnd c (read lenient call c)

theorem Call.Leaves.of_read {lenient : Bool} {call : Call} {c c' : Cursor} {q : Query}
    (ended : c.Ended) (answered : read lenient call c = .answer (q, c')) : call.Leaves c c' := by
  have settles : Settle (read lenient) (read lenient) call c := read_settles ended
  rw [Settle, answered] at settles
  exact settles.holds

theorem terminates (lenient : Bool) {c : Cursor} (ended : c.Ended) : Terminates lenient c where
  settles call depth enough :=
    ⟨descend_eq_read ended enough, (read_settles ended).ne_unsettled⟩
  recursive call := read_eq_perform ended
  operand_passes q c' answered := Call.Leaves.of_read ended answered
  operator_passes left q c' answered := Call.Leaves.of_read ended answered
  expression_passes power q c' answered := (Call.Leaves.of_read ended answered).1
  turn_passes loop turned answered := by
    have alike := read_turn ended lenient loop
    rw [answered] at alike
    exact alike.holds
  stops last call := read_at_end ended call last

end Descent

open Descent Outcome

/-- Scanning consumes characters with every token before the end, and is the repetition of that.
Parsing is done by procedures that call each other with a cursor on the tokens; where the last of
these marks the end, every call settles, moves on when it reads something, and does not go on at the
end. -/
theorem reading_terminates (lenient : Bool) :
    (∀ position text,
      (∃ consumed, text = consumed ++ (Token.next position text).2.text ∧
        (text ≠ [] → consumed ≠ [])) ∧
      Token.scan position text = (Token.next position text).1 ::
        if (Token.next position text).1.kind = .eof then []
        else Token.scan (Token.next position text).2.position (Token.next position text).2.text) ∧
      (∀ text, (Cursor.ofTokens text (tokenize text)).Ended ∧
        ofResult ((Parser.mk lenient).parse text) = readText lenient text) ∧
      ∀ c : Cursor, c.Ended → Terminates lenient c := by
  refine ⟨fun position text => ⟨?_, Token.scan_eq_next position text⟩, fun text => ⟨?_, ?_⟩, ?_⟩
  · obtain ⟨consumed, same, -, filled⟩ := Token.next_consumes position text
    exact ⟨consumed, same, filled⟩
  · exact Cursor.ended_ofTokens text
  · exact parse_eq_readText ⟨lenient⟩ text
  · intro c ended
    exact terminates lenient ended

theorem reading_terminates_unclosed :
    (∃ consumed, [' ', 'a'] = consumed ++ (Token.next 0 [' ', 'a']).2.text ∧ consumed ≠ []) ∧
      readText false "f([a" = .failure (.malformed (.badListEnd .eof) "f([a" 4) ∧
      Terminates false (Cursor.ofTokens "f([a" (tokenize "f([a")) ∧
      ∃ complaint, read false (.loop (.arguments "f" [])) ⟨"f(", ⟨.eof, 2⟩, []⟩ =
        .failure (.malformed complaint "f(" 2) := by
  have failed : (Parser.mk false).parse "f([a" =
      .error (.malformed (.badListEnd .eof) "f([a" 4) := by cbv
  obtain ⟨scans, reads, terminates⟩ := reading_terminates false
  refine ⟨?_, ?_, terminates _ (reads "f([a").1, ?_⟩
  · obtain ⟨⟨consumed, same, filled⟩, -⟩ := scans 0 [' ', 'a']
    exact ⟨consumed, same, filled (List.cons_ne_nil _ _)⟩
  · rw [← (reads "f([a").2, failed]
    rfl
  · exact (terminates ⟨"f(", ⟨.eof, 2⟩, []⟩ rfl).stops rfl (.loop (.arguments "f" []))

end JsonQuery
