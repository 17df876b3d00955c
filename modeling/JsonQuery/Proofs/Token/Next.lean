import JsonQuery.Proofs.Token.Cursor
import JsonQuery.Proofs.Token.Lexemes

/-!
# One token after the other

Scanning takes one token after the other off the text.  Each of them takes characters with it until
the text is used up, and the only token there is the one that marks the end.
-/

set_option autoImplicit false

namespace JsonQuery.Token

/-- What is left of a text, and how many characters stood before it. -/
structure Remaining where
  position : Nat
  text : List Char

/-- The next token, and what is left behind it. -/
def next (position : Nat) : List Char → Token × Remaining
  | [] => (⟨.eof, position⟩, ⟨position, []⟩)
  | c :: rest =>
      if Lexeme.isBlank c then next (position + 1) rest
      else
        let n := Lexeme.extent c rest
        (⟨Lexeme.ofSpelling c (rest.take n), position⟩, ⟨position + 1 + n, rest.drop n⟩)

/-- Characters are consumed from the start of the text, and none only if there are none. -/
theorem next_consumes (position : Nat) (text : List Char) :
    ∃ consumed, text = consumed ++ (next position text).2.text ∧
      (next position text).2.position = position + consumed.length ∧
      (text ≠ [] → consumed ≠ []) := by
  fun_induction next position text with
  | case1 position => exact ⟨[], rfl, rfl, id⟩
  | case2 position c rest _ ih =>
      obtain ⟨consumed, same, place, -⟩ := ih
      refine ⟨c :: consumed, congrArg (c :: ·) same, ?_, fun _ => List.cons_ne_nil _ _⟩
      rw [place, List.length_cons]
      omega
  | case3 position c rest _ n =>
      have within : n ≤ rest.length := Lexeme.extent_le c rest
      refine ⟨c :: rest.take n, congrArg (c :: ·) (List.take_append_drop n rest).symm, ?_,
        fun _ => List.cons_ne_nil _ _⟩
      rw [List.length_cons, List.length_take, Nat.min_eq_left within]
      exact Nat.add_right_comm position 1 n

theorem scan_eq_next (position : Nat) (text : List Char) :
    scan position text = (next position text).1 ::
      if (next position text).1.kind = .eof then []
      else scan (next position text).2.position (next position text).2.text := by
  fun_induction next position text with
  | case1 position =>
      rw [scan]
      rfl
  | case2 position c rest blank ih => rw [scan, if_pos blank, ih]
  | case3 position c rest mark n =>
      have more : (Lexeme.ofSpelling c (rest.take n)).kind ≠ .eof := fun last =>
        (Lexeme.ofSpelling_spelled c (rest.take n)).1 (Lexeme.eq_of_kind last rfl)
      rw [scan, if_neg mark]
      exact congrArg _ (if_neg more).symm

end JsonQuery.Token
