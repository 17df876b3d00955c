import JsonQuery.Proofs.Token.Delimited
import JsonQuery.Proofs.Token.Scan

/-!
# Lexemes of a text

The lexemes of a text, without positions and without the mark of its end.  Scanning is local: when
all lexemes of a text are known, they do not depend on what follows, as long as the next character
cannot become a part of the last one.
-/

set_option autoImplicit false

namespace JsonQuery

namespace Token

/-- Lexemes do not depend on where a text starts. -/
theorem map_lexeme_scan (position position' : Nat) (text : List Char) :
    (scan position text).map Token.lexeme = (scan position' text).map Token.lexeme := by
  fun_induction scan position text generalizing position' with
  | case1 position => simp only [scan, List.map_cons]
  | case2 position c rest blank ih =>
      rw [scan, if_pos blank]
      exact ih (position' + 1)
  | case3 position c rest notBlank n ih =>
      rw [scan, if_neg notBlank]
      simp only [List.map_cons]
      rw [ih]

end Token

/-- The lexemes of a text without the mark of its end. -/
def lexemes (text : List Char) : List Lexeme :=
  ((Token.scan 0 text).map Token.lexeme).dropLast

namespace Lexeme

theorem scan_eq (position : Nat) (text : List Char) :
    (Token.scan position text).map Token.lexeme = lexemes text ++ [.eof] := by
  obtain ⟨stop, last⟩ := Token.scan_getLast? 0 text
  have marked : ((Token.scan 0 text).map Token.lexeme).getLast? = some .eof := by
    rw [List.getLast?_map, last]
    rfl
  rw [Token.map_lexeme_scan position 0, lexemes]
  exact (List.dropLast_append_getLast? _ marked).symm

theorem lexemes_nil : lexemes [] = [] := by
  rw [lexemes, Token.scan]
  rfl

variable {c : Char} {rest : List Char}

theorem lexemes_blank (blank : isBlank c = true) : lexemes (c :: rest) = lexemes rest := by
  have scanned := scan_eq 0 (c :: rest)
  rw [Token.scan, if_pos blank, scan_eq] at scanned
  exact (List.append_cancel_right scanned).symm

theorem lexemes_cons (notBlank : isBlank c = false) :
    lexemes (c :: rest) =
      ofSpelling c (rest.take (extent c rest)) :: lexemes (rest.drop (extent c rest)) := by
  have scanned := scan_eq 0 (c :: rest)
  rw [Token.scan, if_neg (Bool.eq_false_iff.mp notBlank), List.map_cons, scan_eq] at scanned
  exact (List.append_cancel_right scanned).symm

/-- A character that alone is a lexeme, whatever follows. -/
theorem lexemes_single (notBlank : isBlank c = false) (alone : extent c rest = 0) :
    lexemes (c :: rest) = ofSpelling c [] :: lexemes rest := by
  rw [lexemes_cons notBlank, alone, List.take_zero, List.drop_zero]

/-- The characters that are lexemes of their own and start no other. -/
def marks : List Char :=
  ['.', '*', ',', ':', '(', ')', '\x7b', '\x7d', ']', '@']

theorem mark_visible (mark : c ∈ marks) : isBlank c = false := by
  simp only [marks, List.mem_cons, List.not_mem_nil, or_false] at mark
  rcases mark with rfl | rfl | rfl | rfl | rfl | rfl | rfl | rfl | rfl | rfl <;> rfl

theorem lexemes_mark (mark : c ∈ marks) (rest : List Char) :
    lexemes (c :: rest) = ofSpelling c [] :: lexemes rest := by
  have alone : extent c rest = 0 := by
    simp only [marks, List.mem_cons, List.not_mem_nil, or_false] at mark
    rcases mark with rfl | rfl | rfl | rfl | rfl | rfl | rfl | rfl | rfl | rfl <;>
      cases rest <;> rfl
  exact lexemes_single (mark_visible mark) alone

theorem eof_not_mem_lexemes (text : List Char) : .eof ∉ lexemes text := by
  have start : Nat := 0
  fun_induction Token.scan start text with
  | case1 => simp only [lexemes_nil, List.not_mem_nil, not_false_eq_true]
  | case2 _ c rest blank ih => rwa [lexemes_blank blank]
  | case3 _ c rest notBlank _ ih =>
      rw [lexemes_cons (Bool.eq_false_iff.mpr notBlank), List.mem_cons, not_or]
      exact ⟨(ofSpelling_spelled c _).1.symm, ih⟩

/-! ## Separate characters -/

/-- The character is no part of a name or number and ends no pair. -/
def isSeparate (c : Char) : Bool :=
  !continuesName c && !Numeral.isDigit c && !(['=', '|', '&', ']', '?'].contains c)

theorem continuesName_eq_false {c : Char} (separate : isSeparate c = true) :
    continuesName c = false := by
  simp only [isSeparate, Bool.and_eq_true, Bool.not_eq_true'] at separate
  exact separate.1.1

theorem isDigit_eq_false {c : Char} (separate : isSeparate c = true) :
    Numeral.isDigit c = false := by
  simp only [isSeparate, Bool.and_eq_true, Bool.not_eq_true'] at separate
  exact separate.1.2

theorem isPair_eq_false (first : Char) {second : Char} (separate : isSeparate second = true) :
    isPair first second = false := by
  simp only [isSeparate, Bool.and_eq_true, Bool.not_eq_true', List.contains_eq_mem,
    decide_eq_false_iff_not, List.mem_cons, not_or] at separate
  simp only [isPair]
  split <;> simp [separate]

/-- No lexeme reaches from the left into the text. -/
def StartsSeparate (text : List Char) : Prop :=
  ∀ c ∈ text.head?, isSeparate c = true

theorem takeWhile_append (accepts : Char → Bool) (rest : List Char) {tail : List Char}
    (stops : ∀ c ∈ tail.head?, accepts c = false) :
    (rest ++ tail).takeWhile accepts = rest.takeWhile accepts := by
  induction rest with
  | nil =>
      cases tail with
      | nil => rfl
      | cons c _ => exact List.takeWhile_cons_of_neg (Bool.eq_false_iff.mp (stops c rfl))
  | cons c rest ih => simp only [List.cons_append, List.takeWhile_cons, ih]

theorem extent_le (first : Char) (rest : List Char) : extent first rest ≤ rest.length := by
  simp only [extent]
  split
  · exact (List.takeWhile_sublist _).length_le
  · split
    · exact (List.takeWhile_sublist _).length_le
    · split
      · split
        · rename_i body after found
          obtain ⟨-, rfl⟩ := Text.enclosed_of_delimited? found
          rw [List.length_append, List.length_cons]
          omega
        · exact Nat.le_refl _
      · split
        · split
          · simp only [List.length_cons]
            omega
          · exact Nat.zero_le _
        · exact Nat.zero_le _

/-- The text is no part of a name or number, and forms no pair with the lexeme before it. -/
structure Ends (last : Option Lexeme) (tail : List Char) : Prop where
  name : ∀ c ∈ tail.head?, continuesName c = false
  number : ∀ c ∈ tail.head?, Numeral.isDigit c = false
  pair : ∀ c ∈ tail.head?, ∀ first, last = some (ofSpelling first []) → isPair first c = false

theorem StartsSeparate.ends {tail : List Char} (separate : StartsSeparate tail)
    (last : Option Lexeme) : Ends last tail := by
  refine ⟨fun c head => ?_, fun c head => ?_, fun c head first _ => ?_⟩
  · exact continuesName_eq_false (separate c head)
  · exact isDigit_eq_false (separate c head)
  · exact isPair_eq_false first (separate c head)

/-- A closing bracket pairs with an opening one only. -/
theorem ends_rbracket {last : Option Lexeme} (open_ : last ≠ some .lbracket) (tail : List Char) :
    Ends last (']' :: tail) := by
  refine ⟨?_, ?_, ?_⟩
  · rintro _ ⟨⟩
    decide
  · rintro _ ⟨⟩
    decide
  · rintro _ ⟨⟩ first same
    by_cases bracket : first = '['
    · subst bracket
      exact absurd same open_
    · simp only [isPair]
      split <;> first | exact absurd rfl bracket | rfl

theorem extent_unclosed {first : Char} (noName : ¬startsName first = true)
    (noNumber : ¬startsNumber first = true) (quote : isQuote first = true)
    {rest : List Char} (open_ : Text.delimited? first rest = none) :
    extent first rest = rest.length := by
  simp only [extent, if_neg noName, if_neg noNumber, if_pos quote, open_]

theorem ofSpelling_unclosed {first : Char} (noName : ¬startsName first = true)
    (noNumber : ¬startsNumber first = true) (quote : isQuote first = true)
    {rest : List Char} (open_ : Text.delimited? first rest = none) :
    ofSpelling first (rest.take (extent first rest)) =
      .unknown (String.ofList (first :: rest)) := by
  rw [extent_unclosed noName noNumber quote open_, List.take_length]
  simp only [ofSpelling, ofSpelling?, if_neg noName, if_neg noNumber, if_pos quote, open_,
    Option.getD_none]

/-- Text that ends a known lexeme does not extend it. -/
theorem extent_append (first : Char) (rest : List Char) {tail : List Char}
    {last : Option Lexeme} (ends : Ends last tail)
    (alone : rest = [] → last = some (ofSpelling first []))
    (known : ∀ text, ofSpelling first (rest.take (extent first rest)) ≠ .unknown text) :
    extent first (rest ++ tail) = extent first rest := by
  simp only [extent]
  split
  · rw [takeWhile_append _ _ ends.name]
  · rename_i notName
    split
    · rw [takeWhile_append _ _ ends.number]
    · rename_i notNumber
      split
      · rename_i quote
        cases found : Text.delimited? first rest with
        | some both => simp only [Text.delimited?_append found]
        | none =>
            -- without its closing mark, quoted text is unknown
            exact absurd (ofSpelling_unclosed notName notNumber quote found) (known _)
      · cases rest with
        | cons second _ => rfl
        | nil =>
            cases tail with
            | nil => rfl
            | cons second _ =>
                simp only [List.nil_append, ends.pair second rfl first (alone rfl)]
                rfl

/-- Behind a text that is ended by what follows it, scanning starts anew. -/
theorem scan_append_of_ends {text tail : List Char}
    (known : ∀ unread, .unknown unread ∉ lexemes text)
    (ends : Ends (lexemes text).getLast? tail) (start : Nat) :
    Token.scan start (text ++ tail) =
      (Token.scan start text).dropLast ++ Token.scan (start + text.length) tail := by
  fun_induction Token.scan start text with
  | case1 start => simp
  | case2 start c rest blank ih =>
      rw [lexemes_blank blank] at known ends
      rw [List.cons_append, Token.scan, if_pos blank, ih known ends, List.length_cons,
        Nat.add_assoc, Nat.add_comm 1]
  | case3 start c rest notBlank n ih =>
      have visible := Bool.eq_false_iff.mpr notBlank
      rw [lexemes_cons visible] at known ends
      have first : ∀ unread, ofSpelling c (rest.take (extent c rest)) ≠ .unknown unread := by
        intro unread same
        exact known unread (same ▸ List.mem_cons_self)
      have alone : rest = [] → (ofSpelling c (rest.take (extent c rest)) ::
          lexemes (rest.drop (extent c rest))).getLast? = some (ofSpelling c []) := by
        rintro rfl
        rw [List.take_nil, List.drop_nil, lexemes_nil]
        rfl
      have behind : Ends (lexemes (rest.drop (extent c rest))).getLast? tail := by
        refine ⟨ends.name, ends.number, fun d head first same => ends.pair d head first ?_⟩
        rw [List.getLast?_cons, same, Option.getD_some]
      have others := ih (fun unread found => known unread (List.mem_cons_of_mem _ found)) behind
      have within := extent_le c rest
      have stop : start + 1 + extent c rest + (rest.drop (extent c rest)).length =
          start + (c :: rest).length := by
        rw [List.length_drop, List.length_cons]
        omega
      rw [List.cons_append, Token.scan, if_neg notBlank]
      simp only [extent_append c rest ends alone first]
      rw [List.take_append_of_le_length within, List.drop_append_of_le_length within, others, stop,
        List.dropLast_cons_of_ne_nil (Token.scan_ne_nil _ _), List.cons_append]

/-- The lexemes of a text do not depend on what ends it. -/
theorem lexemes_append_of_ends {text tail : List Char}
    (known : ∀ unread, .unknown unread ∉ lexemes text)
    (ends : Ends (lexemes text).getLast? tail) :
    lexemes (text ++ tail) = lexemes text ++ lexemes tail := by
  have scanned := congrArg (List.map Token.lexeme) (scan_append_of_ends known ends 0)
  rw [scan_eq, List.map_append, List.map_dropLast, ← lexemes, scan_eq, ← List.append_assoc]
    at scanned
  exact List.append_cancel_right scanned

/-- The lexemes of a text do not depend on what follows it. -/
theorem lexemes_append {text tail : List Char} (known : ∀ unread, .unknown unread ∉ lexemes text)
    (separate : StartsSeparate tail) :
    lexemes (text ++ tail) = lexemes text ++ lexemes tail :=
  lexemes_append_of_ends known (separate.ends _)

theorem lexemes_append_rbracket {text : List Char}
    (known : ∀ unread, .unknown unread ∉ lexemes text)
    (open_ : (lexemes text).getLast? ≠ some .lbracket) (tail : List Char) :
    lexemes (text ++ ']' :: tail) = lexemes text ++ .rbracket :: lexemes tail := by
  have closes : lexemes (']' :: tail) = .rbracket :: lexemes tail := lexemes_mark (by decide) tail
  rw [lexemes_append_of_ends known (ends_rbracket open_ tail), closes]

end Lexeme

end JsonQuery
