import JsonQuery.Grammar.Parse
import JsonQuery.Proofs.Json.Document

/-!
# Tokens of a text

Scanning ends with one token that marks the end of the text, so an expression is read by stepping
through exactly the scanned tokens.  Literals stand for documents.
-/

set_option autoImplicit false

namespace JsonQuery

namespace Lexeme

/-- What text can spell: not the mark of its end, and literals only for documents. -/
def Spelled (lexeme : Lexeme) : Prop :=
  lexeme ≠ .eof ∧ ∀ v, lexeme = .literal v → v.isDocument = true

variable {lexeme : Lexeme}

theorem ofQuoted?_spelled {mark : Char} {body : List Char}
    (read : ofQuoted? mark body = some lexeme) : lexeme.Spelled := by
  simp only [ofQuoted?] at read
  split at read
  · cases read
    refine ⟨nofun, ?_⟩
    rintro _ ⟨⟩
    rfl
  · split at read
    · obtain ⟨name, -, rfl⟩ := Option.map_eq_some_iff.mp read
      exact ⟨nofun, nofun⟩
    · obtain ⟨v, decoded, rfl⟩ := Option.map_eq_some_iff.mp read
      refine ⟨nofun, ?_⟩
      rintro _ ⟨⟩
      exact Value.isDocument_of_decode? decoded

theorem ofPunctuation?_spelled {spelling : List Char}
    (read : ofPunctuation? spelling = some lexeme) : lexeme.Spelled := by
  simp only [ofPunctuation?] at read
  split at read <;> cases read <;> exact ⟨nofun, nofun⟩

theorem ofSpelling?_spelled {first : Char} {rest : List Char}
    (read : ofSpelling? first rest = some lexeme) : lexeme.Spelled := by
  simp only [ofSpelling?] at read
  split at read
  · cases read
    exact ⟨nofun, nofun⟩
  · split at read
    · obtain ⟨n, -, rfl⟩ := Option.map_eq_some_iff.mp read
      exact ⟨nofun, nofun⟩
    · split at read
      · split at read
        · exact ofQuoted?_spelled read
        · cases read
      · exact ofPunctuation?_spelled read

theorem ofSpelling_spelled (first : Char) (rest : List Char) :
    (ofSpelling first rest).Spelled := by
  simp only [ofSpelling]
  cases read : ofSpelling? first rest with
  | none => exact ⟨nofun, nofun⟩
  | some lexeme => exact ofSpelling?_spelled read

end Lexeme

namespace Token

/-- The literals among the tokens stand for documents. -/
def Documents (tokens : List Token) : Prop :=
  ∀ token ∈ tokens, ∀ v, token.lexeme = .literal v → v.isDocument = true

theorem scan_documents (position : Nat) (text : List Char) : Documents (scan position text) := by
  fun_induction scan position text with
  | case1 position =>
      intro token found v literal
      obtain rfl := List.mem_singleton.mp found
      cases literal
  | case2 position c rest _ ih => exact ih
  | case3 position c rest _ n ih =>
      intro token found v literal
      obtain rfl | found := List.mem_cons.mp found
      · exact (Lexeme.ofSpelling_spelled c _).2 v literal
      · exact ih token found v literal

theorem scan_getLast? (position : Nat) (text : List Char) :
    ∃ stop, (scan position text).getLast? = some ⟨.eof, stop⟩ := by
  fun_induction scan position text with
  | case1 position => exact ⟨position, rfl⟩
  | case2 position c rest _ ih => exact ih
  | case3 position c rest _ n ih =>
      obtain ⟨stop, last⟩ := ih
      exact ⟨stop, by rw [List.getLast?_cons, last, Option.getD_some]⟩

theorem scan_ne_nil (position : Nat) (text : List Char) : scan position text ≠ [] := by
  intro empty
  obtain ⟨stop, last⟩ := scan_getLast? position text
  rw [empty] at last
  cases last

end Token

theorem tokenize_eq_cons (text : String) : ∃ token rest, tokenize text = token :: rest :=
  List.exists_cons_of_ne_nil (Token.scan_ne_nil 0 text.toList)

theorem Cursor.ofTokens_tokenize {text : String} {token : Token} {rest : List Token}
    (tokens : tokenize text = token :: rest) :
    ofTokens text (tokenize text) = ⟨text, token, rest⟩ := by
  obtain ⟨stop, last⟩ := Token.scan_getLast? 0 text.toList
  rw [← tokenize, tokens] at last
  simp only [ofTokens, tokens, last, Token.kind, Lexeme.kind, if_true]

/-- Reading a text is a run over its tokens. -/
theorem Parser.parse_eq_run (parser : Parser) {text : String} {token : Token} {rest : List Token}
    (tokens : tokenize text = token :: rest) :
    parser.parse text = Grammar.run parser.lenient .start text token rest := by
  simp only [Parser.parse, Cursor.ofTokens_tokenize tokens]

end JsonQuery
