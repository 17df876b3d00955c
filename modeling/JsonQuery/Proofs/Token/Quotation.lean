import JsonQuery.Proofs.Grammar.Inside
import JsonQuery.Proofs.Json.Escape
import JsonQuery.Proofs.Session.History
import JsonQuery.Proofs.Token.Segment

/-!
# Quoted documents and keys

Every JSON text becomes an expression once its backticks are escaped and it stands between
backticks, and the JSON text of every string is an expression as it stands.  The one answers the
document on every value, the other the member under that key.
-/

set_option autoImplicit false

namespace JsonQuery

namespace Lexeme

/-- Enclosed text between two marks is all that a text has to be to become one lexeme. -/
theorem tokenize_quoted {mark : Char} (quote : isQuote mark = true) {body : List Char}
    (enclosed : Text.Enclosed mark body) {lexeme : Lexeme}
    (decodes : ofQuoted? mark body = some lexeme) :
    tokenize (String.ofList (mark :: (body ++ [mark]))) =
      [⟨lexeme, 0⟩, ⟨.eof, (mark :: (body ++ [mark])).length⟩] := by
  obtain ⟨noName, noNumber, visible⟩ := isQuote_cases quote
  have found := enclosed.delimited? []
  have whole : extent mark (body ++ [mark]) = (body ++ [mark]).length := by
    rw [extent_closed noName noNumber quote found, List.length_append, List.length_singleton]
  have read : ofSpelling mark (body ++ [mark]) = lexeme := by
    simp only [ofSpelling, ofSpelling?, if_neg noName, if_neg noNumber, if_pos quote, found,
      decodes, Option.getD_some]
  rw [tokenize, String.toList_ofList, Token.scan_cons 0 visible, whole, List.take_length,
    List.drop_length, read, Token.scan, List.length_cons, Nat.zero_add, Nat.add_comm 1]

end Lexeme

open Grammar Lexeme

/-- A text that is one lexeme is read in two steps. -/
theorem parse_of_tokenize {text : String} {lexeme : Lexeme} {stop : Nat}
    (tokens : tokenize text = [⟨lexeme, 0⟩, ⟨.eof, stop⟩]) {parser : Parser} {q : Query}
    (walked : walk parser.lenient .start [lexeme, .eof] = .ok ⟨.done q, .outermost⟩) :
    parser.parse text = .ok q := by
  have single : lexemes text.toList = [lexeme] := by
    rw [tokenize] at tokens
    rw [lexemes, tokens]
    rfl
  rw [parse_eq_ok, single]
  exact walked

/-- A JSON text between backticks, with its own backticks escaped. -/
def literalText (text : String) : String :=
  String.ofList ('\x60' :: (Text.protect '\x60' text.toList ++ ['\x60']))

theorem tokenize_literalText {text : String} {v : Value} (decodes : Value.decode? text = some v) :
    tokenize (literalText text) =
      [⟨.literal v, 0⟩, ⟨.eof, (literalText text).toList.length⟩] := by
  obtain ⟨json, decoded, -⟩ := Option.map_eq_some_iff.mp decodes
  have differs : '\\' ≠ '\x60' := by decide
  have enclosed := (Json.paired_of_decode? decoded).enclosed_protect differs
  have literal : ofQuoted? '\x60' (Text.protect '\x60' text.toList) = some (.literal v) := by
    have restored := Text.unprotect_protect differs text.toList
    have chosen : ofQuoted? '\x60' (Text.protect '\x60' text.toList) =
        ofJsonLiteral? (Text.protect '\x60' text.toList) := rfl
    rw [chosen, ofJsonLiteral?, restored, String.ofList_toList, decodes]
    rfl
  rw [literalText, String.toList_ofList]
  exact tokenize_quoted rfl enclosed literal

theorem tokenize_key (key : String) :
    tokenize (Value.string key).encode =
      [⟨.quotedIdentifier key, 0⟩, ⟨.eof, (Value.string key).encode.toList.length⟩] := by
  have written : (Value.string key).encode =
      String.ofList ('\x22' :: (key.toList.flatMap Json.charText ++ ['\x22'])) := rfl
  have name : ofQuoted? '\x22' (key.toList.flatMap Json.charText) =
      some (.quotedIdentifier key) := by
    have read := Json.string?_stringText key
    rw [Json.stringText] at read
    have chosen : ofQuoted? '\x22' (key.toList.flatMap Json.charText) =
        ofQuotedName? (key.toList.flatMap Json.charText) := rfl
    rw [chosen, ofQuotedName?, read]
    rfl
  rw [written, String.toList_ofList]
  exact tokenize_quoted rfl (Json.enclosed_flatMap_charText key.toList) name

/-- Every text that decodes can be quoted as a literal that answers what it decodes to, and every
string can be quoted as a key that answers the member under it, or null where there is none. -/
theorem quoted_documents_and_keys :
    (∀ (text : String) (v : Value), Value.decode? text = some v →
      tokenize (literalText text) =
          [⟨.literal v, 0⟩, ⟨.eof, (literalText text).toList.length⟩] ∧
        ∀ options d, searchWith options (literalText text) d = .answer v) ∧
      ∀ key : String,
        tokenize (Value.string key).encode =
            [⟨.quotedIdentifier key, 0⟩, ⟨.eof, (Value.string key).encode.toList.length⟩] ∧
          ∀ options entries, searchWith options (Value.string key).encode (.object entries) =
            .answer ((Entries.get? key entries).getD .null) := by
  constructor
  · intro text v decodes
    have tokens := tokenize_literalText decodes
    refine ⟨tokens, fun options d => ?_⟩
    rw [searchWith_of_parse (parse_of_tokenize tokens rfl), Query.search_eq]
    rfl
  · intro key
    have tokens := tokenize_key key
    refine ⟨tokens, fun options entries => ?_⟩
    rw [searchWith_of_parse (parse_of_tokenize tokens rfl), Query.search_eq]
    rfl

theorem quoted_documents_and_keys_backtick :
    Value.decode? "[\"\\\\\x60\", \"\x60\\\"\"]" =
        some (.array [.string "\\\x60", .string "\x60\""]) ∧
      literalText "[\"\\\\\x60\", \"\x60\\\"\"]" =
        "\x60[\"\\\\\\\x60\", \"\\\x60\\\"\"]\x60" ∧
      tokenize (literalText "[\"\\\\\x60\", \"\x60\\\"\"]") =
        [⟨.literal (.array [.string "\\\x60", .string "\x60\""]), 0⟩,
          ⟨.eof, (literalText "[\"\\\\\x60\", \"\x60\\\"\"]").toList.length⟩] ∧
      ∀ d, searchWith .standard (literalText "[\"\\\\\x60\", \"\x60\\\"\"]") d =
        .answer (.array [.string "\\\x60", .string "\x60\""]) := by
  have decodes : Value.decode? "[\"\\\\\x60\", \"\x60\\\"\"]" =
      some (.array [.string "\\\x60", .string "\x60\""]) := by cbv
  obtain ⟨tokens, answers⟩ := quoted_documents_and_keys.1 _ _ decodes
  exact ⟨decodes, by cbv, tokens, answers .standard⟩

end JsonQuery
