import JsonQuery.Proofs.Evaluation.ListScope
import JsonQuery.Proofs.Grammar.Operands

/-!
# Constructs of parenthesized expressions

Expressions in parentheses are read as they are in every bracket: as the items of a list, the
members of a hash, the arguments of a call, the test of a filter, behind an ampersand and in front
of a projection.
-/

set_option autoImplicit false

namespace JsonQuery

open Grammar Lexeme

variable {parser : Parser}

/-! ## Parts with commas and blanks between them -/

theorem separated_cons {α : Type} (comma close : α) (first : List α) (rest : List (List α)) :
    separated comma close (first :: rest) = first ++ (rest.flatMap (comma :: ·) ++ [close]) := by
  induction rest generalizing first with
  | nil => rfl
  | cons next rest ih => rw [separated, ih, List.flatMap_cons, List.append_assoc, List.cons_append]

/-- Parts that are lexemes of their own are so with commas and blanks between them. -/
theorem lexemes_intercalate {α : Type} {spelling : α → List Char} {read : α → List Lexeme}
    (part : ∀ a tail, lexemes (spelling a ++ tail) = read a ++ lexemes tail)
    {close : Char} (mark : close ∈ marks) (as : List α) :
    lexemes ([',', ' '].intercalate (as.map spelling) ++ [close]) =
      separated .comma (ofSpelling close []) (as.map read) := by
  have closes : lexemes [close] = [ofSpelling close []] := by
    rw [lexemes_mark mark, lexemes_nil]
  have comma (tail : List Char) : lexemes (',' :: ' ' :: tail) = .comma :: lexemes tail := by
    rw [lexemes_mark (by decide), lexemes_blank (by decide)]
    rfl
  induction as with
  | nil => exact closes
  | cons a as ih =>
      cases as with
      | nil =>
          simp only [List.map_cons, List.map_nil, List.intercalate_singleton, separated]
          rw [part, closes]
      | cons next rest =>
          simp only [List.map_cons, List.intercalate_cons_cons, List.append_assoc,
            List.cons_append, List.nil_append, separated] at ih ⊢
          rw [part, comma, ih]

/-! ## Parts in parentheses -/

/-- The name of a function is an identifier. -/
def Builtin.piece (builtin : Builtin) : Piece (.identifier builtin.name) where
  text := builtin.name
  reads := by cases builtin <;> cbv

namespace Name

def text : Name → String
  | .plain _ piece => piece.text
  | .quoted _ piece => piece.text

theorem toList_text (name : Name) : name.text.toList = name.spelling := by
  cases name <;> rfl

end Name

namespace Reading

/-- The same expression in parentheses. -/
def parenthesized (reading : Reading parser) : Reading parser where
  text := "(" ++ reading.text ++ ")"
  query := reading.query
  reads := parse_parenthesized reading.reads

variable (reading : Reading parser)

theorem toList_parenthesized : reading.parenthesized.text.toList = reading.grouped := by
  simp [parenthesized, grouped]

theorem lexemes_parenthesized : reading.parenthesized.lexemes = reading.groupedLexemes := by
  have alone := reading.lexemes_grouped []
  rw [List.append_nil, Lexeme.lexemes_nil, List.append_nil] at alone
  rw [Reading.lexemes, toList_parenthesized, alone]

theorem lexemes_parenthesized_append (tail : List Char) :
    JsonQuery.lexemes (reading.parenthesized.text.toList ++ tail) =
      reading.parenthesized.lexemes ++ JsonQuery.lexemes tail := by
  rw [toList_parenthesized, lexemes_grouped, lexemes_parenthesized]

end Reading

namespace Pair

/-- The same member with its value in parentheses. -/
def parenthesized (pair : Pair parser) : Pair parser :=
  ⟨pair.key, pair.value.parenthesized⟩

def text (pair : Pair parser) : String :=
  pair.key.text ++ ": " ++ pair.value.text

theorem lexemes_parenthesized_append (pair : Pair parser) (tail : List Char) :
    JsonQuery.lexemes (pair.parenthesized.text.toList ++ tail) =
      pair.parenthesized.lexemes ++ JsonQuery.lexemes tail := by
  have colon (tail : List Char) :
      JsonQuery.lexemes (':' :: ' ' :: tail) = .colon :: JsonQuery.lexemes tail := by
    rw [lexemes_mark (by decide), lexemes_blank (by decide)]
    rfl
  have spelled : pair.parenthesized.text.toList =
      pair.key.spelling ++ ':' :: ' ' :: pair.value.parenthesized.text.toList := by
    simp [text, parenthesized, pair.key.toList_text]
  rw [spelled, List.append_assoc, List.cons_append, List.cons_append,
    pair.key.lexemes_append (startsSeparate_cons (by decide) _), colon,
    pair.value.lexemes_parenthesized_append]
  rfl

end Pair

/-! ## Reading the constructs -/

def listingText (items : List (Reading parser)) : String :=
  ", ".intercalate (items.map fun item => item.parenthesized.text)

theorem lexemes_listingText (items : List (Reading parser)) {close : Char} (mark : close ∈ marks) :
    lexemes ((listingText items).toList ++ [close]) =
      separated .comma (ofSpelling close []) (items.map fun item => item.parenthesized.lexemes) := by
  rw [listingText, String.toList_intercalate, List.map_map]
  exact lexemes_intercalate (fun item => item.lexemes_parenthesized_append) mark items

def membersText (members : List (Pair parser)) : String :=
  ", ".intercalate (members.map fun member => member.parenthesized.text)

theorem lexemes_membersText (members : List (Pair parser)) {close : Char}
    (mark : close ∈ marks) :
    lexemes ((membersText members).toList ++ [close]) =
      separated .comma (ofSpelling close [])
        (members.map fun member => member.parenthesized.lexemes) := by
  rw [membersText, String.toList_intercalate, List.map_map]
  exact lexemes_intercalate (fun member => member.lexemes_parenthesized_append) mark members

/-- The first item starts with a parenthesis, so the bracket opens a list. -/
theorem lexemes_lbracket_listingText (first : Reading parser) (rest : List (Reading parser))
    (tail : List Char) :
    lexemes ('[' :: ((listingText (first :: rest)).toList ++ tail)) =
      .lbracket :: lexemes ((listingText (first :: rest)).toList ++ tail) := by
  have head : (listingText (first :: rest)).toList.head? = some '(' := by
    cases rest <;> simp [listingText, String.toList_intercalate, Reading.parenthesized]
  obtain ⟨others, started⟩ := List.head?_eq_some_iff.mp head
  rw [started]
  exact lexemes_single rfl rfl

theorem Builtin.lexemes_name_lparen (builtin : Builtin) (tail : List Char) :
    lexemes (builtin.name.toList ++ '(' :: tail) =
      .identifier builtin.name :: .lparen :: lexemes tail := by
  rw [← lexemes_lparen]
  exact builtin.piece.lexemes_append nofun (startsSeparate_cons (by decide) tail)

theorem parse_of_walk {text : String} {q : Query}
    (walked : walk parser.lenient .start (lexemes text.toList ++ [.eof]) =
      walk parser.lenient ⟨.operator q, .outermost⟩ [.eof]) :
    parser.parse text = .ok q := by
  rw [parse_eq_ok, walked]
  rfl

theorem parse_list (first : Reading parser) (rest : List (Reading parser)) :
    parser.parse ("[" ++ listingText (first :: rest) ++ "]") =
      .ok (.list ((first :: rest).map Reading.query)) := by
  have spelled : ("[" ++ listingText (first :: rest) ++ "]").toList =
      '[' :: ((listingText (first :: rest)).toList ++ [']']) := by simp
  have listed : separated .comma (ofSpelling ']' [])
      ((first :: rest).map fun item => item.parenthesized.lexemes) =
      first.groupedLexemes ++ listRestLexemes rest := by
    simp only [List.map_cons, separated_cons, Reading.lexemes_parenthesized, List.flatMap_map]
    rfl
  have walked := walk_items [] none .outermost first rest [.eof]
  rw [← List.append_assoc] at walked
  apply parse_of_walk
  rw [spelled, lexemes_lbracket_listingText, lexemes_listingText _ (by decide), listed]
  exact walked

theorem parse_hash (first : Pair parser) (rest : List (Pair parser)) :
    parser.parse ("\x7b" ++ membersText (first :: rest) ++ "\x7d") =
      .ok (.hash ((first :: rest).map fun pair => (pair.key.name, pair.value.query))) := by
  have spelled : ("\x7b" ++ membersText (first :: rest) ++ "\x7d").toList =
      '\x7b' :: ((membersText (first :: rest)).toList ++ ['\x7d']) := by simp
  have walked := walk_pairs [] first.parenthesized (rest.map Pair.parenthesized) .outermost [.eof]
  apply parse_of_walk
  rw [spelled, lexemes_mark (by decide), lexemes_membersText _ (by decide)]
  simp only [← List.map_cons, List.map_map] at walked
  exact walked

theorem parse_call (builtin : Builtin) (args : List (Reading parser)) :
    parser.parse (builtin.name ++ "(" ++ listingText args ++ ")") =
      .ok (.call builtin.name (args.map Reading.query) parser.lenient) := by
  have spelled : (builtin.name ++ "(" ++ listingText args ++ ")").toList =
      builtin.name.toList ++ '(' :: ((listingText args).toList ++ [')']) := by simp
  have walked := walk_arguments builtin [] (args.map Reading.parenthesized) .outermost [.eof]
  apply parse_of_walk
  rw [spelled, builtin.lexemes_name_lparen, lexemes_listingText _ (by decide)]
  simp only [List.map_map] at walked
  exact walked

theorem parse_reference (e : Reading parser) :
    parser.parse ("&(" ++ e.text ++ ")") = .ok (.reference none e.query) := by
  have spelled : ("&(" ++ e.text ++ ")").toList = '&' :: (e.grouped ++ []) := by
    simp [Reading.grouped]
  have opens : lexemes ('&' :: (e.grouped ++ [])) = .expref :: lexemes (e.grouped ++ []) :=
    lexemes_single rfl rfl
  have read := walk_grouped e ⟨[.reference], []⟩ [.eof]
  rw [parse_eq_ok, spelled, opens, e.lexemes_grouped]
  rw [Lexeme.lexemes_nil, List.append_nil, List.cons_append]
  exact read

theorem parse_filter (e p : Reading parser) :
    parser.parse ("(" ++ e.text ++ ")[?(" ++ p.text ++ ")]") =
      .ok (.eachItem e.query (.guard p.query .current)) := by
  have spelled : ("(" ++ e.text ++ ")[?(" ++ p.text ++ ")]").toList =
      e.grouped ++ '[' :: '?' :: (p.grouped ++ [']']) := by
    simp [Reading.grouped]
  have opens (tail : List Char) : lexemes ('[' :: '?' :: tail) = .filter :: lexemes tail :=
    lexemes_cons rfl
  have closes : lexemes [']'] = [.rbracket] := by
    rw [lexemes_mark (by decide), lexemes_nil]
    rfl
  have test := walk_grouped p (Context.outermost.enter (.filter e.query)) [.rbracket, .eof]
  rw [parse_eq_ok, spelled, e.lexemes_grouped, opens, p.lexemes_grouped, closes]
  simp only [List.append_assoc, List.cons_append, List.nil_append]
  rw [State.start, walk_grouped]
  exact test

theorem parse_opener (e : Reading parser) (opener : Opener) {behind : String}
    (spelled : behind = ")" ++ opener.text) :
    parser.parse ("(" ++ e.text ++ behind) = .ok ((opener.source e.query).project .current) := by
  have read := parse_projectionText e opener []
  have same : projectionText e opener [] = "(" ++ e.text ++ behind := by
    rw [spelled, ← String.append_assoc]
    exact String.append_empty
  rwa [same] at read

/-- Expressions in parentheses, with commas between them, are read as a list, a hash or a call with
exactly their queries in the same order; one in parentheses is read as the target of a reference,
and as what is filtered or projected from. -/
theorem constructs_compose (parser : Parser) :
    (∀ (first : Reading parser) (rest : List (Reading parser)),
      parser.parse ("[" ++ listingText (first :: rest) ++ "]") =
        .ok (.list ((first :: rest).map Reading.query))) ∧
      (∀ (first : Pair parser) (rest : List (Pair parser)),
        parser.parse ("\x7b" ++ membersText (first :: rest) ++ "\x7d") =
          .ok (.hash ((first :: rest).map fun pair => (pair.key.name, pair.value.query)))) ∧
      (∀ (builtin : Builtin) (args : List (Reading parser)),
        parser.parse (builtin.name ++ "(" ++ listingText args ++ ")") =
          .ok (.call builtin.name (args.map Reading.query) parser.lenient)) ∧
      ∀ e : Reading parser,
        parser.parse ("&(" ++ e.text ++ ")") = .ok (.reference none e.query) ∧
        (∀ p : Reading parser, parser.parse ("(" ++ e.text ++ ")[?(" ++ p.text ++ ")]") =
          .ok (.eachItem e.query (.guard p.query .current))) ∧
        parser.parse ("(" ++ e.text ++ ")[*]") = .ok (.eachItem e.query .current) ∧
        parser.parse ("(" ++ e.text ++ ")[]") = .ok (.eachItem (.flatten e.query) .current) ∧
        parser.parse ("(" ++ e.text ++ ").*") = .ok (.eachMember e.query .current) := by
  refine ⟨parse_list, parse_hash, parse_call, fun e => ⟨parse_reference e, parse_filter e, ?_⟩⟩
  exact ⟨parse_opener e .items rfl, parse_opener e .flattened rfl, parse_opener e .members rfl⟩

theorem constructs_compose_nested :
    (Parser.mk true).parse "\x7bx: (a), \x22x\x22: (&(b || c))\x7d" =
        .ok (.hash [("x", .field "a"),
          ("x", .reference none (.either (.field "b") (.field "c")))]) ∧
      (Parser.mk true).parse "map((&(b || c)), (a))" =
        .ok (.call "map" [.reference none (.either (.field "b") (.field "c")), .field "a"] true) := by
  obtain ⟨-, hash, call, others⟩ := constructs_compose ⟨true⟩
  have readA : (Parser.mk true).parse "a" = .ok (.field "a") := by cbv
  have readB : (Parser.mk true).parse "b || c" = .ok (.either (.field "b") (.field "c")) := by cbv
  have plain : lexemes "x".toList = [.identifier "x"] := by cbv
  have quoted : lexemes "\x22x\x22".toList = [.quotedIdentifier "x"] := by cbv
  have reference := (others ⟨"b || c", _, readB⟩).1
  exact ⟨hash ⟨.plain "x" ⟨"x", plain⟩, ⟨"a", _, readA⟩⟩
      [⟨.quoted "x" ⟨"\x22x\x22", quoted⟩, ⟨"&(b || c)", _, reference⟩⟩],
    call .map [⟨"&(b || c)", _, reference⟩, ⟨"a", _, readA⟩]⟩

end JsonQuery
