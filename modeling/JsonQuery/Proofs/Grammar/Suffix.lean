import JsonQuery.Proofs.Grammar.Inside

/-!
# Suffixes

What can be written behind an expression without an operator: members, calls and hashes behind a
dot, stars, indexes, slices and filters.  Names, numbers and the expressions inside are given as
they are written, so a suffix is both a text and the lexemes of that text.
-/

set_option autoImplicit false

namespace JsonQuery

/-- A text that is one lexeme. -/
structure Piece (lexeme : Lexeme) where
  text : String
  reads : lexemes text.toList = [lexeme]

/-- An expression that a parser accepts. -/
structure Reading (parser : Parser) where
  text : String
  query : Query
  reads : parser.parse text = .ok query

inductive Name where
  | plain (name : String) (piece : Piece (.identifier name))
  | quoted (name : String) (piece : Piece (.quotedIdentifier name))

structure Position where
  number : Int64
  piece : Piece (.number number)

/-- What stands between the brackets of a slice. -/
structure Bounds where
  start : Option Position
  stop : Option Position
  /-- The step behind a second colon, if that is written. -/
  step : Option (Option Position)
  allowed : step.join.map Position.number ≠ some 0

structure Pair (parser : Parser) where
  key : Name
  value : Reading parser

/-- What a dot leads to, apart from a star. -/
inductive Primary (parser : Parser) where
  | field (name : Name)
  | call (builtin : Builtin) (name : Piece (.identifier builtin.name))
      (args : List (Reading parser))
  | hash (first : Pair parser) (rest : List (Pair parser))

inductive Suffix (parser : Parser) where
  | dot (primary : Primary parser)
  | members
  | index (position : Position)
  | slice (bounds : Bounds)
  | items
  | filter (test : Reading parser)

/-- Items with commas between them, and what closes them. -/
def separated {α : Type} (comma close : α) : List (List α) → List α
  | [] => [close]
  | [item] => item ++ [close]
  | item :: next :: rest => item ++ comma :: separated comma close (next :: rest)

namespace Name

def name : Name → String
  | .plain name _ => name
  | .quoted name _ => name

def lexeme : Name → Lexeme
  | .plain name _ => .identifier name
  | .quoted name _ => .quotedIdentifier name

def spelling : Name → List Char
  | .plain _ piece => piece.text.toList
  | .quoted _ piece => piece.text.toList

end Name

namespace Bounds

def slice (bounds : Bounds) : Slice :=
  ⟨bounds.start.map Position.number, bounds.stop.map Position.number,
    bounds.step.join.map Position.number⟩

def boundSpelling (bound : Option Position) : List Char :=
  bound.elim [] fun position => position.piece.text.toList

def boundLexemes (bound : Option Position) : List Lexeme :=
  bound.elim [] fun position => [.number position.number]

def spelling (bounds : Bounds) : List Char :=
  boundSpelling bounds.start ++ ':' :: (boundSpelling bounds.stop ++
    bounds.step.elim [] fun step => ':' :: boundSpelling step)

def lexemes (bounds : Bounds) : List Lexeme :=
  boundLexemes bounds.start ++ .colon :: (boundLexemes bounds.stop ++
    bounds.step.elim [] fun step => .colon :: boundLexemes step)

end Bounds

variable {parser : Parser}

namespace Reading

def lexemes (reading : Reading parser) : List Lexeme :=
  JsonQuery.lexemes reading.text.toList

end Reading

namespace Pair

def spelling (pair : Pair parser) : List Char :=
  pair.key.spelling ++ ':' :: pair.value.text.toList

def lexemes (pair : Pair parser) : List Lexeme :=
  pair.key.lexeme :: .colon :: pair.value.lexemes

end Pair

namespace Primary

def spelling : Primary parser → List Char
  | .field name => name.spelling
  | .call _ name args =>
      name.text.toList ++ '(' :: separated ',' ')' (args.map fun arg => arg.text.toList)
  | .hash first rest => '\x7b' :: separated ',' '\x7d' ((first :: rest).map Pair.spelling)

def lexemes : Primary parser → List Lexeme
  | .field name => [name.lexeme]
  | .call builtin _ args =>
      .identifier builtin.name :: .lparen :: separated .comma .rparen (args.map Reading.lexemes)
  | .hash first rest => .lbrace :: separated .comma .rbrace ((first :: rest).map Pair.lexemes)

end Primary

namespace Suffix

def spelling : Suffix parser → List Char
  | .dot primary => '.' :: primary.spelling
  | .members => ['.', '*']
  | .index position => '[' :: (position.piece.text.toList ++ [']'])
  | .slice bounds => '[' :: (bounds.spelling ++ [']'])
  | .items => ['[', '*', ']']
  | .filter test => '[' :: '?' :: (test.text.toList ++ [']'])

def lexemes : Suffix parser → List Lexeme
  | .dot primary => .dot :: primary.lexemes
  | .members => [.dot, .star]
  | .index position => [.lbracket, .number position.number, .rbracket]
  | .slice bounds => .lbracket :: (bounds.lexemes ++ [.rbracket])
  | .items => [.lbracket, .star, .rbracket]
  | .filter test => .filter :: (test.lexemes ++ [.rbracket])

end Suffix

/-! ## Lexemes of the parts -/

open Lexeme

theorem startsSeparate_cons {c : Char} (separate : isSeparate c = true) (rest : List Char) :
    StartsSeparate (c :: rest) := by
  rintro _ ⟨⟩
  exact separate

/-- Its lexemes do not depend on what follows. -/
def Local (text : List Char) : Prop :=
  ∀ tail, StartsSeparate tail → lexemes (text ++ tail) = lexemes text ++ lexemes tail

namespace Piece

variable {lexeme : Lexeme} (piece : Piece lexeme)

theorem known (readable : ∀ text, lexeme ≠ .unknown text) (text : String) :
    .unknown text ∉ lexemes piece.text.toList := by
  rw [piece.reads, List.mem_singleton]
  exact (readable text).symm

theorem lexemes_append (readable : ∀ text, lexeme ≠ .unknown text) {tail : List Char}
    (separate : StartsSeparate tail) :
    lexemes (piece.text.toList ++ tail) = lexeme :: lexemes tail := by
  rw [Lexeme.lexemes_append (piece.known readable) separate, piece.reads]
  rfl

end Piece

namespace Position

variable (position : Position)

theorem lexemes_rbracket (tail : List Char) :
    lexemes (position.piece.text.toList ++ ']' :: tail) =
      .number position.number :: .rbracket :: lexemes tail := by
  have open_ : (lexemes position.piece.text.toList).getLast? ≠ some .lbracket := by
    rw [position.piece.reads]
    nofun
  rw [lexemes_append_rbracket (position.piece.known nofun) open_, position.piece.reads]
  rfl

theorem lexemes_lbracket (tail : List Char) :
    lexemes ('[' :: (position.piece.text.toList ++ tail)) =
      .lbracket :: lexemes (position.piece.text.toList ++ tail) := by
  obtain ⟨number, text, reads⟩ := position
  refine lexemes_single rfl ?_
  cases spelled : text.toList with
  | nil =>
      rw [spelled, lexemes_nil] at reads
      cases reads
  | cons c rest =>
      rw [spelled] at reads
      have close : c ≠ ']' := by
        rintro rfl
        rw [lexemes_mark (by decide)] at reads
        cases reads
      have question : c ≠ '?' := by
        rintro rfl
        have alone : extent '?' rest = 0 := by cases rest <;> rfl
        rw [lexemes_single rfl alone] at reads
        cases reads
      have apart : isPair '[' c = false := by
        simp only [isPair, Bool.or_eq_false_iff, beq_eq_false_iff_ne]
        exact ⟨close, question⟩
      have bracket : extent '[' (c :: (rest ++ tail)) = if isPair '[' c then 1 else 0 := rfl
      rw [List.cons_append, bracket, apart]
      rfl

end Position

namespace Reading

variable (reading : Reading parser)

theorem isLocal : Local reading.text.toList :=
  fun _ separate => lexemes_append (unknown_not_mem_of_parse reading.reads) separate

theorem lexemes_rbracket (tail : List Char) :
    JsonQuery.lexemes (reading.text.toList ++ ']' :: tail) =
      reading.lexemes ++ .rbracket :: JsonQuery.lexemes tail :=
  lexemes_append_rbracket (unknown_not_mem_of_parse reading.reads)
    (getLast?_ne_lbracket_of_parse reading.reads) tail

end Reading

theorem Name.lexemes_append (name : Name) {tail : List Char} (separate : StartsSeparate tail) :
    lexemes (name.spelling ++ tail) = name.lexeme :: lexemes tail := by
  cases name with
  | plain name piece => exact piece.lexemes_append nofun separate
  | quoted name piece => exact piece.lexemes_append nofun separate

theorem Pair.lexemes_append (pair : Pair parser) {tail : List Char}
    (separate : StartsSeparate tail) :
    JsonQuery.lexemes (pair.spelling ++ tail) = pair.lexemes ++ JsonQuery.lexemes tail := by
  have colon : StartsSeparate (':' :: (pair.value.text.toList ++ tail)) :=
    startsSeparate_cons (by decide) _
  rw [Pair.spelling, List.append_assoc, List.cons_append, pair.key.lexemes_append colon,
    lexemes_mark (by decide), pair.value.isLocal tail separate]
  rfl

/-- Separated parts are lexemes of their own when each part is so in front of a mark. -/
theorem lexemes_separated {α : Type} (spelling : α → List Char) (read : α → List Lexeme)
    (part : ∀ a tail, StartsSeparate tail → lexemes (spelling a ++ tail) = read a ++ lexemes tail)
    (close : Char) (mark : close ∈ marks) (separate : isSeparate close = true) (as : List α)
    (tail : List Char) :
    lexemes (separated ',' close (as.map spelling) ++ tail) =
      separated .comma (ofSpelling close []) (as.map read) ++ lexemes tail := by
  induction as with
  | nil => exact lexemes_mark mark tail
  | cons a rest ih =>
      cases rest with
      | nil =>
          simp only [List.map_cons, List.map_nil, separated, List.append_assoc,
            List.singleton_append]
          rw [part a _ (startsSeparate_cons separate tail), lexemes_mark mark]
      | cons next rest =>
          simp only [List.map_cons, separated, List.append_assoc, List.cons_append] at ih ⊢
          rw [part a _ (startsSeparate_cons (by decide) _), lexemes_mark (by decide), ih]
          rfl

namespace Bounds

theorem lexemes_bound_colon (bound : Option Position) (tail : List Char) :
    JsonQuery.lexemes (boundSpelling bound ++ ':' :: tail) =
      boundLexemes bound ++ .colon :: JsonQuery.lexemes tail := by
  have colon : JsonQuery.lexemes (':' :: tail) = .colon :: JsonQuery.lexemes tail :=
    lexemes_mark (by decide) tail
  cases bound with
  | none => exact colon
  | some position =>
      have separate : StartsSeparate (':' :: tail) := startsSeparate_cons (by decide) tail
      exact (position.piece.lexemes_append nofun separate).trans (congrArg _ colon)

theorem lexemes_bound_rbracket (bound : Option Position) (tail : List Char) :
    JsonQuery.lexemes (boundSpelling bound ++ ']' :: tail) =
      boundLexemes bound ++ .rbracket :: JsonQuery.lexemes tail := by
  cases bound with
  | none => exact lexemes_mark (by decide) tail
  | some position => exact position.lexemes_rbracket tail

theorem lexemes_rbracket (bounds : Bounds) (tail : List Char) :
    JsonQuery.lexemes (bounds.spelling ++ ']' :: tail) =
      bounds.lexemes ++ .rbracket :: JsonQuery.lexemes tail := by
  rw [spelling, List.append_assoc, List.cons_append, List.append_assoc, lexemes_bound_colon]
  cases written : bounds.step with
  | none =>
      rw [Option.elim_none, List.nil_append, lexemes_bound_rbracket, lexemes, written,
        Option.elim_none, List.append_nil, List.append_assoc, List.cons_append]
  | some step =>
      rw [Option.elim_some, List.cons_append, lexemes_bound_colon, lexemes_bound_rbracket, lexemes,
        written, Option.elim_some]
      simp only [List.append_assoc, List.cons_append]

theorem lexemes_lbracket (bounds : Bounds) (tail : List Char) :
    JsonQuery.lexemes ('[' :: (bounds.spelling ++ tail)) =
      .lbracket :: JsonQuery.lexemes (bounds.spelling ++ tail) := by
  rw [spelling, List.append_assoc]
  cases bounds.start with
  | none => exact lexemes_single rfl rfl
  | some position => exact position.lexemes_lbracket _

end Bounds

theorem Primary.lexemes_append (primary : Primary parser) {tail : List Char}
    (separate : StartsSeparate tail) :
    JsonQuery.lexemes (primary.spelling ++ tail) = primary.lexemes ++ JsonQuery.lexemes tail := by
  cases primary with
  | field name => exact name.lexemes_append separate
  | call builtin name args =>
      have opens : StartsSeparate
          ('(' :: (separated ',' ')' (args.map fun arg => arg.text.toList) ++ tail)) :=
        startsSeparate_cons (by decide) _
      have inside := lexemes_separated (fun arg : Reading parser => arg.text.toList) Reading.lexemes
        (fun arg => arg.isLocal) ')' (by decide) (by decide) args tail
      rw [Primary.spelling, List.append_assoc, List.cons_append, name.lexemes_append nofun opens,
        lexemes_mark (by decide), inside]
      rfl
  | hash first rest =>
      have inside := lexemes_separated Pair.spelling Pair.lexemes
        (fun pair : Pair parser => fun _ => pair.lexemes_append) '\x7d' (by decide)
        (by decide) (first :: rest) tail
      rw [Primary.spelling, List.cons_append, lexemes_mark (by decide), inside]
      rfl

theorem lexemes_members (tail : List Char) :
    lexemes ('.' :: '*' :: tail) = .dot :: .star :: lexemes tail := by
  rw [lexemes_mark (by decide), lexemes_mark (by decide)]
  rfl

theorem lexemes_items (tail : List Char) :
    lexemes ('[' :: '*' :: ']' :: tail) = .lbracket :: .star :: .rbracket :: lexemes tail := by
  have opens : lexemes ('[' :: '*' :: ']' :: tail) = .lbracket :: lexemes ('*' :: ']' :: tail) :=
    lexemes_single rfl rfl
  rw [opens, lexemes_mark (by decide), lexemes_mark (by decide)]
  rfl

namespace Suffix

theorem lexemes_append (suffix : Suffix parser) {tail : List Char}
    (separate : StartsSeparate tail) :
    JsonQuery.lexemes (suffix.spelling ++ tail) = suffix.lexemes ++ JsonQuery.lexemes tail := by
  cases suffix with
  | dot primary =>
      rw [Suffix.spelling, List.cons_append, lexemes_mark (by decide),
        primary.lexemes_append separate]
      rfl
  | members => exact lexemes_members tail
  | index position =>
      rw [Suffix.spelling, List.cons_append, List.append_assoc, position.lexemes_lbracket,
        List.singleton_append, position.lexemes_rbracket]
      rfl
  | slice bounds =>
      rw [Suffix.spelling, List.cons_append, List.append_assoc, bounds.lexemes_lbracket,
        List.singleton_append, bounds.lexemes_rbracket, Suffix.lexemes, List.cons_append,
        List.append_assoc]
      rfl
  | items => exact lexemes_items tail
  | filter test =>
      have opens (rest : List Char) : JsonQuery.lexemes ('[' :: '?' :: rest) =
          .filter :: JsonQuery.lexemes rest := lexemes_cons rfl
      rw [Suffix.spelling, List.cons_append, List.cons_append, List.append_assoc, opens,
        List.singleton_append, test.lexemes_rbracket, Suffix.lexemes, List.cons_append,
        List.append_assoc]
      rfl

theorem startsSeparate (suffix : Suffix parser) (tail : List Char) :
    StartsSeparate (suffix.spelling ++ tail) := by
  cases suffix <;> exact startsSeparate_cons (by decide) _

end Suffix

def suffixText (chain : List (Suffix parser)) : String :=
  String.ofList (chain.flatMap Suffix.spelling)

theorem lexemes_suffixText (chain : List (Suffix parser)) :
    lexemes (suffixText chain).toList = chain.flatMap Suffix.lexemes := by
  rw [suffixText, String.toList_ofList]
  induction chain with
  | nil => exact lexemes_nil
  | cons suffix rest ih =>
      have separate : StartsSeparate (rest.flatMap Suffix.spelling) := by
        cases rest with
        | nil => nofun
        | cons next rest => exact next.startsSeparate _
      rw [List.flatMap_cons, List.flatMap_cons, suffix.lexemes_append separate, ih]

end JsonQuery
