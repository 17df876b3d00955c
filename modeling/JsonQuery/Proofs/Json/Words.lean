import JsonQuery.Proofs.Json.Escape
import JsonQuery.Proofs.Number.Writing
import JsonQuery.Proofs.Token.Lexemes

/-!
# The words of printed JSON

A JSON text falls into words, the spellings of its symbols.  Compact and indented text of one
document have the same words, because indentation only puts blanks between them.
-/

set_option autoImplicit false

namespace JsonQuery.Json

/-- The spellings of the symbols of a text, without the blanks between them. -/
def words : List Char → List (List Char)
  | [] => []
  | c :: rest =>
      if isBlank c then words rest
      else (c :: rest.take (Symbol.extent c rest)) :: words (rest.drop (Symbol.extent c rest))
termination_by text => text.length
decreasing_by all_goals simp only [List.length_cons, List.length_drop]; omega

/-- A text decodes into symbols word by word. -/
theorem symbols?_eq (text : List Char) : symbols? text = (words text).mapM Symbol.ofSpelling? := by
  fun_induction words text with
  | case1 => rw [symbols?]; rfl
  | case2 c rest blank ih => rw [symbols?, if_pos blank, ih]
  | case3 c rest ink ih =>
      rw [symbols?, if_neg ink, List.mapM_cons]
      cases spelled : Symbol.ofSpelling? (c :: rest.take (Symbol.extent c rest)) with
      | none => simp only [spelled]; rfl
      | some symbol =>
          simp only [spelled, ih]
          cases (words (rest.drop (Symbol.extent c rest))).mapM Symbol.ofSpelling? <;> rfl

/-! ## Single words -/

/-- Neither a number nor a bare word goes on behind the text. -/
def Separates (tail : List Char) : Prop :=
  ∀ c ∈ tail.head?, isNumeralChar c = false ∧ isWordChar c = false

theorem separates_nil : Separates [] :=
  nofun

theorem separates_mark {c : Char} {tail : List Char}
    (mark : isNumeralChar c = false ∧ isWordChar c = false) : Separates (c :: tail) := by
  rintro _ ⟨⟩
  exact mark

theorem words_blank {c : Char} (blank : isBlank c = true) (tail : List Char) :
    words (c :: tail) = words tail := by
  rw [words, if_pos blank]

theorem words_word {c : Char} {rest tail : List Char} (ink : isBlank c = false)
    (extent : Symbol.extent c (rest ++ tail) = rest.length) :
    words (c :: (rest ++ tail)) = (c :: rest) :: words tail := by
  rw [words, if_neg (Bool.eq_false_iff.mp ink), extent, List.take_left, List.drop_left]

theorem words_mark {c : Char} (mark : c ∈ ['[', ']', '\x7b', '\x7d', ',', ':'])
    (tail : List Char) : words (c :: tail) = [c] :: words tail := by
  have alone : isBlank c = false ∧ Symbol.extent c tail = 0 := by
    simp only [List.mem_cons, List.not_mem_nil, or_false] at mark
    rcases mark with rfl | rfl | rfl | rfl | rfl | rfl <;> exact ⟨rfl, rfl⟩
  rw [words, if_neg (Bool.eq_false_iff.mp alone.1), alone.2, List.take_zero, List.drop_zero]

theorem words_stringText (s : String) (tail : List Char) :
    words (stringText s ++ tail) = stringText s :: words tail := by
  rw [stringText, List.cons_append]
  refine words_word rfl ?_
  have closed := (enclosed_flatMap_charText s.toList).delimited? tail
  rw [List.append_assoc, List.singleton_append, Symbol.extent, if_pos rfl, closed]
  simp only [List.length_append, List.length_singleton]

theorem length_takeWhile_append {accepts : Char → Bool} {rest tail : List Char}
    (accepted : ∀ c ∈ rest, accepts c = true) (stops : ∀ c ∈ tail.head?, accepts c = false) :
    ((rest ++ tail).takeWhile accepts).length = rest.length := by
  rw [Lexeme.takeWhile_append accepts rest stops, List.takeWhile_eq_self_iff.mpr accepted]

/-- Numbers start with a digit or a minus. -/
abbrev startsNumeral (c : Char) : Bool :=
  Numeral.isDigit c || c == '-'

theorem words_numeral {c : Char} {rest tail : List Char} (first : startsNumeral c = true)
    (others : ∀ d ∈ rest, isNumeralChar d = true) (separates : Separates tail) :
    words (c :: (rest ++ tail)) = (c :: rest) :: words tail := by
  have noQuote : c ≠ '\x22' := by
    rintro rfl
    cases first
  have ink : isBlank c = false := by
    rw [Bool.eq_false_iff]
    intro blank
    simp only [isBlank, Bool.or_eq_true, beq_iff_eq] at blank
    rcases blank with ((rfl | rfl) | rfl) | rfl <;> cases first
  refine words_word ink ?_
  rw [Symbol.extent, if_neg noQuote, if_pos first]
  exact length_takeWhile_append others fun c found => (separates c found).1

theorem words_letters {c : Char} {rest tail : List Char} (first : isWordChar c = true)
    (noNumeral : startsNumeral c = false) (ink : isBlank c = false)
    (others : rest.all isWordChar = true) (separates : Separates tail) :
    words (c :: (rest ++ tail)) = (c :: rest) :: words tail := by
  have noQuote : c ≠ '\x22' := by
    rintro rfl
    cases first
  refine words_word ink ?_
  rw [Symbol.extent, if_neg noQuote, if_neg (Bool.eq_false_iff.mp noNumeral), if_pos first]
  exact length_takeWhile_append (List.all_eq_true.mp others) fun c found => (separates c found).2

/-! ## Numbers -/

section Numerals

open Numeral

theorem isNumeralChar_of_isDigit {c : Char} (digit : isDigit c = true) :
    isNumeralChar c = true := by
  simp only [isNumeralChar, digit, Bool.true_or]

theorem isNumeralChar_text {parts : Parts} (numeral : parts.IsNumeral) :
    ∀ c ∈ parts.text, isNumeralChar c = true := by
  have digits {ds : List Char} (all : ds.all isDigit = true) : ∀ c ∈ ds, isNumeralChar c = true :=
    fun c found => isNumeralChar_of_isDigit (List.all_eq_true.mp all c found)
  obtain ⟨whole, fraction, exponent⟩ := parts
  simp only [Parts.text, List.forall_mem_append]
  refine ⟨digits (isDigits_iff.mp numeral.whole).2, ?_, ?_⟩
  · cases fraction with
    | none => nofun
    | some ds => exact List.forall_mem_cons.mpr ⟨rfl, digits (numeral.fraction ds rfl)⟩
  · cases exponent with
    | none => nofun
    | some e =>
        obtain ⟨down, ds⟩ := e
        have all := digits (isDigits_iff.mp (numeral.exponent _ rfl)).2
        exact List.forall_mem_cons.mpr ⟨rfl, List.forall_mem_cons.mpr ⟨by cases down <;> rfl, all⟩⟩

theorem words_signed {parts : Parts} (numeral : parts.IsNumeral) (negative : Bool)
    {tail : List Char} (separates : Separates tail) :
    words (parts.signed negative ++ tail) = parts.signed negative :: words tail := by
  have chars := isNumeralChar_text numeral
  obtain ⟨c, rest, spelled, digit⟩ := Parts.text_head numeral
  rw [spelled] at chars
  rw [Parts.signed, spelled]
  cases negative with
  | true => exact words_numeral rfl chars separates
  | false =>
      exact words_numeral (by rw [startsNumeral, digit, Bool.true_or])
        (List.forall_mem_cons.mp chars).2 separates

/-- The parts of a whole number. -/
def wholeParts (n : Int) : Parts :=
  ⟨Shortest.digitChars n.natAbs, none, none⟩

theorem isNumeral_wholeParts (n : Int) : (wholeParts n).IsNumeral :=
  ⟨isDigits_digitChars n.natAbs, nofun, nofun⟩

theorem intText_eq (n : Int) : intText n = (wholeParts n).signed (decide (n < 0)) := by
  simp only [intText, Parts.signed, decide_eq_true_eq, wholeParts, Parts.text, Parts.fractionText,
    Parts.exponentText, List.append_nil]

theorem words_intText (n : Int) {tail : List Char} (separates : Separates tail) :
    words (intText n ++ tail) = intText n :: words tail := by
  rw [intText_eq]
  exact words_signed (isNumeral_wholeParts n) _ separates

theorem words_null {tail : List Char} (separates : Separates tail) :
    words (['n', 'u', 'l', 'l'] ++ tail) = ['n', 'u', 'l', 'l'] :: words tail :=
  words_letters rfl rfl rfl rfl separates

theorem words_floatText (x : Float) {tail : List Char} (separates : Separates tail) :
    words (floatText x ++ tail) = floatText x :: words tail := by
  rw [floatText]
  split
  · rename_i finite
    obtain ⟨parts, numeral, -, text, -⟩ := Shortest.write_parts numberStyle finite
    rw [text]
    exact words_signed numeral _ separates
  · exact words_null separates

end Numerals

/-! ## Words of documents -/

mutual

/-- The words of a document. -/
def spelling : Json → List (List Char)
  | .array items => ['['] :: itemsSpelling items
  | .object entries => ['\x7b'] :: entriesSpelling entries
  | .null => [['n', 'u', 'l', 'l']]
  | .bool true => [['t', 'r', 'u', 'e']]
  | .bool false => [['f', 'a', 'l', 's', 'e']]
  | .int n => [intText n.toInt]
  | .float x => [floatText x]
  | .string s => [stringText s]
termination_by structural json => json

def itemsSpelling : List Json → List (List Char)
  | [] => [[']']]
  | item :: rest => spelling item ++ moreItemsSpelling rest
termination_by structural items => items

def moreItemsSpelling : List Json → List (List Char)
  | [] => [[']']]
  | item :: rest => [','] :: (spelling item ++ moreItemsSpelling rest)
termination_by structural items => items

def entriesSpelling : List (String × Json) → List (List Char)
  | [] => [['\x7d']]
  | (key, v) :: rest => stringText key :: [':'] :: (spelling v ++ moreEntriesSpelling rest)
termination_by structural entries => entries

def moreEntriesSpelling : List (String × Json) → List (List Char)
  | [] => [['\x7d']]
  | (key, v) :: rest =>
      [','] :: stringText key :: [':'] :: (spelling v ++ moreEntriesSpelling rest)
termination_by structural entries => entries

end

theorem separates_moreItems (items : List Json) (tail : List Char) :
    Separates (compactMoreItems items ++ tail) := by
  cases items <;> exact separates_mark ⟨rfl, rfl⟩

theorem separates_moreEntries (entries : List (String × Json)) (tail : List Char) :
    Separates (compactMoreEntries entries ++ tail) := by
  cases entries <;> exact separates_mark ⟨rfl, rfl⟩

mutual

theorem words_compact : ∀ (json : Json) {tail : List Char}, Separates tail →
    words (json.compact ++ tail) = json.spelling ++ words tail
  | .null, _, separates => words_null separates
  | .bool true, _, separates => words_letters rfl rfl rfl rfl separates
  | .bool false, _, separates => words_letters rfl rfl rfl rfl separates
  | .int n, _, separates => words_intText n.toInt separates
  | .float x, _, separates => words_floatText x separates
  | .string s, tail, _ => words_stringText s tail
  | .array items, tail, _ => by
      rw [compact, spelling, List.cons_append, List.cons_append, words_mark (by simp),
        words_compactItems items tail]
  | .object entries, tail, _ => by
      rw [compact, spelling, List.cons_append, List.cons_append, words_mark (by simp),
        words_compactEntries entries tail]
termination_by structural json => json

theorem words_compactItems : ∀ (items : List Json) (tail : List Char),
    words (compactItems items ++ tail) = itemsSpelling items ++ words tail
  | [], tail => words_mark (by simp) tail
  | item :: rest, tail => by
      rw [compactItems, itemsSpelling, List.append_assoc, List.append_assoc,
        words_compact item (separates_moreItems rest tail), words_compactMoreItems rest tail]
termination_by structural items => items

theorem words_compactMoreItems : ∀ (items : List Json) (tail : List Char),
    words (compactMoreItems items ++ tail) = moreItemsSpelling items ++ words tail
  | [], tail => words_mark (by simp) tail
  | item :: rest, tail => by
      rw [compactMoreItems, moreItemsSpelling, List.cons_append, List.cons_append,
        words_mark (by simp), List.append_assoc, List.append_assoc,
        words_compact item (separates_moreItems rest tail), words_compactMoreItems rest tail]
termination_by structural items => items

theorem words_compactEntries : ∀ (entries : List (String × Json)) (tail : List Char),
    words (compactEntries entries ++ tail) = entriesSpelling entries ++ words tail
  | [], tail => words_mark (by simp) tail
  | (key, v) :: rest, tail => by
      simp only [compactEntries, entriesSpelling, List.append_assoc, List.cons_append]
      rw [words_stringText, words_mark (by simp), words_compact v (separates_moreEntries rest tail),
        words_compactMoreEntries rest tail]
termination_by structural entries => entries

theorem words_compactMoreEntries : ∀ (entries : List (String × Json)) (tail : List Char),
    words (compactMoreEntries entries ++ tail) = moreEntriesSpelling entries ++ words tail
  | [], tail => words_mark (by simp) tail
  | (key, v) :: rest, tail => by
      simp only [compactMoreEntries, moreEntriesSpelling, List.append_assoc, List.cons_append]
      rw [words_mark (by simp), words_stringText, words_mark (by simp),
        words_compact v (separates_moreEntries rest tail), words_compactMoreEntries rest tail]
termination_by structural entries => entries

end

/-! ## Words of indented text -/

theorem words_newline (depth : Nat) (tail : List Char) :
    words (newline depth ++ tail) = words tail := by
  have spaces (n : Nat) : words (List.replicate n ' ' ++ tail) = words tail := by
    induction n with
    | zero => rfl
    | succ n ih => rw [List.replicate_succ, List.cons_append, words_blank rfl, ih]
  rw [newline, List.cons_append, words_blank rfl, spaces]

theorem separates_indentedItems (depth : Nat) (items : List Json) (tail : List Char) :
    Separates (indentedItems depth items ++ tail) := by
  cases items <;> exact separates_mark ⟨rfl, rfl⟩

theorem separates_indentedEntries (depth : Nat) (entries : List (String × Json))
    (tail : List Char) : Separates (indentedEntries depth entries ++ tail) := by
  cases entries with
  | nil => exact separates_mark ⟨rfl, rfl⟩
  | cons entry rest => exact separates_mark ⟨rfl, rfl⟩

mutual

theorem words_indented : ∀ (depth : Nat) (json : Json) {tail : List Char}, Separates tail →
    words (json.indented depth ++ tail) = json.spelling ++ words tail
  | _, .null, _, separates => words_null separates
  | _, .bool true, _, separates => words_letters rfl rfl rfl rfl separates
  | _, .bool false, _, separates => words_letters rfl rfl rfl rfl separates
  | _, .int n, _, separates => words_intText n.toInt separates
  | _, .float x, _, separates => words_floatText x separates
  | _, .string s, tail, _ => words_stringText s tail
  | _, .array [], tail, _ =>
      (words_mark (by simp) _).trans (congrArg _ (words_mark (by simp) tail))
  | depth, .array (item :: rest), tail, _ => by
      simp only [indented, spelling, itemsSpelling, List.append_assoc, List.cons_append]
      rw [words_mark (by simp), words_newline,
        words_indented (depth + 1) item (separates_indentedItems depth rest tail),
        words_indentedItems depth rest tail]
  | _, .object [], tail, _ =>
      (words_mark (by simp) _).trans (congrArg _ (words_mark (by simp) tail))
  | depth, .object ((key, v) :: rest), tail, _ => by
      simp only [indented, spelling, entriesSpelling, List.append_assoc, List.cons_append]
      rw [words_mark (by simp), words_newline, words_stringText, words_mark (by simp),
        words_blank rfl, words_indented (depth + 1) v (separates_indentedEntries depth rest tail),
        words_indentedEntries depth rest tail]
termination_by structural _ json => json

theorem words_indentedItems : ∀ (depth : Nat) (items : List Json) (tail : List Char),
    words (indentedItems depth items ++ tail) = moreItemsSpelling items ++ words tail
  | depth, [], tail => by
      rw [indentedItems, List.append_assoc, words_newline, moreItemsSpelling]
      exact words_mark (by simp) tail
  | depth, item :: rest, tail => by
      simp only [indentedItems, moreItemsSpelling, List.append_assoc, List.cons_append]
      rw [words_mark (by simp), words_newline,
        words_indented (depth + 1) item (separates_indentedItems depth rest tail),
        words_indentedItems depth rest tail]
termination_by structural _ items => items

theorem words_indentedEntries : ∀ (depth : Nat) (entries : List (String × Json))
    (tail : List Char),
    words (indentedEntries depth entries ++ tail) = moreEntriesSpelling entries ++ words tail
  | depth, [], tail => by
      rw [indentedEntries, List.append_assoc, words_newline, moreEntriesSpelling]
      exact words_mark (by simp) tail
  | depth, (key, v) :: rest, tail => by
      simp only [indentedEntries, moreEntriesSpelling, List.append_assoc, List.cons_append]
      rw [words_mark (by simp), words_newline, words_stringText, words_mark (by simp),
        words_blank rfl, words_indented (depth + 1) v (separates_indentedEntries depth rest tail),
        words_indentedEntries depth rest tail]
termination_by structural _ entries => entries

end

theorem words_encode (json : Json) : words json.encode.toList = json.spelling := by
  have spelled := words_compact json separates_nil
  rw [List.append_nil, words, List.append_nil] at spelled
  rw [encode, String.toList_ofList, spelled]

theorem words_encodeIndented (json : Json) :
    words json.encodeIndented.toList = json.spelling := by
  have spelled := words_indented 0 json separates_nil
  rw [List.append_nil, words, List.append_nil] at spelled
  rw [encodeIndented, String.toList_ofList, spelled]

end JsonQuery.Json
