import JsonQuery.Json.Decode
import JsonQuery.Json.Encode
import JsonQuery.Proofs.Token.Delimited
import Mathlib.Data.List.TakeWhile
import Mathlib.Tactic.SplitIfs

/-!
# Backslashes in JSON text

In a text that decodes, backslashes stand in strings only and each escapes a character, which is no
backtick.  The written form of a string can stand between its quotes, and reads back as that string.
-/

set_option autoImplicit false

namespace JsonQuery.Json

open Text

/-! ## Backslashes in text that decodes -/

theorem ne_escape_of_hexDigit? {c : Char} {n : Nat} (read : hexDigit? c = some n) : c ≠ '\\' := by
  rintro rfl
  cases read

theorem paired_of_hexWord? {a b c d : Char} {n : Nat} (read : hexWord? a b c d = some n)
    {rest : List Char} (others : Paired '\x60' rest) :
    Paired '\x60' ('\\' :: 'u' :: a :: b :: c :: d :: rest) := by
  refine .escape (by decide) ?_
  simp only [hexWord?] at read
  split at read
  · rename_i first second third fourth
    exact .plain (ne_escape_of_hexDigit? first) (.plain (ne_escape_of_hexDigit? second)
      (.plain (ne_escape_of_hexDigit? third) (.plain (ne_escape_of_hexDigit? fourth) others)))
  · cases read

theorem paired_of_escape? {text : List Char} {plain : Char} {used : Nat}
    (read : escape? text = some (plain, used)) (others : Paired '\x60' (text.drop used)) :
    Paired '\x60' ('\\' :: text) := by
  rw [escape?.eq_def] at read
  split at read
  · split at read
    · cases read
    · rename_i a b c d rest _ n word
      split at read
      · cases read
      · split at read
        · -- a high surrogate takes the escaped low one with it
          split at read
          · split at read
            · cases read
            · rename_i low
              split at read
              · obtain ⟨rfl, rfl⟩ := Prod.mk.inj (Option.some.inj read)
                exact paired_of_hexWord? word (paired_of_hexWord? low others)
              · cases read
          · cases read
        · cases read
          exact paired_of_hexWord? word others
  · rename_i c rest _
    obtain ⟨_, letter, same⟩ := Option.map_eq_some_iff.mp read
    cases same
    refine .escape ?_ others
    rintro rfl
    cases letter
  · cases read

theorem paired_of_unescape? {body text : List Char} (read : unescape? body = some text) :
    Paired '\x60' body := by
  fun_induction unescape? body generalizing text with
  | case1 => exact .nil
  | case2 => cases read
  | case3 rest plain used escaped ih =>
      obtain ⟨others, behind, -⟩ := Option.map_eq_some_iff.mp read
      exact paired_of_escape? escaped (ih behind)
  | case4 => cases read
  | case5 c rest noEscape _ ih =>
      obtain ⟨others, behind, -⟩ := Option.map_eq_some_iff.mp read
      exact .plain noEscape (ih behind)

theorem paired_of_string? {rest : List Char} {s : String}
    (read : string? ('\x22' :: rest) = some s) : Paired '\x60' ('\x22' :: rest) := by
  simp only [string?] at read
  split at read
  · rename_i body found
    obtain ⟨-, rfl⟩ := enclosed_of_delimited? found
    obtain ⟨text, unescaped, -⟩ := Option.map_eq_some_iff.mp read
    exact .plain (by decide) ((paired_of_unescape? unescaped).append (.plain (by decide) .nil))
  · cases read

theorem ne_escape_of_isNumeralChar {c : Char} (numeral : isNumeralChar c = true) : c ≠ '\\' := by
  rintro rfl
  cases numeral

theorem ne_escape_of_isWordChar {c : Char} (word : isWordChar c = true) : c ≠ '\\' := by
  rintro rfl
  cases word

theorem paired_takeWhile {accepts : Char → Bool} (noEscape : ∀ c, accepts c = true → c ≠ '\\')
    (rest : List Char) : Paired '\x60' (rest.take (rest.takeWhile accepts).length) := by
  rw [← List.prefix_iff_eq_take.mp (List.takeWhile_prefix accepts)]
  exact .of_noEscape fun c found => noEscape c (List.mem_takeWhile_imp found)

/-- Outside of strings no symbol has a backslash. -/
theorem paired_of_ofSpelling? {c : Char} {rest : List Char} {symbol : Symbol}
    (read : Symbol.ofSpelling? (c :: rest.take (Symbol.extent c rest)) = some symbol) :
    Paired '\x60' (c :: rest.take (Symbol.extent c rest)) := by
  by_cases quote : c = '\x22'
  · subst quote
    obtain ⟨s, string, -⟩ := Option.map_eq_some_iff.mp read
    exact paired_of_string? string
  · have noEscape : c ≠ '\\' := by
      rintro rfl
      cases read
    refine .plain noEscape ?_
    by_cases numeral : (Numeral.isDigit c || c == '-') = true
    · have extent : Symbol.extent c rest = (rest.takeWhile isNumeralChar).length := by
        simp only [Symbol.extent, if_neg quote, if_pos numeral]
      rw [extent]
      exact paired_takeWhile (fun _ => ne_escape_of_isNumeralChar) rest
    · by_cases word : isWordChar c = true
      · have extent : Symbol.extent c rest = (rest.takeWhile isWordChar).length := by
          simp only [Symbol.extent, if_neg quote, if_neg numeral, if_pos word]
        rw [extent]
        exact paired_takeWhile (fun _ => ne_escape_of_isWordChar) rest
      · have extent : Symbol.extent c rest = 0 := by
          simp only [Symbol.extent, if_neg quote, if_neg numeral, if_neg word]
        rw [extent]
        exact .nil

theorem paired_of_symbols? {text : List Char} {symbols : List Symbol}
    (read : symbols? text = some symbols) : Paired '\x60' text := by
  fun_induction symbols? text generalizing symbols with
  | case1 => exact .nil
  | case2 c rest blank ih =>
      refine .plain ?_ (ih read)
      rintro rfl
      cases blank
  | case3 => cases read
  | case4 c rest _ n symbol spelled =>
      rename_i ih
      obtain ⟨others, behind, -⟩ := Option.map_eq_some_iff.mp read
      have both := (paired_of_ofSpelling? spelled).append (ih behind)
      rwa [List.cons_append, List.take_append_drop] at both

/-- No backslash of a text that decodes stands before a backtick or at the end of the text, unless
another one escapes it. -/
theorem paired_of_decode? {text : String} {json : Json} (read : decode? text = some json) :
    Paired '\x60' text.toList := by
  obtain ⟨symbols, spelled, -⟩ := Option.bind_eq_some_iff.mp read
  exact paired_of_symbols? spelled

/-! ## The written form of a string -/

theorem hexWord?_hexChar {n : Nat} (control : n < 0x20) :
    hexWord? '0' '0' (hexChar (n / 16)) (hexChar (n % 16)) = some n := by
  have all : ∀ n < 0x20, hexWord? '0' '0' (hexChar (n / 16)) (hexChar (n % 16)) = some n := by
    decide
  exact all n control

theorem hexChar_plain {n : Nat} (digit : n < 16) : hexChar n ≠ '\x22' ∧ hexChar n ≠ '\\' := by
  have all : ∀ n < 16, hexChar n ≠ '\x22' ∧ hexChar n ≠ '\\' := by decide
  exact all n digit

/-- A character is written as itself, or behind a backslash as a letter or as its code. -/
theorem charText_cases (c : Char) :
    (c ≠ '\x22' ∧ c ≠ '\\' ∧ ¬c.toNat < 0x20 ∧ charText c = [c]) ∨
      (∃ letter, escaped? letter = some c ∧ charText c = ['\\', letter]) ∨
      (c.toNat < 0x20 ∧
        charText c = ['\\', 'u', '0', '0', hexChar (c.toNat / 16), hexChar (c.toNat % 16)]) := by
  simp only [charText]
  split_ifs with quote escape backspace feed line return_ tab control
  · exact .inr (.inl ⟨'\x22', by rw [quote]; rfl, rfl⟩)
  · exact .inr (.inl ⟨'\\', by rw [escape]; rfl, rfl⟩)
  · exact .inr (.inl ⟨'b', by rw [backspace]; rfl, rfl⟩)
  · exact .inr (.inl ⟨'f', by rw [feed]; rfl, rfl⟩)
  · exact .inr (.inl ⟨'n', by rw [line]; rfl, rfl⟩)
  · exact .inr (.inl ⟨'r', by rw [return_]; rfl, rfl⟩)
  · exact .inr (.inl ⟨'t', by rw [tab]; rfl, rfl⟩)
  · exact .inr (.inr ⟨control, rfl⟩)
  · exact .inl ⟨quote, escape, control, rfl⟩

theorem enclosed_charText (c : Char) {rest : List Char} (others : Enclosed '\x22' rest) :
    Enclosed '\x22' (charText c ++ rest) := by
  rcases charText_cases c with ⟨noQuote, noEscape, -, plain⟩ | ⟨letter, -, escaped⟩ |
    ⟨control, coded⟩
  · rw [plain]
    exact .plain noQuote noEscape others
  · rw [escaped]
    exact .escape (by decide) letter others
  · have high := hexChar_plain (n := c.toNat / 16) (by omega)
    have low := hexChar_plain (n := c.toNat % 16) (by omega)
    rw [coded]
    exact .escape (by decide) 'u' (.plain (by decide) (by decide) (.plain (by decide) (by decide)
      (.plain high.1 high.2 (.plain low.1 low.2 others))))

theorem enclosed_flatMap_charText (text : List Char) :
    Enclosed '\x22' (text.flatMap charText) := by
  induction text with
  | nil => exact .nil
  | cons c rest ih =>
      rw [List.flatMap_cons]
      exact enclosed_charText c ih

theorem escape?_letter {letter c : Char} (letters : escaped? letter = some c)
    (rest : List Char) : escape? (letter :: rest) = some (c, 1) := by
  have noCode : letter ≠ 'u' := by
    rintro rfl
    cases letters
  rw [escape?.eq_def]
  split
  · rename_i same
    exact absurd (List.cons.inj same).1 noCode
  · rename_i same
    obtain ⟨rfl, rfl⟩ := List.cons.inj same
    rw [letters]
    rfl
  · rename_i same
    cases same

theorem escape?_code {c : Char} (control : c.toNat < 0x20) (rest : List Char) :
    escape? ('u' :: '0' :: '0' :: hexChar (c.toNat / 16) :: hexChar (c.toNat % 16) :: rest) =
      some (c, 5) := by
  have low : isLowSurrogate c.toNat = false := by
    simp only [isLowSurrogate, Bool.and_eq_false_iff, decide_eq_false_iff_not]
    omega
  have high : isHighSurrogate c.toNat = false := by
    simp only [isHighSurrogate, Bool.and_eq_false_iff, decide_eq_false_iff_not]
    omega
  simp only [escape?, hexWord?_hexChar control, low, high, Bool.false_eq_true, if_false,
    Char.ofNat_toNat]

theorem unescape?_escape {text : List Char} {plain : Char} {used : Nat}
    (read : escape? text = some (plain, used)) :
    unescape? ('\\' :: text) = (unescape? (text.drop used)).map (plain :: ·) := by
  rw [unescape?]
  simp only [if_true, read]

theorem unescape?_charText (c : Char) (rest : List Char) :
    unescape? (charText c ++ rest) = (unescape? rest).map (c :: ·) := by
  rcases charText_cases c with ⟨-, noEscape, noControl, plain⟩ | ⟨letter, letters, escaped⟩ |
    ⟨control, coded⟩
  · rw [plain, List.cons_append, List.nil_append, unescape?, if_neg noEscape, if_neg noControl]
  · rw [escaped]
    exact unescape?_escape (escape?_letter letters rest)
  · rw [coded]
    exact unescape?_escape (escape?_code control rest)

theorem unescape?_flatMap_charText (text : List Char) :
    unescape? (text.flatMap charText) = some text := by
  induction text with
  | nil => rw [List.flatMap_nil, unescape?]
  | cons c rest ih => rw [List.flatMap_cons, unescape?_charText, ih, Option.map_some]

theorem string?_stringText (s : String) : string? (stringText s) = some s := by
  simp only [stringText, string?, (enclosed_flatMap_charText s.toList).delimited? [],
    unescape?_flatMap_charText, Option.map_some, String.ofList_toList]

end JsonQuery.Json
