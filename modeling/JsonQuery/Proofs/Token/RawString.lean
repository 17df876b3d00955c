import JsonQuery.Proofs.Token.Quotation

/-!
# Raw strings

Between the marks of a raw string a backslash protects whatever is behind it, but only the one in
front of a mark is taken away.  So backslashes in front of a mark, and at the end, are left in pairs,
and these are the strings that can be written raw: it is enough to protect their marks.
-/

set_option autoImplicit false

namespace JsonQuery

namespace Text

variable {mark : Char} {text : List Char}

/-- A run of backslashes has even length if a mark or the end of the text is directly behind it and
it does not go on to the left. -/
def EvenRuns (mark : Char) (text : List Char) : Prop :=
  ∀ (before after : List Char) (n : Nat), text = before ++ (List.replicate n '\\' ++ after) →
    before.getLast? ≠ some '\\' → (∀ c ∈ after.head?, c = mark) → n % 2 = 0

/-! ## Runs and pairs -/

theorem EvenRuns.of_cons {c : Char} (runs : EvenRuns mark (c :: text)) (noEscape : c ≠ '\\') :
    EvenRuns mark text := by
  intro before after n same start stop
  refine runs (c :: before) after n (by rw [same, List.cons_append]) ?_ stop
  rw [List.getLast?_cons]
  cases last : before.getLast? with
  | none => simpa using noEscape
  | some d => rwa [last] at start

/-- A run at the start of the text is two longer behind two more backslashes. -/
theorem EvenRuns.of_escape {c : Char} (runs : EvenRuns mark ('\\' :: c :: text)) :
    EvenRuns mark text := by
  intro before after n same start stop
  by_cases run : before = [] ∧ c = '\\'
  · obtain ⟨rfl, rfl⟩ := run
    have longer := runs [] after (n + 2) (by simp [same, List.replicate_succ]) (by simp) stop
    omega
  · refine runs ('\\' :: c :: before) after n (by rw [same]; rfl) ?_ stop
    rw [List.getLast?_cons, List.getLast?_cons]
    cases last : before.getLast? with
    | none =>
        have other : c ≠ '\\' := fun escape => run ⟨List.getLast?_eq_none_iff.mp last, escape⟩
        simpa using other
    | some d => rwa [last] at start

theorem EvenRuns.paired : ∀ {text : List Char}, EvenRuns mark text → Paired mark text
  | [], _ => .nil
  | [c], runs => by
      refine .plain ?_ .nil
      rintro rfl
      have odd := runs [] [] 1 rfl (by simp) (by simp)
      omega
  | c :: d :: rest, runs => by
      by_cases escape : c = '\\'
      · subst escape
        refine .escape ?_ runs.of_escape.paired
        rintro rfl
        have odd := runs [] (d :: rest) 1 rfl (by simp) (by simp)
        omega
      · exact .plain escape (runs.of_cons escape).paired

theorem Paired.evenRuns (paired : Paired mark text) : EvenRuns mark text := by
  induction paired with
  | nil =>
      intro before after n same start stop
      have empty := congrArg List.length same
      simp only [List.length_nil, List.length_append, List.length_replicate] at empty
      omega
  | @escape c noMark rest others ih =>
      intro before after n same start stop
      match before with
      | [] =>
          match n with
          | 0 => rfl
          | 1 =>
              obtain ⟨-, rfl⟩ := List.cons.inj same
              exact absurd (stop c rfl) noMark
          | n + 2 =>
              simp only [List.nil_append, List.replicate_succ, List.cons_append,
                List.cons.injEq] at same
              have shorter := ih [] after n same.2.2 start stop
              omega
      | [b] =>
          obtain ⟨rfl, -⟩ := List.cons.inj same
          exact absurd rfl start
      | b :: b' :: before =>
          simp only [List.cons_append, List.cons.injEq] at same
          refine ih before after n same.2.2 ?_ stop
          intro last
          rw [List.getLast?_cons, List.getLast?_cons, last] at start
          exact start rfl
  | @plain c noEscape rest others ih =>
      intro before after n same start stop
      match before with
      | [] =>
          match n with
          | 0 => rfl
          | n + 1 =>
              obtain ⟨escape, -⟩ := List.cons.inj same
              exact absurd escape noEscape
      | b :: before =>
          simp only [List.cons_append, List.cons.injEq] at same
          refine ih before after n same.2 ?_ stop
          intro last
          rw [List.getLast?_cons, last] at start
          exact start rfl

/-! ## Enclosed text without its protection -/

theorem Enclosed.head?_ne (enclosed : Enclosed mark text) : text.head? ≠ some mark := by
  cases enclosed with
  | nil => simp
  | escape differs c others => simpa using differs
  | plain noMark noEscape others => simpa using noMark

/-- Of the backslashes that protect something, only those in front of marks are taken away. -/
theorem Enclosed.paired_unprotect (enclosed : Enclosed mark text) :
    Paired mark (unprotect mark text) := by
  induction enclosed with
  | nil => exact .nil
  | @escape differs c rest others ih =>
      by_cases same : c = mark
      · rw [same, unprotect, if_pos ⟨rfl, rfl⟩]
        exact .plain differs.symm ih
      · have first : (c :: rest).head? ≠ some mark := by simpa using same
        rw [unprotect_cons fun _ => first, unprotect_cons fun _ => others.head?_ne]
        exact .escape same ih
  | @plain c noMark noEscape rest others ih =>
      rw [unprotect_cons fun escape => absurd escape noEscape]
      exact .plain noEscape ih

end Text

/-! ## Strings between marks -/

open Lexeme

/-- A text that starts with a mark and is one string encloses that string. -/
theorem exists_enclosed_of_lexemes {text s : String} (starts : text.toList.head? = some '\x27')
    (read : (tokenize text).map Token.lexeme = [.literal (.string s), .eof]) :
    ∃ body, Text.Enclosed '\x27' body ∧ s.toList = Text.unprotect '\x27' body := by
  obtain ⟨rest, spelled⟩ := List.head?_eq_some_iff.mp starts
  rw [tokenize, spelled, Token.scan_cons 0 rfl, List.map_cons] at read
  have first : ofSpelling '\x27' (rest.take (extent '\x27' rest)) = .literal (.string s) :=
    (List.cons.inj read).1
  have spells := spells_ofSpelling '\x27' rest
  rw [first] at spells
  generalize rest.take (extent '\x27' rest) = taken at spells
  cases spells with
  | quoted quote enclosed decodes =>
      cases decodes
      exact ⟨_, enclosed, String.toList_ofList⟩
  | punctuation listed =>
      simp only [ofPunctuation?] at listed
      split at listed <;> cases listed

/-- A string between marks, with its own marks protected. -/
def rawText (s : String) : String :=
  String.ofList ('\x27' :: (Text.protect '\x27' s.toList ++ ['\x27']))

theorem tokenize_rawText {s : String} (runs : Text.EvenRuns '\x27' s.toList) :
    tokenize (rawText s) =
      [⟨.literal (.string s), 0⟩, ⟨.eof, (rawText s).toList.length⟩] := by
  have differs : '\\' ≠ '\x27' := by decide
  have enclosed := runs.paired.enclosed_protect differs
  have decodes : ofQuoted? '\x27' (Text.protect '\x27' s.toList) = some (.literal (.string s)) := by
    have restored := Text.unprotect_protect differs s.toList
    simp only [ofQuoted?, if_true, ofRawString, restored, String.ofList_toList]
  rw [rawText, String.toList_ofList]
  exact tokenize_quoted rfl enclosed decodes

/-- A string can be written raw exactly if its runs of backslashes in front of marks and at its end
have even length, and then it is enough to protect its marks. -/
theorem raw_strings (s : String) :
    ((∃ text : String, text.toList.head? = some '\x27' ∧
        (tokenize text).map Token.lexeme = [.literal (.string s), .eof]) ↔
      Text.EvenRuns '\x27' s.toList) ∧
    (Text.EvenRuns '\x27' s.toList →
      (rawText s).toList.head? = some '\x27' ∧
        tokenize (rawText s) =
          [⟨.literal (.string s), 0⟩, ⟨.eof, (rawText s).toList.length⟩]) := by
  have written (runs : Text.EvenRuns '\x27' s.toList) :
      (rawText s).toList.head? = some '\x27' ∧ tokenize (rawText s) =
        [⟨.literal (.string s), 0⟩, ⟨.eof, (rawText s).toList.length⟩] := by
    refine ⟨?_, tokenize_rawText runs⟩
    rw [rawText, String.toList_ofList, List.head?_cons]
  refine ⟨⟨?_, ?_⟩, written⟩
  · rintro ⟨text, starts, read⟩
    obtain ⟨body, enclosed, same⟩ := exists_enclosed_of_lexemes starts read
    rw [same]
    exact enclosed.paired_unprotect.evenRuns
  · intro runs
    obtain ⟨starts, tokens⟩ := written runs
    exact ⟨rawText s, starts, by rw [tokens]; rfl⟩

theorem raw_strings_runs :
    Text.EvenRuns '\x27' "\\\\\x27\\n".toList ∧
      rawText "\\\\\x27\\n" = "\x27\\\\\\\x27\\n\x27" ∧
      tokenize (rawText "\\\\\x27\\n") =
        [⟨.literal (.string "\\\\\x27\\n"), 0⟩, ⟨.eof, 8⟩] ∧
      ¬Text.EvenRuns '\x27' "a\\".toList ∧
      ¬∃ text : String, text.toList.head? = some '\x27' ∧
        (tokenize text).map Token.lexeme = [.literal (.string "a\\"), .eof] := by
  have read : (tokenize "\x27\\\\\\\x27\\n\x27").map Token.lexeme =
      [.literal (.string "\\\\\x27\\n"), .eof] := by cbv
  have runs := (raw_strings "\\\\\x27\\n").1.mp ⟨_, rfl, read⟩
  have odd : ¬Text.EvenRuns '\x27' "a\\".toList := by
    intro even
    cases even ['a'] [] 1 rfl (by decide) (by simp)
  have written := ((raw_strings "\\\\\x27\\n").2 runs).2
  exact ⟨runs, by cbv, written, odd, fun found => odd ((raw_strings "a\\").1.mp found)⟩

end JsonQuery
