import JsonQuery.Proofs.Grammar.Rejection
import JsonQuery.Proofs.Token.Segment

/-!
# Spacing

Blanks between tokens say nothing.  Inserted in front of a token they move it and all that is behind
it, and nothing else: scanning a lexeme looks at one more character at most, and a blank there ends
the lexeme as well as what was there before.  Reading sees positions only where it complains.
-/

set_option autoImplicit false

namespace JsonQuery

open Lexeme

/-- The text with `gap place` in front of character number `place`, and the last gap at its end. The
first character has number `start`. -/
def gapped (gap : Nat → List Char) (start : Nat) : List Char → List Char
  | [] => gap start
  | c :: rest => gap start ++ c :: gapped gap (start + 1) rest

/-- Where character number `place` is behind the gaps up to its own. -/
def moved (gap : Nat → List Char) : Nat → Nat
  | 0 => (gap 0).length
  | place + 1 => moved gap place + 1 + (gap (place + 1)).length

section Gaps

variable {gap : Nat → List Char}

theorem gapped_of_empty {n start : Nat} {text : List Char} (within : n ≤ text.length)
    (empty : ∀ i < n, gap (start + i) = []) :
    gapped gap start text = text.take n ++ gapped gap (start + n) (text.drop n) := by
  induction n generalizing start text with
  | zero => rfl
  | succ n ih =>
      cases text with
      | nil => cases within
      | cons c rest =>
          have none_ : gap start = [] := empty 0 (Nat.succ_pos n)
          have inside : ∀ i < n, gap (start + 1 + i) = [] := by
            intro i lt
            rw [Nat.add_assoc, Nat.add_comm 1]
            exact empty (i + 1) (Nat.succ_lt_succ lt)
          have others := ih (Nat.le_of_succ_le_succ within) inside
          rw [gapped, none_, others, Nat.add_assoc, Nat.add_comm 1]
          rfl

theorem moved_of_empty {n start : Nat} (empty : ∀ i < n, gap (start + 1 + i) = []) :
    moved gap (start + n) = moved gap start + n := by
  induction n with
  | zero => rfl
  | succ n ih =>
      have none_ := empty n (Nat.lt_succ_self n)
      rw [Nat.add_right_comm] at none_
      rw [← Nat.add_assoc, moved, none_, ih fun i inside => empty i (Nat.lt_succ_of_lt inside)]
      rfl

theorem head?_gapped {start : Nat} {text : List Char} :
    ∀ c ∈ (gapped gap start text).head?, c ∈ gap start ∨ text.head? = some c := by
  intro c head
  cases text with
  | nil => exact .inl (List.mem_of_mem_head? head)
  | cons d rest =>
      rw [gapped, List.head?_append] at head
      cases own : (gap start).head? with
      | none =>
          rw [own] at head
          exact .inr head
      | some e =>
          rw [own] at head
          cases head
          exact .inl (List.mem_of_mem_head? own)

end Gaps

/-! ## Scanning -/

theorem Lexeme.behind_of_known {first : Char} {rest tail : List Char}
    (known : (ofSpelling first (rest.take (extent first rest))).kind ≠ .unknown)
    (starts : ∀ c ∈ tail.head?, isBlank c = true ∨
      (rest.drop (extent first rest)).head? = some c) : Behind first rest tail := by
  refine ⟨starts, fun quote open_ => ?_⟩
  obtain ⟨noName, noNumber, -⟩ := isQuote_cases quote
  rw [ofSpelling_unclosed noName noNumber quote open_] at known
  exact absurd rfl known

namespace Token

theorem le_position_of_mem_scan {start : Nat} {text : List Char} {token : Token}
    (found : token ∈ scan start text) : start ≤ token.position := by
  obtain ⟨k, here⟩ := List.mem_iff_getElem?.mp found
  exact (lexemes_take_scan start text k token here).1

/-- The token behind the gaps up to its own. -/
def moved (gap : Nat → List Char) (token : Token) : Token :=
  ⟨token.lexeme, JsonQuery.moved gap token.position⟩

variable {gap : Nat → List Char}

/-- Every gap from `start` on stands in front of a token. -/
def Precede (gap : Nat → List Char) (start : Nat) (tokens : List Token) : Prop :=
  ∀ place, start ≤ place → gap place ≠ [] → ∃ token ∈ tokens, token.position = place

theorem Precede.eq_nil {start first : Nat} {text : List Char}
    (precede : Precede gap start (scan first text)) {place : Nat} (later : start ≤ place)
    (before : place < first) : gap place = [] := by
  by_contra some_
  obtain ⟨token, found, position⟩ := precede place later some_
  have behind := le_position_of_mem_scan found
  omega

theorem Precede.mono {start later : Nat} {tokens : List Token}
    (precede : Precede gap start tokens) (le : start ≤ later) : Precede gap later tokens :=
  fun place from_ => precede place (Nat.le_trans le from_)

theorem Precede.tail {start : Nat} {lexeme : Lexeme} {tokens : List Token}
    (precede : Precede gap start (⟨lexeme, start⟩ :: tokens)) :
    Precede gap (start + 1) tokens := by
  intro place later some_
  obtain ⟨token, found, position⟩ := precede place (Nat.le_of_succ_le later) some_
  obtain rfl | found := List.mem_cons.mp found
  · exact absurd position (Nat.ne_of_lt later)
  · exact ⟨token, found, position⟩

/-- With blanks in front of its tokens a text has the same lexemes in the places that the blanks
leave to them. -/
theorem scan_gapped (blank : ∀ place, ∀ c ∈ gap place, isBlank c = true) {start : Nat}
    {text : List Char} (start' : Nat) (precede : Precede gap start (scan start text))
    (known : ∀ token ∈ scan start text, token.kind ≠ .unknown)
    (same : start' + (gap start).length = JsonQuery.moved gap start) :
    scan start' (gapped gap start text) = (scan start text).map (moved gap) := by
  fun_induction scan start text generalizing start' with
  | case1 start => exact (scan_blanks start' (blank start)).trans (by rw [same]; rfl)
  | case2 start c rest space ih =>
      have none_ : gap start = [] := precede.eq_nil (Nat.le_refl start) (Nat.lt_succ_self start)
      rw [none_, List.length_nil] at same
      rw [gapped, none_, List.nil_append, scan, if_pos space]
      refine ih (start' + 1) (precede.mono (Nat.le_succ start)) known ?_
      rw [JsonQuery.moved, ← same, Nat.add_zero]
  | case3 start c rest notBlank n ih =>
      have visible := Bool.eq_false_iff.mpr notBlank
      have within : n ≤ rest.length := extent_le c rest
      have size : (rest.take n).length = n := length_take_extent c rest
      -- no token stands inside of the lexeme, so nothing is inserted there
      have others : Precede gap (start + 1) (scan (start + 1 + n) (rest.drop n)) := precede.tail
      have empty : ∀ i < n, gap (start + 1 + i) = [] := fun i inside =>
        others.eq_nil (Nat.le_add_right _ _) (Nat.add_lt_add_left inside _)
      have behind : Behind c rest (gapped gap (start + 1 + n) (rest.drop n)) := by
        refine behind_of_known (known _ List.mem_cons_self) fun d head => ?_
        exact (head?_gapped d head).imp_left (blank _ d)
      have long : extent c (rest.take n ++ gapped gap (start + 1 + n) (rest.drop n)) = n :=
        extent_take_append behind
      have stop : JsonQuery.moved gap start + 1 + n + (gap (start + 1 + n)).length =
          JsonQuery.moved gap (start + 1 + n) := by
        rw [Nat.add_right_comm start, JsonQuery.moved, moved_of_empty empty]
        omega
      have following := ih (JsonQuery.moved gap start + 1 + n)
        (others.mono (Nat.le_add_right _ _))
        (fun token found => known token (List.mem_cons_of_mem _ found)) stop
      rw [gapped, scan_blanks_append start' (blank start), gapped_of_empty within empty,
        scan_cons _ visible, long, List.take_left' size, List.drop_left' size, same, following]
      rfl

end Token

/-! ## Reading -/

open Grammar

theorem Grammar.Stops.map {lenient : Bool} {state : State} {tokens : List Token} {k : Nat}
    {token : Token} {rejection : Rejection} (stops : Stops lenient state tokens k token rejection)
    {f : Token → Token} (keeps : ∀ token, (f token).lexeme = token.lexeme) :
    Stops lenient state (tokens.map f) k (f token) rejection := by
  obtain ⟨here, last, walked, rejected⟩ := stops
  have same : ((tokens.map f).take k).map Token.lexeme = (tokens.take k).map Token.lexeme := by
    rw [← List.map_take, List.map_map]
    exact List.map_congr_left fun token _ => keeps token
  refine ⟨by rw [List.getElem?_map, here]; rfl, last, ?_, ?_⟩
  · rw [same, walked]
  · rw [keeps, rejected]

/-- Blanks to insert into a text, all of them in front of its tokens. -/
structure Spacing (text : String) where
  gap : Nat → List Char
  blank : ∀ place, ∀ c ∈ gap place, isBlank c = true
  precedes : ∀ place, gap place ≠ [] → ∃ token ∈ tokenize text, token.position = place

namespace Spacing

variable {text : String}

/-- The text with the blanks. -/
def apply (spacing : Spacing text) : String :=
  String.ofList (gapped spacing.gap 0 text.toList)

/-- The same error about the text with the blanks. -/
def error (spacing : Spacing text) : Error → Error
  | .malformed complaint _ position =>
      .malformed complaint spacing.apply (moved spacing.gap position)
  | other => other

variable (spacing : Spacing text)

theorem tokenize_apply (known : ∀ token ∈ tokenize text, token.kind ≠ .unknown) :
    tokenize spacing.apply = (tokenize text).map (Token.moved spacing.gap) := by
  rw [tokenize, apply, String.toList_ofList]
  refine Token.scan_gapped spacing.blank 0 (fun place _ => spacing.precedes place) known ?_
  rw [moved, Nat.zero_add]

/-- The blanks do not change what the tokens are. -/
theorem lexemes_apply (known : ∀ token ∈ tokenize text, token.kind ≠ .unknown) :
    lexemes spacing.apply.toList = lexemes text.toList := by
  have same : (tokenize spacing.apply).map Token.lexeme = (tokenize text).map Token.lexeme := by
    rw [spacing.tokenize_apply known, List.map_map]
    rfl
  rw [tokenize, tokenize, scan_eq, scan_eq] at same
  exact List.append_cancel_right same

theorem error_toError (rejection : Rejection) (token : Token) :
    spacing.error (rejection.toError ⟨text, token, []⟩) =
      rejection.toError ⟨spacing.apply, token.moved spacing.gap, []⟩ := by
  cases rejection <;> rfl

theorem parse_apply (known : ∀ token ∈ tokenize text, token.kind ≠ .unknown) (parser : Parser) :
    parser.parse spacing.apply = (parser.parse text).mapError spacing.error := by
  have tokens := spacing.tokenize_apply known
  cases read : parser.parse text with
  | error error =>
      obtain ⟨k, token, rejection, stops, rfl⟩ := parse_eq_error.mp read
      have stops' := stops.map (f := Token.moved spacing.gap) fun token => rfl
      rw [← tokens] at stops'
      exact parse_eq_error.mpr
        ⟨k, _, rejection, stops', spacing.error_toError rejection token⟩
  | ok query =>
      rw [parse_eq_ok, ← spacing.lexemes_apply known] at read
      exact parse_eq_ok.mpr read

end Spacing

/-- Blanks in front of known tokens move the tokens and do nothing else.  The text is read as the
same query as without them, or with the same fault at the token of the same number. -/
theorem spacing_irrelevant {text : String} (spacing : Spacing text)
    (known : ∀ token ∈ tokenize text, token.kind ≠ .unknown) :
    tokenize spacing.apply = (tokenize text).map (Token.moved spacing.gap) ∧
      ∀ parser : Parser,
        parser.parse spacing.apply = (parser.parse text).mapError spacing.error ∧
        ∀ complaint whole position,
          parser.parse text = .error (.malformed complaint whole position) →
            ∃ (k : Nat) (lexeme : Lexeme) (position' : Nat),
              (tokenize text)[k]? = some ⟨lexeme, position⟩ ∧
              (tokenize spacing.apply)[k]? = some ⟨lexeme, position'⟩ ∧
              parser.parse spacing.apply =
                .error (.malformed complaint spacing.apply position') := by
  have tokens := spacing.tokenize_apply known
  refine ⟨tokens, fun parser => ⟨spacing.parse_apply known parser, ?_⟩⟩
  intro complaint whole position failed
  obtain ⟨k, ⟨lexeme, place⟩, rejection, ⟨here, -⟩, same⟩ := parse_eq_error.mp failed
  obtain ⟨rfl, rfl⟩ : text = whole ∧ position = place := by
    cases rejection <;> cases same
    exact ⟨rfl, rfl⟩
  refine ⟨k, lexeme, moved spacing.gap position, here, ?_, ?_⟩
  · rw [tokens, List.getElem?_map, here]
    rfl
  · rw [spacing.parse_apply known, failed]
    rfl

theorem tokenize_unclosedList : tokenize "[a b" =
    [⟨.lbracket, 0⟩, ⟨.identifier "a", 1⟩, ⟨.identifier "b", 3⟩, ⟨.eof, 4⟩] := by
  cbv

/-- Blanks in front of an item of a list that is not closed, and at its end. -/
def unclosedListSpacing : Spacing "[a b" where
  gap place := if place = 3 then ['\t', '\n'] else if place = 4 then ['\r'] else []
  blank := by
    intro place c found
    split_ifs at found <;> simp only [List.mem_cons, List.not_mem_nil, or_false] at found
    · rcases found with rfl | rfl <;> rfl
    · rw [found]
      rfl
  precedes := by
    intro place some_
    rw [tokenize_unclosedList]
    split_ifs at some_ with item stop
    · exact ⟨⟨.identifier "b", 3⟩, by simp, item.symm⟩
    · exact ⟨⟨.eof, 4⟩, by simp, stop.symm⟩
    · exact absurd rfl some_

theorem spacing_irrelevant_unclosed_list :
    (∀ token ∈ tokenize "[a b", token.kind ≠ .unknown) ∧
      unclosedListSpacing.apply = "[a \t\nb\r" ∧
      tokenize "[a \t\nb\r" =
        [⟨.lbracket, 0⟩, ⟨.identifier "a", 1⟩, ⟨.identifier "b", 5⟩, ⟨.eof, 7⟩] ∧
      (Parser.mk false).parse "[a b" =
        .error (.malformed (.badListEnd (.identifier "b")) "[a b" 3) ∧
      (Parser.mk false).parse "[a \t\nb\r" =
        .error (.malformed (.badListEnd (.identifier "b")) "[a \t\nb\r" 5) ∧
      ∃ (k : Nat) (lexeme : Lexeme) (position' : Nat),
        (tokenize "[a b")[k]? = some ⟨lexeme, 3⟩ ∧
        (tokenize "[a \t\nb\r")[k]? = some ⟨lexeme, position'⟩ := by
  have known : ∀ token ∈ tokenize "[a b", token.kind ≠ .unknown := by
    rw [tokenize_unclosedList]
    decide
  have spelled : unclosedListSpacing.apply = "[a \t\nb\r" := by decide
  have failed : (Parser.mk false).parse "[a b" =
      .error (.malformed (.badListEnd (.identifier "b")) "[a b" 3) := by cbv
  obtain ⟨tokens, read⟩ := spacing_irrelevant unclosedListSpacing known
  obtain ⟨failed', located⟩ := read ⟨false⟩
  obtain ⟨k, lexeme, position', here, there, -⟩ := located _ _ _ failed
  rw [spelled] at tokens there
  rw [failed, Except.mapError, Spacing.error, spelled] at failed'
  exact ⟨known, spelled, tokens.trans (by rw [tokenize_unclosedList]; rfl), failed, failed', k,
    lexeme, position', here, there⟩

end JsonQuery
