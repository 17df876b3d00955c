import JsonQuery.Proofs.Grammar.Inside
import JsonQuery.Proofs.Grammar.Transition

/-!
# Where reading stops

Reading stops at the first token that is rejected, and with an error that only the tokens up to this
one decide.  A complaint names the place of that token.
-/

set_option autoImplicit false

namespace JsonQuery

namespace Grammar

/-- The tokens before number `k` are accepted, and this one is rejected. -/
def Stops (lenient : Bool) (state : State) (tokens : List Token) (k : Nat) (token : Token)
    (rejection : Rejection) : Prop :=
  tokens[k]? = some token ∧
    ∃ last, walk lenient state ((tokens.take k).map Token.lexeme) = .ok last ∧
      last.step lenient token.lexeme = .error rejection

variable {lenient : Bool} {state : State} {token found : Token} {rest : List Token} {k : Nat}
  {rejection : Rejection}

theorem Stops.cons {next : State} (accepted : state.step lenient token.lexeme = .ok next)
    (stops : Stops lenient next rest k found rejection) :
    Stops lenient state (token :: rest) (k + 1) found rejection := by
  obtain ⟨here, last, walked, rejected⟩ := stops
  refine ⟨here, last, ?_, rejected⟩
  rw [List.take_succ_cons, List.map_cons, walk_cons_of_step accepted, walked]

theorem Stops.of_agrees {tokens tokens' : List Token}
    (stops : Stops lenient state tokens k found rejection)
    (agrees : ∀ i ≤ k, tokens'[i]? = tokens[i]?) :
    Stops lenient state tokens' k found rejection := by
  obtain ⟨here, last, walked, rejected⟩ := stops
  have before : tokens'.take k = tokens.take k := by
    apply List.ext_getElem?
    intro i
    rw [List.getElem?_take, List.getElem?_take]
    split
    · exact agrees i (by omega)
    · rfl
  exact ⟨(agrees k (Nat.le_refl k)).trans here, last, before ▸ walked, rejected⟩

theorem toError_eq (text : String) (token : Token) (rest rest' : List Token)
    (rejection : Rejection) :
    rejection.toError ⟨text, token, rest⟩ = rejection.toError ⟨text, token, rest'⟩ := by
  cases rejection <;> rfl

theorem run_of_stops {text : String} (stops : Stops lenient state (token :: rest) k found rejection) :
    run lenient state text token rest = .error (rejection.toError ⟨text, found, []⟩) := by
  induction rest generalizing state token k with
  | nil =>
      obtain ⟨here, last, walked, rejected⟩ := stops
      cases k with
      | zero =>
          cases here
          cases walked
          rw [run, rejected]
      | succ k => cases here
  | cons following rest ih =>
      obtain ⟨here, last, walked, rejected⟩ := stops
      cases k with
      | zero =>
          cases here
          cases walked
          rw [run, rejected]
          exact congrArg Except.error (toError_eq _ _ _ _ _)
      | succ k =>
          rw [List.take_succ_cons, List.map_cons, walk_cons] at walked
          obtain ⟨next, accepted, walked⟩ := bind_eq_ok walked
          rw [run, accepted]
          exact ih ⟨here, last, walked, rejected⟩

/-- Tokens that end with the end of the text are either accepted or stopped at. -/
theorem exists_stops {text : String} {error : Error}
    (ended : ∃ stop, (token :: rest).getLast? = some ⟨.eof, stop⟩)
    (failed : run lenient state text token rest = .error error) :
    ∃ k found rejection, Stops lenient state (token :: rest) k found rejection ∧
      error = rejection.toError ⟨text, found, []⟩ := by
  induction rest generalizing state token with
  | nil =>
      obtain ⟨stop, last⟩ := ended
      cases last
      rw [run] at failed
      cases stepped : state.step lenient .eof with
      | error rejection =>
          rw [stepped] at failed
          cases failed
          exact ⟨0, _, rejection, ⟨rfl, state, rfl, stepped⟩, rfl⟩
      | ok next =>
          -- the end of the text is accepted only behind a complete expression
          obtain ⟨query, rfl, -⟩ := step_end stepped
          rw [stepped] at failed
          cases failed
  | cons following rest ih =>
      rw [run] at failed
      cases stepped : state.step lenient token.lexeme with
      | error rejection =>
          rw [stepped] at failed
          cases failed
          exact ⟨0, token, rejection, ⟨rfl, state, rfl, stepped⟩, toError_eq _ _ _ _ _⟩
      | ok next =>
          rw [stepped] at failed
          rw [List.getLast?_cons_cons] at ended
          obtain ⟨k, found, rejection, stops, same⟩ := ih ended failed
          exact ⟨k + 1, found, rejection, stops.cons stepped, same⟩

end Grammar

open Grammar

theorem Token.position_le_of_mem_scan (position : Nat) (text : List Char) :
    ∀ token ∈ scan position text, token.position ≤ position + text.length := by
  fun_induction scan position text with
  | case1 position =>
      intro token found
      obtain rfl := List.mem_singleton.mp found
      exact Nat.le_add_right _ _
  | case2 position c rest _ ih =>
      intro token found
      have le := ih token found
      rw [List.length_cons]
      omega
  | case3 position c rest _ n ih =>
      intro token found
      rw [List.length_cons]
      obtain rfl | found := List.mem_cons.mp found
      · exact Nat.le_add_right _ _
      · have le := ih token found
        have within : n ≤ rest.length := Lexeme.extent_le c rest
        rw [List.length_drop] at le
        omega

variable {parser : Parser} {text : String}

theorem parse_eq_error {error : Error} :
    parser.parse text = .error error ↔
      ∃ k found rejection, Stops parser.lenient .start (tokenize text) k found rejection ∧
        error = rejection.toError ⟨text, found, []⟩ := by
  obtain ⟨token, rest, tokens⟩ := tokenize_eq_cons text
  have ended := Token.scan_getLast? 0 text.toList
  rw [← tokenize, tokens] at ended
  rw [Parser.parse_eq_run parser tokens, tokens]
  constructor
  · exact exists_stops ended
  · rintro ⟨k, found, rejection, stops, rfl⟩
    exact run_of_stops stops

/-- Whatever text has the same tokens up to the one that is rejected is rejected there too. -/
theorem parse_of_agrees {k : Nat} {found : Token} {rejection : Rejection}
    (stops : Stops parser.lenient .start (tokenize text) k found rejection) (text' : String)
    (agrees : ∀ i ≤ k, (tokenize text')[i]? = (tokenize text)[i]?) :
    parser.parse text' = .error (rejection.toError ⟨text', found, []⟩) :=
  parse_eq_error.mpr ⟨k, found, rejection, stops.of_agrees agrees, rfl⟩

/-- Both texts have the same tokens up to number `k`. -/
def AgreeUpTo (k : Nat) (text text' : String) : Prop :=
  ∀ i ≤ k, (tokenize text')[i]? = (tokenize text)[i]?

/-- The tokens that have been read when an error is raised decide it.  A complaint is about the last
of these and names its place; the other errors are raised by the token that closes the arguments of
the function or the brackets of the slice, when all tokens before it have been accepted. -/
theorem error_of_tokens_read (parser : Parser) (text : String) :
    (∀ complaint whole position,
      parser.parse text = .error (.malformed complaint whole position) →
        whole = text ∧ position ≤ text.toList.length ∧
          ∃ k token, (tokenize text)[k]? = some token ∧ token.position = position ∧
            ∀ text', AgreeUpTo k text text' →
              parser.parse text' = .error (.malformed complaint text' position)) ∧
      (∀ name, parser.parse text = .error (.unknownFunction name) →
        ∃ k position last, (tokenize text)[k]? = some ⟨.rparen, position⟩ ∧
          walk parser.lenient .start (((tokenize text).take k).map Token.lexeme) = .ok last ∧
          ∀ text', AgreeUpTo k text text' → parser.parse text' = .error (.unknownFunction name)) ∧
      (parser.parse text = .error .zeroStep →
        ∃ k position last, (tokenize text)[k]? = some ⟨.rbracket, position⟩ ∧
          walk parser.lenient .start (((tokenize text).take k).map Token.lexeme) = .ok last ∧
          ∀ text', AgreeUpTo k text text' → parser.parse text' = .error .zeroStep) := by
  refine ⟨fun complaint whole position failed => ?_, fun name failed => ?_, fun failed => ?_⟩
  · obtain ⟨k, ⟨lexeme, place⟩, rejection, stops, same⟩ := parse_eq_error.mp failed
    cases rejection with
    | complaint c =>
        cases same
        have within := Token.position_le_of_mem_scan 0 text.toList _
          (List.mem_of_getElem? stops.1)
        rw [Nat.zero_add] at within
        exact ⟨rfl, within, k, _, stops.1, rfl, parse_of_agrees stops⟩
    | unknownFunction name => cases same
    | zeroStep => cases same
  · obtain ⟨k, ⟨lexeme, place⟩, rejection, stops, same⟩ := parse_eq_error.mp failed
    obtain ⟨here, last, walked, rejected⟩ := stops
    cases rejection with
    | complaint c => cases same
    | unknownFunction name =>
        cases same
        obtain rfl : lexeme = .rparen := isPlain_of_reject rejected
        exact ⟨k, place, last, here, walked, parse_of_agrees ⟨here, last, walked, rejected⟩⟩
    | zeroStep => cases same
  · obtain ⟨k, ⟨lexeme, place⟩, rejection, stops, same⟩ := parse_eq_error.mp failed
    obtain ⟨here, last, walked, rejected⟩ := stops
    cases rejection with
    | complaint c => cases same
    | unknownFunction name => cases same
    | zeroStep =>
        obtain rfl : lexeme = .rbracket := isPlain_of_reject rejected
        exact ⟨k, place, last, here, walked, parse_of_agrees ⟨here, last, walked, rejected⟩⟩

theorem error_of_tokens_read_item :
    (Parser.mk false).parse "[a b]" =
        .error (.malformed (.badListEnd (.identifier "b")) "[a b]" 3) ∧
      (∃ k token, (tokenize "[a b]")[k]? = some token ∧ token.position = 3 ∧
        ∀ text', AgreeUpTo k "[a b]" text' → (Parser.mk false).parse text' =
          .error (.malformed (.badListEnd (.identifier "b")) text' 3)) ∧
      (Parser.mk false).parse "f(a) b" = .error (.unknownFunction "f") ∧
      (∃ k position last, (tokenize "f(a) b")[k]? = some ⟨.rparen, position⟩ ∧
        walk false .start (((tokenize "f(a) b").take k).map Token.lexeme) = .ok last ∧
        ∀ text', AgreeUpTo k "f(a) b" text' →
          (Parser.mk false).parse text' = .error (.unknownFunction "f")) ∧
      (Parser.mk false).parse "[::0] b" = .error .zeroStep ∧
      ∃ k position last, (tokenize "[::0] b")[k]? = some ⟨.rbracket, position⟩ ∧
        walk false .start (((tokenize "[::0] b").take k).map Token.lexeme) = .ok last ∧
        ∀ text', AgreeUpTo k "[::0] b" text' → (Parser.mk false).parse text' = .error .zeroStep := by
  have item : (Parser.mk false).parse "[a b]" =
      .error (.malformed (.badListEnd (.identifier "b")) "[a b]" 3) := by cbv
  have function : (Parser.mk false).parse "f(a) b" = .error (.unknownFunction "f") := by cbv
  have slice : (Parser.mk false).parse "[::0] b" = .error .zeroStep := by cbv
  exact ⟨item, ((error_of_tokens_read ⟨false⟩ _).1 _ _ _ item).2.2, function,
    (error_of_tokens_read ⟨false⟩ _).2.1 _ function, slice,
    (error_of_tokens_read ⟨false⟩ _).2.2 slice⟩

end JsonQuery
