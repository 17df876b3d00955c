import JsonQuery.Proofs.Grammar.Constructs
import JsonQuery.Proofs.Grammar.Rejection

/-!
# Commas in front of closing brackets

Behind a comma a list, a hash and a call are each in a mode of their own.  Lists and hashes refuse
their closing brackets in it.  Calls do not: a call looks for the end of its arguments before it
looks for an argument, behind a comma as well as behind the opening parenthesis.
-/

set_option autoImplicit false

namespace JsonQuery

open Grammar Lexeme

variable {parser : Parser}

/-! ## Parts with a comma behind each -/

/-- Where the closing mark is a comma, all parts have one behind them. -/
theorem separated_same {α β : Type} (comma : β) (spelling : α → List β) (first : α)
    (rest : List α) :
    separated comma comma ((first :: rest).map spelling) =
      (first :: rest).flatMap fun a => spelling a ++ [comma] := by
  induction rest generalizing first with
  | nil => exact (List.flatMap_singleton _ _).symm
  | cons next rest ih =>
      have others := ih next
      rw [List.map_cons] at others
      rw [List.map_cons, List.map_cons, separated, others, List.flatMap_cons (x := first),
        List.append_assoc, List.singleton_append]

/-- Parts are read one after the other if one part and the comma behind it are. -/
theorem walk_commas {α β : Type} {spelling : α → List Lexeme} {entry : α → β}
    (mode : List β → State)
    (part : ∀ read a rest, walk parser.lenient (mode read) (spelling a ++ .comma :: rest) =
      walk parser.lenient (mode (read ++ [entry a])) rest) (read : List β) (as : List α) :
    walk parser.lenient (mode read) (as.flatMap fun a => spelling a ++ [.comma]) =
      .ok (mode (read ++ as.map entry)) := by
  induction as generalizing read with
  | nil =>
      rw [List.map_nil, List.append_nil]
      rfl
  | cons a as ih =>
      rw [List.flatMap_cons, List.append_assoc, List.singleton_append, part, ih, List.append_assoc,
        List.map_cons, List.singleton_append]

theorem walk_item_comma (context : Context) (read : List Query) (item : Reading parser)
    (rest : List Lexeme) :
    walk parser.lenient ⟨.item read none, context⟩ (item.parenthesized.lexemes ++ .comma :: rest) =
      walk parser.lenient ⟨.item (read ++ [item.query]) none, context⟩ rest := by
  rw [item.lexemes_parenthesized]
  exact walk_grouped item (context.enter (.list read none)) (.comma :: rest)

theorem walk_member_comma (context : Context) (read : List (String × Query)) (pair : Pair parser)
    (rest : List Lexeme) :
    walk parser.lenient ⟨.key read, context⟩ (pair.parenthesized.lexemes ++ .comma :: rest) =
      walk parser.lenient ⟨.key (read ++ [(pair.key.name, pair.value.query)]), context⟩ rest := by
  have value := walk_grouped pair.value (context.enter (.hash read pair.key.name)) (.comma :: rest)
  rw [walk_key, Pair.parenthesized, pair.value.lexemes_parenthesized]
  exact value

theorem walk_argument_comma (context : Context) (function : String) (read : List Query)
    (arg : Reading parser) (rest : List Lexeme) :
    walk parser.lenient ⟨.argument function read, context⟩
        (arg.parenthesized.lexemes ++ .comma :: rest) =
      walk parser.lenient ⟨.argument function (read ++ [arg.query]), context⟩ rest := by
  rw [arg.lexemes_parenthesized]
  exact walk_grouped arg (context.enter (.arguments function read)) (.comma :: rest)

theorem getLast?_commas {α : Type} (before : List Lexeme) (spelling : α → List Lexeme) (first : α)
    (rest : List α) :
    (before ++ (first :: rest).flatMap fun a => spelling a ++ [comma]).getLast? = some .comma := by
  induction rest generalizing before first with
  | nil => rw [List.flatMap_singleton, ← List.append_assoc, List.getLast?_concat]
  | cons next rest ih =>
      rw [List.flatMap_cons, ← List.append_assoc]
      exact ih _ next

/-! ## Text up to the last comma -/

def openList (items : List (Reading parser)) : String :=
  "[" ++ listingText items ++ ","

def openHash (members : List (Pair parser)) : String :=
  "\x7b" ++ membersText members ++ ","

def openCall (builtin : Builtin) (args : List (Reading parser)) : String :=
  builtin.name ++ "(" ++ listingText args ++ ","

theorem lexemes_openList (first : Reading parser) (rest : List (Reading parser)) :
    lexemes (openList (first :: rest)).toList =
      .lbracket :: (first :: rest).flatMap fun item => item.parenthesized.lexemes ++ [.comma] := by
  have spelled : (openList (first :: rest)).toList =
      '[' :: ((listingText (first :: rest)).toList ++ [',']) := by simp [openList]
  rw [spelled, lexemes_lbracket_listingText, lexemes_listingText _ (by decide)]
  exact congrArg _ (separated_same comma _ first rest)

theorem lexemes_openHash (first : Pair parser) (rest : List (Pair parser)) :
    lexemes (openHash (first :: rest)).toList =
      .lbrace :: (first :: rest).flatMap fun pair => pair.parenthesized.lexemes ++ [.comma] := by
  have spelled : (openHash (first :: rest)).toList =
      '\x7b' :: ((membersText (first :: rest)).toList ++ [',']) := by simp [openHash]
  rw [spelled, lexemes_mark (by decide), lexemes_membersText _ (by decide)]
  exact congrArg _ (separated_same comma _ first rest)

theorem lexemes_openCall (builtin : Builtin) (first : Reading parser)
    (rest : List (Reading parser)) :
    lexemes (openCall builtin (first :: rest)).toList =
      .identifier builtin.name :: .lparen ::
        (first :: rest).flatMap fun arg => arg.parenthesized.lexemes ++ [.comma] := by
  have spelled : (openCall builtin (first :: rest)).toList =
      builtin.name.toList ++ '(' :: ((listingText (first :: rest)).toList ++ [',']) := by
    simp [openCall]
  rw [spelled, builtin.lexemes_name_lparen, lexemes_listingText _ (by decide)]
  exact congrArg _ (congrArg _ (separated_same comma _ first rest))

/-- Behind its comma an open list waits for one more item, whatever it is read with. -/
theorem walk_openList (first : Reading parser) (rest : List (Reading parser)) :
    walk parser.lenient .start (lexemes (openList (first :: rest)).toList) =
      .ok ⟨.item ((first :: rest).map Reading.query) none, .outermost⟩ := by
  -- the parenthesis of the first item is read as behind a comma
  have items := walk_commas (fun read => ⟨.item read none, .outermost⟩)
    (walk_item_comma .outermost) [] (first :: rest)
  rw [List.flatMap_cons, first.lexemes_parenthesized] at items
  rw [lexemes_openList, List.flatMap_cons, first.lexemes_parenthesized]
  exact items

theorem walk_openHash (first : Pair parser) (rest : List (Pair parser)) :
    walk parser.lenient .start (lexemes (openHash (first :: rest)).toList) =
      .ok ⟨.key ((first :: rest).map fun pair => (pair.key.name, pair.value.query)),
        .outermost⟩ := by
  rw [lexemes_openHash]
  exact walk_commas (fun read => ⟨.key read, .outermost⟩) (walk_member_comma .outermost)
    [] (first :: rest)

theorem walk_openCall (builtin : Builtin) (first : Reading parser) (rest : List (Reading parser)) :
    walk parser.lenient .start (lexemes (openCall builtin (first :: rest)).toList) =
      .ok ⟨.argument builtin.name ((first :: rest).map Reading.query), .outermost⟩ := by
  rw [lexemes_openCall]
  exact walk_commas (fun read => ⟨.argument builtin.name read, .outermost⟩)
    (walk_argument_comma .outermost builtin.name) [] (first :: rest)

/-! ## The closing bracket -/

/-- A mark that is rejected behind accepted text is where reading stops. -/
theorem parse_of_reject {init close : String} {c : Char} (single : close.toList = [c])
    (mark : c ∈ marks) {state : State} {complaint : Complaint}
    (walked : walk parser.lenient .start (lexemes init.toList) = .ok state)
    (ends : Ends (lexemes init.toList).getLast? [c])
    (rejected : state.step parser.lenient (ofSpelling c []) = reject complaint) :
    parser.parse (init ++ close) =
      .error (.malformed complaint (init ++ close) init.toList.length) := by
  obtain ⟨rest, scanned⟩ : ∃ rest, Token.scan init.toList.length [c] =
      ⟨ofSpelling c [], init.toList.length⟩ :: rest := by
    rw [Token.scan, if_neg (Bool.eq_false_iff.mp (mark_visible mark))]
    simp only [List.take_nil]
    exact ⟨_, rfl⟩
  have tokens : tokenize (init ++ close) = (Token.scan 0 init.toList).dropLast ++
      ⟨ofSpelling c [], init.toList.length⟩ :: rest := by
    have whole := scan_append_of_ends (unknown_not_mem_of_walk walked) ends 0
    rwa [Nat.zero_add, scanned, ← single, ← String.toList_append] at whole
  refine parse_eq_error.mpr ⟨(Token.scan 0 init.toList).dropLast.length,
    ⟨ofSpelling c [], init.toList.length⟩, .complaint complaint, ⟨?_, state, ?_, rejected⟩, rfl⟩
  · rw [tokens, List.getElem?_append_right (Nat.le_refl _), Nat.sub_self, List.getElem?_cons_zero]
  · rw [tokens, List.take_left, List.map_dropLast]
    exact walked

theorem parse_openCall (builtin : Builtin) (first : Reading parser)
    (rest : List (Reading parser)) :
    parser.parse (openCall builtin (first :: rest) ++ ")") =
      .ok (.call builtin.name ((first :: rest).map Reading.query) parser.lenient) := by
  have walked := walk_openCall builtin first rest
  have closes : lexemes [')'] = [.rparen] := by
    rw [lexemes_rparen, lexemes_nil]
  have read : lexemes (openCall builtin (first :: rest) ++ ")").toList =
      lexemes (openCall builtin (first :: rest)).toList ++ [.rparen] := by
    have separate : StartsSeparate [')'] := startsSeparate_cons (by decide) []
    rw [← closes, ← lexemes_append (unknown_not_mem_of_walk walked) separate, String.toList_append]
    rfl
  have closed : (State.mk (.argument builtin.name ((first :: rest).map Reading.query))
      .outermost).step parser.lenient .rparen = .ok ⟨.operator (.call builtin.name
        ((first :: rest).map Reading.query) parser.lenient), .outermost⟩ := by
    simp only [State.step, closeArguments, Builtin.ofName?_name]
    rfl
  apply parse_of_walk
  rw [read, List.append_assoc, walk_append_of_walk walked]
  exact walk_cons_of_step closed [.eof]

/-- A comma in front of the closing bracket is a syntax error there in lists and hashes, which go on
to another item or member behind a comma; a call is read as without the comma. -/
theorem trailing_commas (parser : Parser) :
    (∀ (first : Reading parser) (rest : List (Reading parser)),
      parser.parse (openList (first :: rest) ++ "]") =
        .error (.malformed .missingItem (openList (first :: rest) ++ "]")
          (openList (first :: rest)).toList.length)) ∧
      (∀ (first : Pair parser) (rest : List (Pair parser)),
        parser.parse (openHash (first :: rest) ++ "\x7d") =
          .error (.malformed (.expectedOneOf hashKeys .rbrace) (openHash (first :: rest) ++ "\x7d")
            (openHash (first :: rest)).toList.length)) ∧
      ∀ (builtin : Builtin) (first : Reading parser) (rest : List (Reading parser)),
        parser.parse (openCall builtin (first :: rest) ++ ")") =
          .ok (.call builtin.name ((first :: rest).map Reading.query) parser.lenient) := by
  refine ⟨fun first rest => ?_, fun first rest => ?_, parse_openCall⟩
  · have last : (lexemes (openList (first :: rest)).toList).getLast? = some .comma := by
      rw [lexemes_openList]
      exact getLast?_commas [.lbracket] _ first rest
    have ends : Ends (lexemes (openList (first :: rest)).toList).getLast? [']'] :=
      ends_rbracket (by rw [last]; nofun) []
    exact parse_of_reject rfl (by decide) (walk_openList first rest) ends rfl
  · have ends : Ends (lexemes (openHash (first :: rest)).toList).getLast? ['\x7d'] :=
      (startsSeparate_cons (by decide) []).ends _
    exact parse_of_reject rfl (by decide) (walk_openHash first rest) ends rfl

theorem trailing_commas_call :
    ∃ e : Reading ⟨false⟩, openCall .abs [e] ++ ")" = "abs((@),)" ∧
      (Parser.mk false).parse "abs((@),)" = .ok (.call "abs" [.current] false) := by
  have read : (Parser.mk false).parse "@" = .ok .current := by cbv
  exact ⟨⟨"@", _, read⟩, by cbv, by cbv⟩

end JsonQuery
