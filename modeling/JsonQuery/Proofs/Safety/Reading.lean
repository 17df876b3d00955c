import JsonQuery.Proofs.Grammar.Rejection

/-!
# Reading from places

Characters and tokens are taken from places of a table, by an index that only grows, and a slice is
collected in a table of three places.  Here every place outside of its table counts as a fault.
There is none: reading from places reads the same tokens and builds the same query.
-/

set_option autoImplicit false

namespace JsonQuery

/-! ## Characters -/

namespace Token

/-- The first place from `position` on without an accepted character. -/
def pass (accepts : Char → Bool) (text : List Char) (position : Nat) : Nat :=
  if inside : position < text.length then
    if accepts text[position] then pass accepts text (position + 1) else position
  else position
termination_by text.length - position

/-- The place behind the next unprotected mark.  A protected character has to be there. -/
def behindMark? (mark : Char) (text : List Char) (position : Nat) : Option Nat :=
  if inside : position < text.length then
    if text[position] = mark then some (position + 1)
    else if text[position] = '\\' then
      if position + 1 < text.length then behindMark? mark text (position + 2) else none
    else behindMark? mark text (position + 1)
  else none
termination_by text.length - position

/-- The place behind the lexeme whose first character is `first`, where `position` is the place
behind that character. -/
def stop (first : Char) (text : List Char) (position : Nat) : Nat :=
  if Lexeme.startsName first then pass Lexeme.continuesName text position
  else if Lexeme.startsNumber first then pass Numeral.isDigit text position
  else if Lexeme.isQuote first then (behindMark? first text position).getD text.length
  else
    match text[position]? with
    | some second => if Lexeme.isPair first second then position + 1 else position
    | none => position

/-- The characters between two places, which have to be in order and places of the text. -/
def spelling? (text : List Char) (start stop : Nat) : Option (List Char) :=
  if start ≤ stop ∧ stop ≤ text.length then some ((text.drop start).take (stop - start)) else none

/-- The tokens from a place on. -/
def scanAt? (text : List Char) (position : Nat) : Option (List Token) :=
  if inside : position < text.length then
    if Lexeme.isBlank text[position] then scanAt? text (position + 1)
    else
      let behind := stop text[position] text (position + 1)
      match _spelled : spelling? text position behind with
      | some (first :: rest) =>
          (scanAt? text behind).map (⟨Lexeme.ofSpelling first rest, position⟩ :: ·)
      | _ => none
  else if position = text.length then some [⟨.eof, position⟩]
  else none
termination_by text.length - position
decreasing_by
  · omega
  · unfold spelling? at _spelled
    split at _spelled
    · rename_i ordered
      have filled := congrArg List.length (Option.some.inj _spelled)
      rw [List.length_take, List.length_cons] at filled
      omega
    · cases _spelled

section Scan

variable {text : List Char} {position : Nat}

theorem pass_eq (accepts : Char → Bool) (text : List Char) (position : Nat) :
    pass accepts text position =
      position + ((text.drop position).takeWhile accepts).length := by
  fun_induction pass accepts text position with
  | case1 position inside accepted ih =>
      rw [ih, List.drop_eq_getElem_cons inside, List.takeWhile_cons_of_pos accepted,
        List.length_cons]
      omega
  | case2 position inside refused =>
      rw [List.drop_eq_getElem_cons inside, List.takeWhile_cons_of_neg refused]
      rfl
  | case3 position outside =>
      rw [List.drop_eq_nil_of_le (by omega)]
      rfl

theorem behindMark?_eq (mark : Char) (text : List Char) (position : Nat) :
    behindMark? mark text position =
      (Text.delimited? mark (text.drop position)).map fun found =>
        position + found.1.length + 1 := by
  fun_induction behindMark? mark text position with
  | case1 position inside marked =>
      rw [List.drop_eq_getElem_cons inside, Text.delimited?.eq_def]
      simp only [if_pos marked, Option.map_some, List.length_nil, Nat.add_zero]
  | case2 position inside unmarked escapes more ih =>
      rw [ih, List.drop_eq_getElem_cons inside, List.drop_eq_getElem_cons more,
        Text.delimited?.eq_def mark (_ :: _)]
      simp only [if_neg unmarked, if_pos escapes, Option.map_map]
      congr 1
      funext found
      simp only [Function.comp_apply, List.length_cons]
      omega
  | case3 position inside unmarked escapes last =>
      rw [List.drop_eq_getElem_cons inside, List.drop_eq_nil_of_le (by omega),
        Text.delimited?.eq_def]
      simp only [if_neg unmarked, if_pos escapes, Option.map_none]
  | case4 position inside unmarked plain ih =>
      rw [ih, List.drop_eq_getElem_cons inside, Text.delimited?.eq_def mark (_ :: _)]
      simp only [if_neg unmarked, if_neg plain, Option.map_map]
      congr 1
      funext found
      simp only [Function.comp_apply, List.length_cons]
      omega
  | case5 position outside =>
      rw [List.drop_eq_nil_of_le (by omega)]
      rfl

/-- The index walks over the extent of the lexeme. -/
theorem stop_eq (first : Char) (inside : position ≤ text.length) :
    stop first text position = position + Lexeme.extent first (text.drop position) := by
  unfold stop Lexeme.extent
  split
  · exact pass_eq _ text position
  · split
    · exact pass_eq _ text position
    · split
      · rw [behindMark?_eq]
        cases Text.delimited? first (text.drop position) with
        | none =>
            rw [List.length_drop]
            exact (Nat.add_sub_cancel' inside).symm
        | some found => rfl
      · rw [← List.head?_drop]
        cases text.drop position with
        | nil => rfl
        | cons second _ =>
            simp only [List.head?_cons]
            split <;> rfl

/-- The characters of a lexeme lie inside the text. -/
theorem spelling?_stop (inside : position < text.length) :
    spelling? text position (stop text[position] text (position + 1)) =
      some (text[position] :: (text.drop (position + 1)).take
        (Lexeme.extent text[position] (text.drop (position + 1)))) := by
  have extent := Lexeme.extent_le text[position] (text.drop (position + 1))
  have behind : stop text[position] text (position + 1) =
      position + (Lexeme.extent text[position] (text.drop (position + 1)) + 1) := by
    rw [stop_eq _ (show position + 1 ≤ text.length from inside)]
    omega
  rw [List.length_drop] at extent
  unfold spelling?
  rw [behind, if_pos (by omega), List.drop_eq_getElem_cons inside, Nat.add_sub_cancel_left,
    List.take_succ_cons]

/-- Scanning by an index never leaves the text, and finds the same tokens. -/
theorem scanAt?_eq (inside : position ≤ text.length) :
    scanAt? text position = some (scan position (text.drop position)) := by
  fun_induction scanAt? text position with
  | case1 position more blank ih =>
      rw [ih more, List.drop_eq_getElem_cons more, scan, if_pos blank]
  | case2 position more notBlank behind first rest spelled ih =>
      have extent := Lexeme.extent_le text[position] (text.drop (position + 1))
      rw [List.length_drop] at extent
      have reached : behind =
          position + 1 + Lexeme.extent text[position] (text.drop (position + 1)) :=
        stop_eq _ more
      cases (spelling?_stop more).symm.trans spelled
      rw [ih (by omega), List.drop_eq_getElem_cons more, scan, if_neg notBlank, reached]
      simp only [List.drop_drop, Option.map_some]
  | case3 position more notBlank behind unspelled =>
      exact absurd (spelling?_stop more) (unspelled _ _)
  | case4 outside =>
      rw [List.drop_length, scan]
  | case5 position outside beyond => omega

end Scan

end Token

/-! ## Tokens -/

/-- A cursor as a table of tokens and a place in it. -/
structure Stream where
  tokens : List Token
  position : Nat

namespace Stream

/-- Tokens that do not end with an end of text get one. -/
def ofTokens (text : String) (tokens : List Token) : Stream :=
  let stop : Token := ⟨.eof, text.toList.length⟩
  match tokens.getLast? with
  | none => ⟨tokens ++ [stop], 0⟩
  | some last => if last.kind = .eof then ⟨tokens, 0⟩ else ⟨tokens ++ [stop], 0⟩

/-- The last place of the table; there is none in an empty one. -/
def last? (stream : Stream) : Option Nat :=
  if 1 ≤ stream.tokens.length then some (stream.tokens.length - 1) else none

/-- The token `n` places ahead, or the last one. -/
def lookahead? (stream : Stream) (n : Nat) : Option Token := do
  stream.tokens[min (stream.position + n) (← stream.last?)]?

/-- Moves to the next token, or stays on the last one. -/
def advance? (stream : Stream) : Option Stream := do
  if stream.position < (← stream.last?) then return ⟨stream.tokens, stream.position + 1⟩
  else return stream

/-- Moves on several times. -/
def advanceBy? : Nat → Stream → Option Stream
  | 0, stream => some stream
  | moves + 1, stream => stream.advance?.bind (advanceBy? moves)

theorem remaining_lt {stream next : Stream} (moved : stream.advance? = some next)
    (forward : stream.position < next.position) :
    next.tokens.length - next.position < stream.tokens.length - stream.position := by
  simp only [advance?, last?, Option.bind_eq_bind, Option.bind_eq_some_iff] at moved
  obtain ⟨last, inside, moved⟩ := moved
  split at inside
  · cases inside
    split at moved
    · cases moved
      dsimp only
      omega
    · cases moved
      omega
  · cases inside

/-- The stream and the cursor stand at the same place of the same tokens. -/
def Shows (stream : Stream) (cursor : Cursor) : Prop :=
  stream.tokens.drop stream.position = cursor.token :: cursor.rest

section Shows

variable {stream : Stream} {cursor : Cursor}

theorem ofTokens_shows (text : String) (tokens : List Token) :
    Shows (ofTokens text tokens) (Cursor.ofTokens text tokens) := by
  unfold Shows ofTokens Cursor.ofTokens
  cases tokens with
  | nil => rfl
  | cons first rest =>
      rw [List.getLast?_cons]
      dsimp only
      split <;> rfl

theorem Shows.length (shows : Shows stream cursor) :
    stream.position + (cursor.rest.length + 1) = stream.tokens.length := by
  have remaining := congrArg List.length shows
  rw [List.length_drop, List.length_cons] at remaining
  omega

theorem Shows.last? (shows : Shows stream cursor) :
    stream.last? = some (stream.position + cursor.rest.length) := by
  have length := shows.length
  unfold Stream.last?
  rw [if_pos (by omega)]
  congr 1
  omega

theorem Shows.getElem? (shows : Shows stream cursor) (n : Nat) :
    stream.tokens[stream.position + n]? = (cursor.token :: cursor.rest)[n]? := by
  rw [← shows, List.getElem?_drop]

theorem Shows.lookahead? (shows : Shows stream cursor) (n : Nat) :
    stream.lookahead? n = some (cursor.lookahead n) := by
  unfold Stream.lookahead? Cursor.lookahead
  rw [shows.last?, Option.bind_eq_bind, Option.bind_some]
  by_cases inside : n ≤ cursor.rest.length
  · have place : min (stream.position + n) (stream.position + cursor.rest.length) =
        stream.position + n := by omega
    dsimp only
    rw [place, shows.getElem?, List.getElem?_eq_getElem (Nat.lt_succ_of_le inside),
      Option.getD_some]
  · have place : min (stream.position + n) (stream.position + cursor.rest.length) =
        stream.position + cursor.rest.length := by omega
    have beyond : (cursor.token :: cursor.rest)[n]? = none := by
      rw [List.getElem?_eq_none_iff, List.length_cons]
      omega
    have lastPlace : (cursor.token :: cursor.rest)[cursor.rest.length]? =
        (cursor.token :: cursor.rest).getLast? := by
      rw [List.getLast?_eq_getElem?]
      rfl
    dsimp only
    rw [place, shows.getElem?, beyond, lastPlace, List.getLast?_cons, Option.getD_none,
      List.getLastD_cons, List.getLastD_eq_getLast?]

/-- Moving on from the last token stays there. -/
theorem Shows.stay (shows : Shows stream cursor) (last : cursor.rest = []) :
    stream.advance? = some stream := by
  unfold Stream.advance?
  rw [shows.last?, last]
  exact if_neg (Nat.lt_irrefl _)

theorem Shows.move (shows : Shows stream cursor) {next : Token} {rest : List Token}
    (more : cursor.rest = next :: rest) :
    stream.advance? = some ⟨stream.tokens, stream.position + 1⟩ ∧
      Shows ⟨stream.tokens, stream.position + 1⟩ ⟨cursor.text, next, rest⟩ := by
  have later := congrArg List.tail shows
  rw [List.tail_drop, more] at later
  unfold Stream.advance?
  rw [shows.last?, more]
  exact ⟨if_pos (Nat.lt_add_of_pos_right (Nat.succ_pos _)), later⟩

theorem Shows.advance? (shows : Shows stream cursor) :
    ∃ next, stream.advance? = some next ∧ Shows next cursor.advance := by
  unfold Cursor.advance
  cases following : cursor.rest with
  | nil => exact ⟨stream, shows.stay following, shows⟩
  | cons next rest => exact ⟨_, shows.move following⟩

theorem Shows.advanceBy? (shows : Shows stream cursor) (moves : Nat) :
    ∃ next, stream.advanceBy? moves = some next ∧ Shows next (Cursor.advance^[moves] cursor) := by
  induction moves generalizing stream cursor with
  | zero => exact ⟨stream, rfl, shows⟩
  | succ moves ih =>
      obtain ⟨middle, moved, shows⟩ := shows.advance?
      obtain ⟨next, reached, shows⟩ := ih shows
      refine ⟨next, ?_, shows⟩
      rw [Stream.advanceBy?, moved, Option.bind_some, reached]

end Shows

end Stream

/-! ## Segments -/

namespace Grammar

/-- Segments are kept in a table of three places, and the current one is written behind the complete
ones. -/
def State.fits (state : State) : Bool :=
  match state.mode with
  | .segments _ segments => segments.complete.length < 3
  | _ => true

/-- A token is accepted only with segments that fit. -/
def Step.Fits : Step → Prop
  | .ok next => next.fits = true
  | .error _ => True

variable {lenient : Bool}

theorem step_fits {state : State} (fits : state.fits = true) (lexeme : Lexeme) :
    Step.Fits (state.step lenient lexeme) := by
  obtain plain | ⟨left, next, stepped, opens⟩ := step_follows lenient lexeme state
  · cases stepped : state.step lenient lexeme with
    | error rejection => trivial
    | ok next =>
        rw [stepped] at plain
        obtain ⟨mode, context⟩ := next
        cases mode with
        | segments left segments => exact plain.elim
        | _ => rfl
  · rw [stepped]
    obtain ⟨mode, context⟩ := state
    cases mode with
    | bracket => rcases opens with rfl | ⟨n, rfl⟩ <;> rfl
    | subscript left => rcases opens with rfl | ⟨n, rfl⟩ <;> rfl
    | segments left previous =>
        rcases opens with ⟨short, rfl⟩ | ⟨n, rfl⟩
        · refine decide_eq_true ?_
          rw [List.length_append, List.length_singleton]
          omega
        · exact fits
    | _ => exact opens.elim

/-! ## Expressions -/

/-- Reads the current token of a stream and those behind it, until moving on stays on the last
one. -/
def readFrom? (lenient : Bool) (text : String) (state : State) (stream : Stream) :
    Option (Except Error Query) :=
  if state.fits then
    match stream.lookahead? 0 with
    | none => none
    | some token =>
        match state.step lenient token.lexeme with
        | .error rejection => some (.error (rejection.toError ⟨text, token, []⟩))
        | .ok next =>
            match _moved : stream.advance? with
            | none => none
            | some following =>
                if stream.position < following.position then readFrom? lenient text next following
                else some (next.result?.elim
                  (.error (.malformed .unexpectedEnd text token.position)) .ok)
  else none
termination_by stream.tokens.length - stream.position
decreasing_by exact Stream.remaining_lt _moved ‹_›

/-- Reading from places takes the same steps, and never faults. -/
theorem readFrom?_eq {text : String} {state : State} {stream : Stream} {token : Token}
    {rest : List Token} (shows : stream.Shows ⟨text, token, rest⟩) (fits : state.fits = true) :
    readFrom? lenient text state stream = some (run lenient state text token rest) := by
  induction rest generalizing state stream token with
  | nil =>
      have current : stream.lookahead? 0 = some token := shows.lookahead? 0
      rw [readFrom?, if_pos fits, current, run]
      dsimp only
      cases state.step lenient token.lexeme with
      | error rejection => rfl
      | ok next =>
          dsimp only
          split
          · rename_i fault
            cases fault.symm.trans (shows.stay rfl)
          · rename_i following moved
            cases moved.symm.trans (shows.stay rfl)
            rw [if_neg (Nat.lt_irrefl _)]
  | cons following rest ih =>
      have current : stream.lookahead? 0 = some token := shows.lookahead? 0
      have stepped : Step.Fits (state.step lenient token.lexeme) := step_fits fits token.lexeme
      obtain ⟨moves, shows⟩ := shows.move rfl
      rw [readFrom?, if_pos fits, current, run]
      dsimp only
      cases accepted : state.step lenient token.lexeme with
      | error rejection => exact congrArg (some ∘ Except.error) (toError_eq _ _ _ _ rejection)
      | ok next =>
          rw [accepted] at stepped
          dsimp only
          split
          · rename_i fault
            cases fault.symm.trans moves
          · rename_i next' moved
            cases moved.symm.trans moves
            rw [if_pos (Nat.lt_succ_self _)]
            exact ih shows stepped

end Grammar

/-- Reads an expression from the places of its characters and tokens. -/
def Parser.parse? (parser : Parser) (text : String) : Option (Except Error Query) := do
  let tokens ← Token.scanAt? text.toList 0
  Grammar.readFrom? parser.lenient text .start (.ofTokens text tokens)

theorem scanAt?_eq_tokenize (text : String) :
    Token.scanAt? text.toList 0 = some (tokenize text) :=
  Token.scanAt?_eq (Nat.zero_le _)

/-- Reading an expression from places never faults, and reads the same query. -/
theorem Parser.parse?_eq (parser : Parser) (text : String) :
    parser.parse? text = some (parser.parse text) := by
  have shows := Stream.ofTokens_shows text (tokenize text)
  rw [Parser.parse?, scanAt?_eq_tokenize]
  exact Grammar.readFrom?_eq shows rfl

end JsonQuery
