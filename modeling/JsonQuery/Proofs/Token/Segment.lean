import JsonQuery.Proofs.Token.Lexemes
import JsonQuery.Value.Access

/-!
# Segments of a text

The tokens cut a text into segments: behind blanks at the start, each segment is the spelling of one
lexeme and the blanks that follow it.  The cut is local: a segment read on its own is that lexeme
again.
-/

set_option autoImplicit false

namespace JsonQuery

namespace Lexeme

/-- How lexemes are written.  Text that cannot be read stands for itself. -/
inductive Spells : List Char → Lexeme → Prop
  | name {first : Char} {rest : List Char} (starts : startsName first = true)
      (continues : ∀ c ∈ rest, continuesName c = true) :
      Spells (first :: rest) (.identifier (String.ofList (first :: rest)))
  | number {first : Char} {digits : List Char} {n : Int64} (starts : startsNumber first = true)
      (continues : ∀ c ∈ digits, Numeral.isDigit c = true)
      (fits : Numeral.int64? (first :: digits) = some n) : Spells (first :: digits) (.number n)
  | quoted {mark : Char} {body : List Char} {lexeme : Lexeme} (quote : isQuote mark = true)
      (enclosed : Text.Enclosed mark body) (decodes : ofQuoted? mark body = some lexeme) :
      Spells (mark :: (body ++ [mark])) lexeme
  | punctuation {spelling : List Char} {lexeme : Lexeme}
      (listed : ofPunctuation? spelling = some lexeme) : Spells spelling lexeme
  | unknown (first : Char) (rest : List Char) :
      Spells (first :: rest) (.unknown (String.ofList (first :: rest)))

variable {lexeme : Lexeme} {spelling : List Char}

theorem Spells.ne_nil (spells : Spells spelling lexeme) : spelling ≠ [] := by
  cases spells with
  | punctuation listed =>
      rintro rfl
      cases listed
  | _ => exact List.cons_ne_nil _ _

theorem Spells.ne_eof (spells : Spells spelling lexeme) : lexeme ≠ .eof := by
  cases spells with
  | quoted _ _ decodes => exact (ofQuoted?_spelled decodes).1
  | punctuation listed => exact (ofPunctuation?_spelled listed).1
  | _ => nofun

/-! ## The extent of a lexeme -/

theorem take_length_takeWhile (accepts : Char → Bool) (text : List Char) :
    text.take (text.takeWhile accepts).length = text.takeWhile accepts :=
  (List.prefix_iff_eq_take.mp (List.takeWhile_prefix accepts)).symm

theorem extent_name {first : Char} (starts : startsName first = true) (rest : List Char) :
    extent first rest = (rest.takeWhile continuesName).length :=
  if_pos starts

theorem extent_number {first : Char} (noName : ¬startsName first = true)
    (starts : startsNumber first = true) (rest : List Char) :
    extent first rest = (rest.takeWhile Numeral.isDigit).length := by
  simp only [extent, if_neg noName, if_pos starts]

theorem extent_closed {first : Char} (noName : ¬startsName first = true)
    (noNumber : ¬startsNumber first = true) (quote : isQuote first = true)
    {rest body after : List Char} (found : Text.delimited? first rest = some (body, after)) :
    extent first rest = body.length + 1 := by
  simp only [extent, if_neg noName, if_neg noNumber, if_pos quote, found]

theorem isQuote_cases {mark : Char} (quote : isQuote mark = true) :
    ¬startsName mark = true ∧ ¬startsNumber mark = true ∧ isBlank mark = false := by
  simp only [isQuote, Bool.or_eq_true, beq_iff_eq] at quote
  rcases quote with (rfl | rfl) | rfl <;> decide

/-- What the first character of a text extends to is spelled as the lexeme that it is read as. -/
theorem spells_ofSpelling (first : Char) (rest : List Char) :
    Spells (first :: rest.take (extent first rest))
      (ofSpelling first (rest.take (extent first rest))) := by
  rw [ofSpelling]
  cases read : ofSpelling? first (rest.take (extent first rest)) with
  | none => exact .unknown first _
  | some lexeme =>
      rw [Option.getD_some]
      rw [ofSpelling?] at read
      by_cases starts : startsName first = true
      · rw [if_pos starts, extent_name starts, take_length_takeWhile, Option.some_inj] at read
        rw [extent_name starts, take_length_takeWhile, ← read]
        exact .name starts fun c found => List.mem_takeWhile_imp found
      · rw [if_neg starts] at read
        by_cases number : startsNumber first = true
        · rw [if_pos number, extent_number starts number, take_length_takeWhile] at read
          obtain ⟨n, fits, rfl⟩ := Option.map_eq_some_iff.mp read
          rw [extent_number starts number, take_length_takeWhile]
          exact .number number (fun c found => List.mem_takeWhile_imp found) fits
        · rw [if_neg number] at read
          by_cases quote : isQuote first = true
          · rw [if_pos quote] at read
            split at read
            · rename_i body found
              obtain ⟨enclosed, spelled⟩ := Text.enclosed_of_delimited? found
              rw [spelled]
              exact .quoted quote enclosed read
            · cases read
          · rw [if_neg quote] at read
            exact .punctuation read

/-- No blank is a part of a name or number, and none ends a pair. -/
theorem isSeparate_of_isBlank {c : Char} (blank : isBlank c = true) : isSeparate c = true := by
  simp only [isBlank, Bool.or_eq_true, beq_iff_eq] at blank
  rcases blank with ((rfl | rfl) | rfl) | rfl <;> decide

theorem takeWhile_takeWhile_append (accepts : Char → Bool) (text : List Char) {tail : List Char}
    (stops : ∀ c ∈ tail.head?, accepts c = false) :
    (text.takeWhile accepts ++ tail).takeWhile accepts = text.takeWhile accepts := by
  rw [takeWhile_append accepts _ stops, List.takeWhile_eq_self_iff]
  exact fun c found => List.mem_takeWhile_imp found

theorem not_accepted_of_head?_drop (accepts : Char → Bool) (text : List Char) :
    ∀ c ∈ (text.drop (text.takeWhile accepts).length).head?, accepts c = false := by
  induction text with
  | nil => nofun
  | cons first rest ih =>
      by_cases accepted : accepts first = true
      · rw [List.takeWhile_cons_of_pos accepted]
        exact ih
      · rw [List.takeWhile_cons_of_neg accepted]
        rintro c ⟨⟩
        exact Bool.eq_false_iff.mpr accepted

section Behind

variable {first : Char} {rest tail : List Char}

/-- What can stand behind the lexeme at the start of a text without a change to it: text that starts
with a blank or with the character that is there, but none where a mark is not closed. -/
structure Behind (first : Char) (rest tail : List Char) : Prop where
  starts : ∀ c ∈ tail.head?, isBlank c = true ∨ (rest.drop (extent first rest)).head? = some c
  unclosed : isQuote first = true → Text.delimited? first rest = none → tail = []

theorem Behind.not_accepted (behind : Behind first rest tail) {accepts : Char → Bool}
    (long : extent first rest = (rest.takeWhile accepts).length)
    (rejects : ∀ c, isSeparate c = true → accepts c = false) :
    ∀ c ∈ tail.head?, accepts c = false := by
  intro c head
  cases behind.starts c head with
  | inl blank => exact rejects c (isSeparate_of_isBlank blank)
  | inr same =>
      rw [long] at same
      exact not_accepted_of_head?_drop accepts rest c same

theorem extent_punctuation (noName : ¬startsName first = true)
    (noNumber : ¬startsNumber first = true) (noQuote : ¬isQuote first = true)
    (rest : List Char) :
    extent first rest = if rest.head?.any (isPair first) = true then 1 else 0 := by
  simp only [extent, if_neg noName, if_neg noNumber, if_neg noQuote]
  cases rest <;> rfl

theorem extent_take_append_quote (noName : ¬startsName first = true)
    (noNumber : ¬startsNumber first = true) (quote : isQuote first = true)
    (behind : Behind first rest tail) :
    extent first (rest.take (extent first rest) ++ tail) = extent first rest := by
  cases found : Text.delimited? first rest with
  | some both =>
      obtain ⟨body, after⟩ := both
      obtain ⟨enclosed, rfl⟩ := Text.enclosed_of_delimited? found
      have whole : (body ++ first :: after).take (body.length + 1) = body ++ [first] := by
        rw [List.take_append, List.take_of_length_le (Nat.le_succ _), Nat.add_sub_cancel_left,
          List.take_succ_cons, List.take_zero]
      have closed : Text.delimited? first (body ++ [first] ++ tail) = some (body, tail) := by
        rw [List.append_assoc]
        exact enclosed.delimited? tail
      rw [extent_closed noName noNumber quote found, whole,
        extent_closed noName noNumber quote closed]
  | none =>
      have whole := extent_unclosed noName noNumber quote found
      rw [behind.unclosed quote found, List.append_nil,
        List.take_of_length_le (Nat.le_of_eq whole.symm)]

theorem extent_take_append_punctuation (noName : ¬startsName first = true)
    (noNumber : ¬startsNumber first = true) (noQuote : ¬isQuote first = true)
    (behind : Behind first rest tail) :
    extent first (rest.take (extent first rest) ++ tail) = extent first rest := by
  have starts := behind.starts
  rw [extent_punctuation noName noNumber noQuote rest] at starts ⊢
  by_cases pair : rest.head?.any (isPair first) = true
  · rw [if_pos pair, extent_punctuation noName noNumber noQuote]
    cases rest with
    | nil => cases pair
    | cons second rest => exact if_pos pair
  · rw [if_neg pair, List.drop_zero] at starts
    rw [if_neg pair, List.take_zero, List.nil_append, extent_punctuation noName noNumber noQuote,
      if_neg]
    intro pair'
    obtain ⟨c, head, paired⟩ := (Option.any_eq_true _ _).mp pair'
    cases starts c head with
    | inl blank =>
        rw [isPair_eq_false first (isSeparate_of_isBlank blank)] at paired
        cases paired
    | inr same => exact pair (by rwa [same])

/-- Followed by something else, a lexeme extends as far as before. -/
theorem extent_take_append (behind : Behind first rest tail) :
    extent first (rest.take (extent first rest) ++ tail) = extent first rest := by
  by_cases name : startsName first = true
  · have ends := behind.not_accepted (extent_name name rest) fun c => continuesName_eq_false
    rw [extent_name name, extent_name name, take_length_takeWhile,
      takeWhile_takeWhile_append continuesName rest ends]
  · by_cases number : startsNumber first = true
    · have ends := behind.not_accepted (extent_number name number rest) fun c => isDigit_eq_false
      rw [extent_number name number, extent_number name number, take_length_takeWhile,
        takeWhile_takeWhile_append Numeral.isDigit rest ends]
    · by_cases quote : isQuote first = true
      · exact extent_take_append_quote name number quote behind
      · exact extent_take_append_punctuation name number quote behind

theorem Behind.of_blanks {blanks : List Char}
    (follows : rest.drop (extent first rest) = blanks ++ tail)
    (blank : ∀ c ∈ blanks, isBlank c = true) : Behind first rest blanks := by
  refine ⟨fun c head => .inl (blank c (List.mem_of_mem_head? head)), fun quote open_ => ?_⟩
  -- without its closing mark the lexeme takes all of the text, so no blanks follow it
  obtain ⟨noName, noNumber, -⟩ := isQuote_cases quote
  rw [extent_unclosed noName noNumber quote open_, List.drop_length] at follows
  exact (List.append_eq_nil_iff.mp follows.symm).1

/-- Cut off anywhere behind its lexeme, a text starts with a lexeme of the same extent. -/
theorem extent_take {m : Nat} (within : extent first rest ≤ m) :
    extent first (rest.take m) = extent first rest := by
  obtain ⟨more, rfl⟩ := Nat.exists_eq_add_of_le within
  rw [List.take_add]
  refine extent_take_append ⟨fun c head => .inr ?_, fun quote open_ => ?_⟩
  · cases left : rest.drop (extent first rest) with
    | nil =>
        rw [left, List.take_nil] at head
        cases head
    | cons d others =>
        rw [left] at head
        cases more <;> cases head
        rfl
  · obtain ⟨noName, noNumber, -⟩ := isQuote_cases quote
    rw [extent_unclosed noName noNumber quote open_, List.drop_length, List.take_nil]

end Behind

end Lexeme

/-! ## Segments -/

open Lexeme

theorem length_take_extent (c : Char) (rest : List Char) :
    (rest.take (extent c rest)).length = extent c rest := by
  rw [List.length_take, Nat.min_eq_left (extent_le c rest)]

theorem Token.scan_cons (position : Nat) {c : Char} (visible : isBlank c = false)
    (rest : List Char) :
    scan position (c :: rest) = ⟨ofSpelling c (rest.take (extent c rest)), position⟩ ::
      scan (position + 1 + extent c rest) (rest.drop (extent c rest)) := by
  rw [scan, if_neg (Bool.eq_false_iff.mp visible)]

theorem Token.scan_blanks_append (position : Nat) {blanks : List Char}
    (blank : ∀ c ∈ blanks, isBlank c = true) (text : List Char) :
    scan position (blanks ++ text) = scan (position + blanks.length) text := by
  induction blanks generalizing position with
  | nil => rfl
  | cons c blanks ih =>
      rw [List.cons_append, scan, if_pos (blank c List.mem_cons_self),
        ih (position + 1) fun d found => blank d (List.mem_cons_of_mem c found), List.length_cons,
        Nat.add_assoc, Nat.add_comm 1]

theorem Token.scan_blanks (position : Nat) {blanks : List Char}
    (blank : ∀ c ∈ blanks, isBlank c = true) :
    scan position blanks = [⟨.eof, position + blanks.length⟩] := by
  have scanned := scan_blanks_append position blank []
  rwa [List.append_nil, scan] at scanned

/-- The part of a text before one of its tokens has the lexemes of the tokens before that one. -/
theorem lexemes_take_scan (start : Nat) (text : List Char) :
    ∀ (k : Nat) (token : Token), (Token.scan start text)[k]? = some token →
      start ≤ token.position ∧ lexemes (text.take (token.position - start)) =
        ((Token.scan start text).take k).map Token.lexeme := by
  fun_induction Token.scan start text with
  | case1 start =>
      intro k token here
      obtain ⟨rfl, rfl⟩ : k = 0 ∧ token = ⟨.eof, start⟩ := by
        cases k with
        | zero => exact ⟨rfl, (Option.some.inj here).symm⟩
        | succ k => cases here
      refine ⟨Nat.le_refl _, ?_⟩
      rw [List.take_nil, lexemes_nil]
      rfl
  | case2 start c rest blank ih =>
      intro k token here
      obtain ⟨later, read⟩ := ih k token here
      have skipped : token.position - start = token.position - (start + 1) + 1 := by omega
      refine ⟨by omega, ?_⟩
      rw [skipped, List.take_succ_cons, lexemes_blank blank, read]
  | case3 start c rest notBlank n ih =>
      intro k token here
      cases k with
      | zero =>
          cases here
          refine ⟨Nat.le_refl _, ?_⟩
          rw [Nat.sub_self, List.take_zero, List.take_zero, lexemes_nil]
          rfl
      | succ k =>
          obtain ⟨later, read⟩ := ih k token here
          have within : n ≤ token.position - (start + 1) := by omega
          have skipped : token.position - start = token.position - (start + 1) + 1 := by omega
          have kept : (rest.take (token.position - (start + 1))).take n = rest.take n := by
            rw [List.take_take, Nat.min_eq_left within]
          have left : (rest.take (token.position - (start + 1))).drop n =
              (rest.drop n).take (token.position - (start + 1 + n)) := by
            rw [List.drop_take, Nat.sub_sub]
          refine ⟨by omega, ?_⟩
          rw [skipped, List.take_succ_cons, lexemes_cons (Bool.eq_false_iff.mpr notBlank),
            extent_take within, kept, left, read]
          rfl

theorem Value.between_append {α : Type} {before items : List α} {start stop : Nat}
    (inside : before.length ≤ start) :
    Value.between start stop (before ++ items) =
      Value.between (start - before.length) (stop - before.length) items := by
  have skipped : start = before.length + (start - before.length) := by omega
  have kept : stop - before.length - (start - before.length) = stop - start := by omega
  rw [Value.between, Value.between, kept, skipped, List.drop_length_add_append,
    Nat.add_sub_cancel_left, ← skipped]

/-- The spelling of a lexeme and the blanks behind it.  Read on their own they are that lexeme. -/
structure Segment where
  lexeme : Lexeme
  spelling : List Char
  blanks : List Char
  spells : Spells spelling lexeme
  blank : ∀ c ∈ blanks, isBlank c = true
  alone (position : Nat) : Token.scan position (spelling ++ blanks) =
    [⟨lexeme, position⟩, ⟨.eof, position + (spelling ++ blanks).length⟩]

namespace Segment

def text (segment : Segment) : List Char :=
  segment.spelling ++ segment.blanks

theorem text_length_pos (segment : Segment) : 0 < segment.text.length := by
  rw [text, List.length_append]
  exact Nat.add_pos_left (List.length_pos_iff.mpr segment.spells.ne_nil) _

/-- The lexeme at the start of a text, with the blanks behind it. -/
def first {c : Char} (visible : isBlank c = false) {rest blanks tail : List Char}
    (follows : rest.drop (extent c rest) = blanks ++ tail)
    (blank : ∀ d ∈ blanks, isBlank d = true) : Segment where
  lexeme := ofSpelling c (rest.take (extent c rest))
  spelling := c :: rest.take (extent c rest)
  blanks := blanks
  spells := spells_ofSpelling c rest
  blank := blank
  alone := by
    intro position
    have within := length_take_extent c rest
    have kept : (rest.take (extent c rest) ++ blanks).take (extent c rest) =
        rest.take (extent c rest) := List.take_left' within
    have left : (rest.take (extent c rest) ++ blanks).drop (extent c rest) = blanks :=
      List.drop_left' within
    have stop : position + 1 + extent c rest + blanks.length =
        position + (c :: rest.take (extent c rest) ++ blanks).length := by
      rw [List.length_append, List.length_cons, within]
      omega
    rw [List.cons_append, Token.scan_cons position visible,
      extent_take_append (.of_blanks follows blank), kept, left, Token.scan_blanks _ blank, stop]
    rfl

theorem text_first {c : Char} (visible : isBlank c = false) {rest blanks tail : List Char}
    (follows : rest.drop (extent c rest) = blanks ++ tail)
    (blank : ∀ d ∈ blanks, isBlank d = true) :
    (first visible follows blank).text = c :: rest.take (extent c rest) ++ blanks :=
  rfl

/-- The tokens of segments that stand behind `start` characters. -/
def tokens (start : Nat) : List Segment → List Token
  | [] => [⟨.eof, start⟩]
  | segment :: rest => ⟨segment.lexeme, start⟩ :: tokens (start + segment.text.length) rest

/-- The tokens of a text are those of its segments, which are all of the text behind the blanks at
its start. -/
theorem exists_scan (position : Nat) (text : List Char) :
    ∃ (blanks : List Char) (segments : List Segment), (∀ c ∈ blanks, isBlank c = true) ∧
      text = blanks ++ segments.flatMap Segment.text ∧
      Token.scan position text = tokens (position + blanks.length) segments := by
  fun_induction Token.scan position text with
  | case1 position => exact ⟨[], [], List.forall_mem_nil _, rfl, rfl⟩
  | case2 position c rest blank ih =>
      obtain ⟨blanks, segments, blank', rfl, scanned⟩ := ih
      refine ⟨c :: blanks, segments, ?_, rfl, ?_⟩
      · intro d found
        obtain rfl | found := List.mem_cons.mp found
        · exact blank
        · exact blank' d found
      · rw [scanned, List.length_cons, Nat.add_assoc, Nat.add_comm 1]
  | case3 position c rest notBlank n ih =>
      obtain ⟨blanks, segments, blank, follows, scanned⟩ := ih
      have visible := Bool.eq_false_iff.mpr notBlank
      refine ⟨[], first visible follows blank :: segments, List.forall_mem_nil _, ?_, ?_⟩
      · have whole : rest = rest.take n ++ (blanks ++ segments.flatMap Segment.text) := by
          rw [← follows, List.take_append_drop]
        rw [List.nil_append, List.flatMap_cons, text_first, List.cons_append, List.cons_append,
          List.append_assoc, ← whole]
      · have stop : position + (first visible follows blank).text.length =
            position + 1 + n + blanks.length := by
          rw [text_first, List.length_append, List.length_cons, length_take_extent]
          omega
        rw [scanned, ← stop]
        rfl

theorem le_position (start : Nat) (segments : List Segment) :
    ∀ token ∈ tokens start segments, start ≤ token.position := by
  induction segments generalizing start with
  | nil =>
      intro token found
      obtain rfl := List.mem_singleton.mp found
      exact Nat.le_refl start
  | cons segment rest ih =>
      intro token found
      obtain rfl | found := List.mem_cons.mp found
      · exact Nat.le_refl start
      · have later := ih _ token found
        omega

theorem pairwise_position (start : Nat) (segments : List Segment) :
    (tokens start segments).Pairwise fun a b => a.position < b.position := by
  induction segments generalizing start with
  | nil => exact List.pairwise_singleton _ _
  | cons segment rest ih =>
      refine List.Pairwise.cons ?_ (ih _)
      intro token found
      have later := le_position _ rest token found
      have long := segment.text_length_pos
      exact Nat.lt_of_lt_of_le (Nat.lt_add_of_pos_right long) later

theorem exists_tokens_eq_append (start : Nat) (segments : List Segment) :
    ∃ spelled, tokens start segments =
        spelled ++ [⟨.eof, start + (segments.flatMap Segment.text).length⟩] ∧
      ∀ token ∈ spelled, token.lexeme ≠ .eof := by
  induction segments generalizing start with
  | nil => exact ⟨[], rfl, nofun⟩
  | cons segment rest ih =>
      obtain ⟨spelled, last, visible⟩ := ih (start + segment.text.length)
      refine ⟨⟨segment.lexeme, start⟩ :: spelled, ?_, ?_⟩
      · rw [tokens, last, List.flatMap_cons, List.length_append, Nat.add_assoc]
        rfl
      · intro token found
        obtain rfl | found := List.mem_cons.mp found
        · exact segment.spells.ne_eof
        · exact visible token found

/-- A token other than the last is the lexeme of a segment, whose text lies between its position and
the position of the token behind it. -/
theorem exists_between (start : Nat) {segments : List Segment} {i : Nat} {token : Token}
    (here : (tokens start segments)[i]? = some token) (visible : token.lexeme ≠ .eof) :
    ∃ (next : Token) (segment : Segment), (tokens start segments)[i + 1]? = some next ∧
      segment.lexeme = token.lexeme ∧ start ≤ token.position ∧
      Value.between (token.position - start) (next.position - start)
        (segments.flatMap Segment.text) = segment.text := by
  induction segments generalizing start i with
  | nil =>
      cases i with
      | zero =>
          cases here
          exact absurd rfl visible
      | succ i => cases here
  | cons segment rest ih =>
      have behind : (tokens (start + segment.text.length) rest)[0]?.map Token.position =
          some (start + segment.text.length) := by
        cases rest <;> rfl
      cases i with
      | zero =>
          cases here
          obtain ⟨next, found, place⟩ := Option.map_eq_some_iff.mp behind
          refine ⟨next, segment, found, rfl, Nat.le_refl start, ?_⟩
          rw [place, Value.between, Nat.sub_self, List.drop_zero, Nat.add_sub_cancel_left,
            Nat.sub_zero, List.flatMap_cons, List.take_left]
      | succ i =>
          obtain ⟨next, found, followed, same, later, cut⟩ := ih _ here
          refine ⟨next, found, followed, same, by omega, ?_⟩
          rw [← cut, List.flatMap_cons, Value.between_append (by omega), Nat.sub_sub, Nat.sub_sub]

end Segment

/-- The positions of tokens rise up to the end of the text, where the mark of the end stands and
nowhere else.  Before the first token there are only blanks; from any other token up to the next
there is its spelling and then blanks, and scanning this part alone finds the same lexeme. -/
theorem tokenize_cuts (text : String) :
    ((tokenize text).Pairwise fun a b => a.position < b.position) ∧
      (∃ spelled, tokenize text = spelled ++ [⟨.eof, text.toList.length⟩] ∧
        ∀ token ∈ spelled, token.lexeme ≠ .eof) ∧
      (∀ first ∈ (tokenize text).head?, ∀ c ∈ text.toList.take first.position,
        isBlank c = true) ∧
      ∀ i token, (tokenize text)[i]? = some token → token.lexeme ≠ .eof →
        ∃ next spelling blanks, (tokenize text)[i + 1]? = some next ∧
          Value.between token.position next.position text.toList = spelling ++ blanks ∧
          Spells spelling token.lexeme ∧ (∀ c ∈ blanks, isBlank c = true) ∧
          tokenize (String.ofList (spelling ++ blanks)) =
            [⟨token.lexeme, 0⟩, ⟨.eof, (spelling ++ blanks).length⟩] := by
  obtain ⟨blanks, segments, blank, whole, scanned⟩ := Segment.exists_scan 0 text.toList
  rw [Nat.zero_add] at scanned
  rw [tokenize, scanned]
  refine ⟨Segment.pairwise_position _ _, ?_, ?_, ?_⟩
  · obtain ⟨spelled, last, visible⟩ := Segment.exists_tokens_eq_append blanks.length segments
    refine ⟨spelled, ?_, visible⟩
    rw [last, whole, List.length_append]
  · intro first head c before
    have position : first.position = blanks.length := by
      cases segments <;> cases head <;> rfl
    rw [position, whole, List.take_left] at before
    exact blank c before
  · intro i token here visible
    obtain ⟨next, segment, followed, same, later, cut⟩ := Segment.exists_between _ here visible
    refine ⟨next, segment.spelling, segment.blanks, followed, ?_, same ▸ segment.spells,
      segment.blank, ?_⟩
    · rw [whole, Value.between_append later, cut, Segment.text]
    · rw [tokenize, String.toList_ofList, segment.alone 0, same, Nat.zero_add]

theorem tokenize_cuts_raw_string :
    (tokenize " .\x27b\\\x27 \x27  ").head? = some ⟨.dot, 1⟩ ∧
      (∀ c ∈ " .\x27b\\\x27 \x27  ".toList.take 1, isBlank c = true) ∧
      (tokenize " .\x27b\\\x27 \x27  ")[1]? = some ⟨.literal (.string "b\x27 "), 2⟩ ∧
      (Token.mk (.literal (.string "b\x27 ")) 2).lexeme ≠ .eof ∧
      ∃ next spelling blanks, (tokenize " .\x27b\\\x27 \x27  ")[2]? = some next ∧
        Value.between 2 next.position " .\x27b\\\x27 \x27  ".toList = spelling ++ blanks ∧
        tokenize (String.ofList (spelling ++ blanks)) =
          [⟨.literal (.string "b\x27 "), 0⟩, ⟨.eof, (spelling ++ blanks).length⟩] := by
  have first : (tokenize " .\x27b\\\x27 \x27  ").head? = some ⟨.dot, 1⟩ := by cbv
  have here : (tokenize " .\x27b\\\x27 \x27  ")[1]? =
      some ⟨.literal (.string "b\x27 "), 2⟩ := by cbv
  obtain ⟨-, -, before, cuts⟩ := tokenize_cuts " .\x27b\\\x27 \x27  "
  have read : (Token.mk (.literal (.string "b\x27 ")) 2).lexeme ≠ .eof := by rintro ⟨⟩
  obtain ⟨next, spelling, blanks, followed, cut, -, -, alone⟩ := cuts 1 _ here read
  exact ⟨first, before _ first, here, read, next, spelling, blanks, followed, cut, alone⟩

end JsonQuery
