import JsonQuery.Proofs.Grammar.Agreement

/-!
# What brackets around numbers and colons hold

Brackets that start with a number or a colon hold an index or a slice.  The loop that reads them
keeps segments, and these spell exactly the lexemes that it has read.  So it closes the forms of
indexes and slices and nothing else, and it stops at the first lexeme behind which none of them can
go on.
-/

set_option autoImplicit false

namespace JsonQuery

/-- The lexemes from the current token on. -/
def Cursor.lexemes (c : Cursor) : List Lexeme :=
  (c.token :: c.rest).map Token.lexeme

namespace Grammar

/-! ## The forms -/

/-- What brackets around numbers and colons may hold. -/
inductive Form where
  | index (position : Int64)
  /-- A third segment may be missing together with its colon. -/
  | slice (start stop : Option Int64) (step : Option (Option Int64))

/-- The lexemes of a segment, which may be left out. -/
def boundLexemes (bound : Option Int64) : List Lexeme :=
  bound.toList.map .number

namespace Form

/-- The lexemes before the closing bracket. -/
def inner : Form → List Lexeme
  | index position => [.number position]
  | slice start stop none => boundLexemes start ++ .colon :: boundLexemes stop
  | slice start stop (some step) =>
      boundLexemes start ++ .colon :: (boundLexemes stop ++ .colon :: boundLexemes step)

def lexemes (form : Form) : List Lexeme :=
  form.inner ++ [.rbracket]

/-- The segments between the colons. -/
def segments : Form → Segments
  | index position => ⟨[], some position⟩
  | slice start stop none => ⟨[start], stop⟩
  | slice start stop (some step) => ⟨[start, stop], step⟩

end Form

/-- The lexemes are those of some form, or the first ones of them. -/
def Viable (lexemes : List Lexeme) : Prop :=
  ∃ form : Form, lexemes <+: form.lexemes

/-- What is said to go on behind some lexemes inside brackets. -/
def goesOn (before : List Lexeme) : List TokenKind :=
  match before.getLast? with
  | some (.number _) => afterNumber
  | _ => afterColon

/-- What is wrong with a token with which no form goes on.  A colon is one too many: it may follow
everything else. -/
def deadEnd (before : List Lexeme) (found : TokenKind) : Complaint :=
  if found = .colon then .tooManyColons else .expectedOneOf (goesOn before) found

/-! ## Segments -/

namespace Segments

def start : Segments :=
  ⟨[], none⟩

/-- The segments behind one more lexeme, unless a form cannot go on with it. -/
def next? (segments : Segments) : Lexeme → Option Segments
  | .colon =>
      if segments.complete.length < 2 then some ⟨segments.complete ++ [segments.current], none⟩
      else none
  | .number n => if segments.current = none then some ⟨segments.complete, some n⟩ else none
  | _ => none

/-- The lexemes that segments have been read from. -/
def spelled (segments : Segments) : List Lexeme :=
  segments.complete.flatMap (fun bound => boundLexemes bound ++ [.colon]) ++
    boundLexemes segments.current

variable {segments after : Segments} {lexeme : Lexeme} {lexemes : List Lexeme}

/-- Only colons and numbers are read, and only where a form has room for them. -/
theorem next?_cases (next : segments.next? lexeme = some after) :
    (lexeme = .colon ∧ segments.complete.length < 2 ∧
      after = ⟨segments.complete ++ [segments.current], none⟩) ∨
    ∃ n, lexeme = .number n ∧ segments.current = none ∧ after = ⟨segments.complete, some n⟩ := by
  cases lexeme with
  | colon =>
      simp only [next?, Option.ite_none_right_eq_some, Option.some.injEq] at next
      exact .inl ⟨rfl, next.1, next.2.symm⟩
  | number n =>
      simp only [next?, Option.ite_none_right_eq_some, Option.some.injEq] at next
      exact .inr ⟨n, rfl, next.1, next.2.symm⟩
  | _ => cases next

theorem spelled_next? (next : segments.next? lexeme = some after) :
    after.spelled = segments.spelled ++ [lexeme] := by
  rcases next?_cases next with ⟨rfl, -, rfl⟩ | ⟨n, rfl, empty, rfl⟩
  · simp [spelled, boundLexemes]
  · simp [spelled, boundLexemes, empty]

theorem complete_next? (next : segments.next? lexeme = some after)
    (short : segments.complete.length ≤ 2) : after.complete.length ≤ 2 := by
  rcases next?_cases next with ⟨-, few, rfl⟩ | ⟨n, -, -, rfl⟩
  · rw [List.length_append, List.length_singleton]
    omega
  · exact short

theorem expected_of_next? (next : segments.next? lexeme = some after) :
    lexeme.kind ∈ segments.expected ∧ lexeme.kind ≠ .rbracket := by
  rcases next?_cases next with ⟨rfl, -, -⟩ | ⟨n, rfl, empty, -⟩
  · refine ⟨?_, by decide⟩
    rw [expected]
    split <;> decide
  · refine ⟨?_, fun close => by cases close⟩
    simp [expected, empty, afterColon, Lexeme.kind]

theorem goesOn_spelled (segments : Segments) : goesOn segments.spelled = segments.expected := by
  obtain ⟨complete, current⟩ := segments
  cases current with
  | some n => simp [goesOn, spelled, boundLexemes, expected]
  | none =>
      rcases complete.eq_nil_or_concat with rfl | ⟨first, last, rfl⟩
      · rfl
      · simp [goesOn, spelled, boundLexemes, expected]

/-- The segments behind some lexemes, unless a form cannot go on with one of them. -/
def read? (segments : Segments) (lexemes : List Lexeme) : Option Segments :=
  lexemes.foldlM next? segments

/-- By induction on the lexemes: each step spells one more. -/
theorem read?_spells (reads : segments.read? lexemes = some after)
    (short : segments.complete.length ≤ 2) :
    after.spelled = segments.spelled ++ lexemes ∧ after.complete.length ≤ 2 := by
  induction lexemes generalizing segments with
  | nil =>
      cases reads
      exact ⟨(List.append_nil _).symm, short⟩
  | cons lexeme lexemes ih =>
      rw [read?, List.foldlM_cons] at reads
      obtain ⟨mid, next, reads⟩ := Option.bind_eq_some_iff.mp reads
      have behind := ih reads (complete_next? next short)
      refine ⟨?_, behind.2⟩
      rw [behind.1, spelled_next? next, List.append_assoc, List.singleton_append]

theorem read?_segment (complete : List (Option Int64)) (bound : Option Int64) :
    read? ⟨complete, none⟩ (boundLexemes bound) = some ⟨complete, bound⟩ := by
  cases bound <;> rfl

theorem read?_append (segments : Segments) (first second : List Lexeme) :
    segments.read? (first ++ second) = segments.read? first >>= fun mid => mid.read? second :=
  List.foldlM_append

/-- Segments that have been read are those of a form, and the form is what has been read. -/
theorem exists_form (reads : start.read? lexemes = some after) (some_read : lexemes ≠ []) :
    ∃ form : Form, form.segments = after ∧ form.inner = lexemes := by
  obtain ⟨spells, short⟩ := read?_spells reads (Nat.zero_le 2)
  replace spells : after.spelled = lexemes := spells
  obtain ⟨complete, current⟩ := after
  subst spells
  match complete, current with
  | [], none => exact absurd rfl some_read
  | [], some position => exact ⟨.index position, rfl, rfl⟩
  | [first], second =>
      refine ⟨.slice first second none, rfl, ?_⟩
      simp [Form.inner, spelled]
  | [first, second], third =>
      refine ⟨.slice first second (some third), rfl, ?_⟩
      simp [Form.inner, spelled]
  | _ :: _ :: _ :: _, _ => simp at short

end Segments

open Segments

/-- The loop reads every form. -/
theorem Form.read?_inner (form : Form) : start.read? form.inner = some form.segments := by
  have colon (first : Option Int64) (lexemes : List Lexeme) :
      start.read? (boundLexemes first ++ .colon :: lexemes) = read? ⟨[first], none⟩ lexemes := by
    rw [read?_append, start, read?_segment]
    rfl
  rcases form with position | ⟨first, second, _ | third⟩
  · rfl
  · rw [inner, colon, read?_segment]
    rfl
  · rw [inner, colon, read?_append, read?_segment]
    exact read?_segment [first, second] third

theorem Viable.of_prefix {lexemes first : List Lexeme} (viable : Viable lexemes)
    (prefixed : first <+: lexemes) : Viable first := by
  obtain ⟨form, starts⟩ := viable
  exact ⟨form, prefixed.trans starts⟩

/-- No form goes on with a lexeme that the loop does not accept. -/
theorem not_viable_of_next? {before : List Lexeme} {lexeme : Lexeme} {segments : Segments}
    (reads : start.read? before = some segments) (stuck : segments.next? lexeme = none)
    (other : lexeme ≠ .rbracket) : ¬ Viable (before ++ [lexeme]) := by
  rintro ⟨form, starts⟩
  obtain same | inside := List.prefix_concat_iff.mp starts
  · exact other (List.append_inj' same rfl |>.2 |> List.singleton_inj.mp)
  · obtain ⟨behind, spelled⟩ := inside
    have whole := form.read?_inner
    rw [← spelled, List.append_assoc, read?_append, reads, Option.bind_eq_bind, Option.bind_some,
      List.singleton_append, read?, List.foldlM_cons, stuck] at whole
    cases whole

/-- What brackets of a form are read as, with the cursor behind them.  A slice is projected from. -/
def Form.outcome (lenient : Bool) (c : Cursor) : Form → Outcome Descent.Found
  | index position => .answer (.index position, c)
  | slice start stop step =>
      if step.join = some 0 then .failure .zeroStep
      else do
        let (body, c) ← Descent.read lenient (.projection TokenKind.star.power) c
        return (.eachItem (.slice ⟨start, stop, step.join⟩) body, c)

end Grammar

namespace Descent

open Grammar Grammar.Segments Outcome

/-! ## Reading brackets -/

variable {lenient : Bool} {c : Cursor} {segments after : Segments} {lexemes : List Lexeme}

/-- Reads on inside brackets, with the cursor behind what the segments have been read from. -/
def readSegments (lenient : Bool) (segments : Segments) (c : Cursor) : Outcome Found :=
  if c.kind ∉ segments.expected then fail c (.expectedOneOf segments.expected c.kind)
  else if c.kind = .rbracket then do
    let turned ← closeSegments (read lenient) segments.bounds segments.complete.length c.advance
    turned.resume (read lenient)
  else read lenient (.loop (.segments segments.bounds segments.complete.length)) c

theorem segmentsNext_eq (lenient : Bool) (segments : Segments) (c : Cursor) :
    (do
      let turned ← segmentsNext (read lenient) segments.bounds segments.complete.length
        segments.expected c
      turned.resume (read lenient)) = readSegments lenient segments c.advance := by
  by_cases listed : c.advance.kind ∈ segments.expected
  · have moved : advanceTo segments.expected c = .answer c.advance := by
      simp only [advanceTo, Cursor.expect, listed, if_true]
    rw [segmentsNext, moved, answer_bind, readSegments, if_neg (not_not.mpr listed)]
    split <;> rfl
  · have refused : advanceTo segments.expected c =
        fail c.advance (.expectedOneOf segments.expected c.advance.kind) := by
      simp only [advanceTo, Cursor.expect, listed, if_false]
      rfl
    rw [segmentsNext, refused, readSegments, if_pos listed]
    rfl

/-- One lexeme that the brackets go on with. -/
theorem readSegments_next (ended : c.Ended) (next : segments.next? c.token.lexeme = some after) :
    readSegments lenient segments c = readSegments lenient after c.advance := by
  have goes := expected_of_next? next
  have turns : readSegments lenient segments c =
      (do
        let turned ← segmentsTurn (read lenient) segments.bounds segments.complete.length c
        turned.resume (read lenient)) := by
    have listed : c.kind ∈ segments.expected := goes.1
    have other : c.kind ≠ .rbracket := goes.2
    rw [readSegments, if_neg (not_not.mpr listed), if_neg other, read_eq_perform ended]
    rfl
  rw [turns, ← segmentsNext_eq]
  congr 1
  obtain ⟨complete, current⟩ := segments
  unfold segmentsTurn
  rcases next?_cases next with ⟨found, few, rfl⟩ | ⟨n, found, -, rfl⟩
  · have few : complete.length < 2 := few
    have more : ¬ 2 < complete.length + 1 := by omega
    simp only [found, more, if_false, bounds_colon current few, List.length_append,
      List.length_singleton]
    rfl
  · simp only [found, bounds_number]
    rfl

/-- The bracket that closes a slice. -/
theorem closeSegments_slice (start stop : Option Int64) (step : Option (Option Int64))
    {colons : Nat} (some_colon : colons ≠ 0) :
    (do
      let turned ← closeSegments (read lenient) [start, stop, step.join] colons c
      turned.resume (read lenient)) = (Form.slice start stop step).outcome lenient c := by
  rw [closeSegments, if_neg some_colon, Form.outcome]
  simp only [List.getD_cons_zero, List.getD_cons_succ, Slice.ofBounds?, Slice.Allowed]
  by_cases zero : step.join = some 0
  · simp only [zero, ne_eq, not_true, if_false, if_true]
    rfl
  · simp only [zero, ne_eq, not_false_eq_true, if_true, if_false, bind_assoc]
    rfl

/-- The bracket that closes a form. -/
theorem readSegments_close (form : Form) (close : c.kind = .rbracket) :
    readSegments lenient form.segments c = form.outcome lenient c.advance := by
  have listed : c.kind ∈ form.segments.expected := by
    rw [close, expected]
    split <;> decide
  rw [readSegments, if_neg (not_not.mpr listed), if_pos close]
  rcases form with position | ⟨first, second, _ | third⟩
  · rfl
  · exact closeSegments_slice first second none Nat.one_ne_zero
  · exact closeSegments_slice first second (some third) (Nat.succ_ne_zero 1)

/-- A lexeme that the brackets cannot go on with. -/
theorem readSegments_stuck (ended : c.Ended) (reads : start.read? lexemes = some segments)
    (stuck : segments.next? c.token.lexeme = none) (other : c.kind ≠ .rbracket) :
    readSegments lenient segments c = fail c (deadEnd lexemes c.kind) := by
  have spells : segments.spelled = lexemes := (read?_spells reads (Nat.zero_le 2)).1
  by_cases colon : c.kind = .colon
  · -- brackets go on with a colon unless they hold two already
    have found : c.token.lexeme = .colon := Lexeme.eq_of_kind colon rfl
    have listed : c.kind ∈ segments.expected := by
      rw [colon, expected]
      split <;> decide
    have many : 2 < segments.complete.length + 1 := by
      by_contra few
      rw [found, next?, if_pos (by omega)] at stuck
      cases stuck
    rw [readSegments, if_neg (not_not.mpr listed), if_neg other, read_eq_perform ended, colon]
    simp only [perform, turn, segmentsTurn, found, many, if_true]
    rfl
  · have refused : c.kind ∉ segments.expected := by
      intro listed
      rcases continues_of_mem listed other with found | ⟨empty, n, found⟩
      · exact colon (kind_eq found)
      · rw [found, next?, if_pos empty] at stuck
        cases stuck
    rw [readSegments, if_pos refused, deadEnd, if_neg colon, ← spells, goesOn_spelled]

/-! ## Runs of the loop -/

theorem next?_eof (segments : Segments) (last : c.kind = .eof) :
    segments.next? c.token.lexeme = none := by
  rw [Lexeme.eq_of_kind last rfl]
  rfl

theorem lexemes_advance (ended : c.Ended) (more : c.kind ≠ .eof) :
    c.lexemes = c.token.lexeme :: c.advance.lexemes := by
  obtain ⟨text, token, rest⟩ := c
  cases rest with
  | nil => exact absurd ended more
  | cons next rest => rfl

/-- By induction on the lexemes that are read. -/
theorem readSegments_read (lenient : Bool) (ended : c.Ended)
    (reads : segments.read? lexemes = some after) (starts : lexemes <+: c.lexemes) :
    readSegments lenient segments c =
        readSegments lenient after (Cursor.advance^[lexemes.length] c) ∧
      (Cursor.advance^[lexemes.length] c).Ended ∧
      c.lexemes = lexemes ++ (Cursor.advance^[lexemes.length] c).lexemes := by
  induction lexemes generalizing segments c with
  | nil =>
      cases reads
      exact ⟨rfl, ended, rfl⟩
  | cons lexeme lexemes ih =>
      obtain rfl : lexeme = c.token.lexeme := (List.cons_prefix_cons.mp starts).1
      rw [read?, List.foldlM_cons] at reads
      obtain ⟨mid, next, reads⟩ := Option.bind_eq_some_iff.mp reads
      have more : c.kind ≠ .eof := by
        intro last
        rw [next?_eof segments last] at next
        cases next
      have passes := ended.passes_advance more
      rw [lexemes_advance ended more] at starts ⊢
      rw [readSegments_next ended next]
      have behind := ih (ended.of_reaches passes.reaches) reads (List.cons_prefix_cons.mp starts).2
      exact ⟨behind.1, behind.2.1, congrArg _ behind.2.2⟩

/-- By induction on the tokens that are left: the loop reads some of them, and not the next one. -/
theorem exists_read (ended : c.Ended) (segments : Segments) :
    ∃ lexemes after, segments.read? lexemes = some after ∧ lexemes <+: c.lexemes ∧
      after.next? (Cursor.advance^[lexemes.length] c).token.lexeme = none := by
  induction left : c.rest.length using Nat.strong_induction_on generalizing segments c with
  | _ left ih =>
      cases next : segments.next? c.token.lexeme with
      | none => exact ⟨[], segments, rfl, List.nil_prefix, next⟩
      | some mid =>
          have more : c.kind ≠ .eof := by
            intro last
            rw [next?_eof segments last] at next
            cases next
          have passes := ended.passes_advance more
          obtain ⟨lexemes, after, reads, starts, stuck⟩ :=
            ih _ (left ▸ passes.length_lt) (ended.of_reaches passes.reaches) mid rfl
          refine ⟨c.token.lexeme :: lexemes, after, ?_, ?_, stuck⟩
          · rw [read?, List.foldlM_cons, next]
            exact reads
          · rw [lexemes_advance ended more]
            exact List.cons_prefix_cons.mpr ⟨rfl, starts⟩

/-! ## Brackets -/

theorem lexeme_of_opens (opens : c.kind = .number ∨ c.kind = .colon) :
    c.token.lexeme = .colon ∨ ∃ n, c.token.lexeme = .number n := by
  cases found : c.token.lexeme with
  | number n => exact .inr ⟨n, rfl⟩
  | colon => exact .inl rfl
  | _ =>
      rw [kind_eq found] at opens
      exact absurd opens (by simp [Lexeme.kind])

theorem read_segments (opens : c.kind = .number ∨ c.kind = .colon) :
    read lenient (.loop (.segments [none, none, none] 0)) c = readSegments lenient start c := by
  have listed : c.kind ∈ start.expected := by
    rcases opens with number | colon
    · rw [number]
      decide
    · rw [colon]
      decide
  have other : c.kind ≠ .rbracket := by
    intro close
    rw [close] at opens
    exact absurd opens (by decide)
  rw [readSegments, if_neg (not_not.mpr listed), if_neg other]
  rfl

/-- Brackets of a form are read as it says. -/
theorem read_form (ended : c.Ended) (opens : c.kind = .number ∨ c.kind = .colon) {form : Form}
    (starts : form.lexemes <+: c.lexemes) :
    read lenient (.loop (.segments [none, none, none] 0)) c =
      form.outcome lenient (Cursor.advance^[form.lexemes.length] c) := by
  have inner : form.inner <+: c.lexemes := (List.prefix_append _ _).trans starts
  obtain ⟨reads, -, whole⟩ := readSegments_read lenient ended form.read?_inner inner
  have close : (Cursor.advance^[form.inner.length] c).kind = .rbracket := by
    rw [whole, Form.lexemes] at starts
    have first := (List.prefix_append_right_inj _).mp starts
    exact (congrArg Lexeme.kind (List.cons_prefix_cons.mp first).1).symm
  rw [read_segments opens, reads, readSegments_close form close, Form.lexemes, List.length_append,
    List.length_singleton, Function.iterate_succ_apply']

/-- Brackets of no form are read up to the first token with which none of them goes on. -/
theorem read_no_form (ended : c.Ended) (opens : c.kind = .number ∨ c.kind = .colon)
    (no_form : ∀ form : Form, ¬ form.lexemes <+: c.lexemes) :
    ∃ n < c.lexemes.length, (∀ m, Viable (c.lexemes.take m) ↔ m ≤ n) ∧
      read lenient (.loop (.segments [none, none, none] 0)) c =
        fail (Cursor.advance^[n] c)
          (deadEnd (c.lexemes.take n) (Cursor.advance^[n] c).kind) := by
  obtain ⟨before, after, reads, starts, stuck⟩ := exists_read ended start
  have some_read : before ≠ [] := by
    rintro rfl
    cases reads
    rcases lexeme_of_opens opens with found | ⟨n, found⟩
    · rw [List.length_nil, Function.iterate_zero_apply, found] at stuck
      cases stuck
    · rw [List.length_nil, Function.iterate_zero_apply, found] at stuck
      cases stuck
  obtain ⟨form, -, rfl⟩ := exists_form reads some_read
  obtain ⟨goes, endedThere, whole⟩ := readSegments_read lenient ended reads starts
  generalize stops : Cursor.advance^[form.inner.length] c = stop at *
  have spelled : c.lexemes = form.inner ++ stop.token.lexeme :: stop.rest.map Token.lexeme := whole
  have other : stop.kind ≠ .rbracket := by
    intro close
    refine no_form form ⟨stop.rest.map Token.lexeme, ?_⟩
    rw [spelled, Form.lexemes, Lexeme.eq_of_kind close rfl, List.append_assoc,
      List.singleton_append]
  have viable : Viable form.inner := ⟨form, List.prefix_append _ _⟩
  have dead : ¬ Viable (form.inner ++ [stop.token.lexeme]) :=
    not_viable_of_next? reads stuck fun close => other (kind_eq close)
  refine ⟨form.inner.length, ?_, fun m => ⟨fun goesOn => ?_, fun few => ?_⟩, ?_⟩
  · rw [spelled, List.length_append, List.length_cons]
    omega
  · by_contra more
    refine dead (goesOn.of_prefix (List.prefix_take_iff.mpr ⟨?_, ?_⟩))
    · rw [spelled]
      exact (List.prefix_append_right_inj _).mpr ⟨_, rfl⟩
    · rw [List.length_append, List.length_singleton]
      omega
  · refine viable.of_prefix ?_
    rw [spelled, List.take_append_of_le_length few]
    exact List.take_prefix m form.inner
  · rw [stops, read_segments opens, goes, readSegments_stuck endedThere reads stuck other, spelled,
      List.take_left]

/-- Behind a bracket that opens, the states of reading do what the loop does. -/
theorem finish_bracket (ended : c.Ended) (opens : c.kind = .number ∨ c.kind = .colon)
    (context : Context) :
    finish lenient ⟨.bracket, context⟩ c =
      read lenient (.loop (.segments [none, none, none] 0)) c >>= goOn lenient context := by
  have first := lexeme_of_opens opens
  have continues : Continues start c.token.lexeme :=
    ⟨Nat.zero_le 2, first.imp_right fun number => ⟨rfl, number⟩⟩
  have same : State.step lenient ⟨.bracket, context⟩ c.token.lexeme =
      State.step lenient ⟨.segments none start, context⟩ c.token.lexeme := by
    rcases first with found | ⟨n, found⟩
    · rw [found]
      rfl
    · rw [found]
      rfl
  exact (finish_congr rfl same).trans ((read_follows ended).agrees (.segments continues))

theorem finish_subscript (ended : c.Ended) (opens : c.kind = .number ∨ c.kind = .colon)
    (left : Query) (context : Context) :
    finish lenient ⟨.subscript left, context⟩ c =
      read lenient (.loop (.segments [none, none, none] 0)) c >>= fun found =>
        goOn lenient context (.chain left found.1, found.2) := by
  have listed : c.kind ∈ afterSubscript := by
    rcases opens with number | colon
    · rw [number]
      decide
    · rw [colon]
      decide
  have other : c.kind ≠ .star := by
    intro star
    rw [star] at opens
    exact absurd opens (by decide)
  have opened := step_subscript_opens listed other lenient left context
  exact (finish_congr rfl opened.2).trans ((read_follows ended).agrees (.segments opened.1))

/-- Brackets that start with a number or a colon are read past their end exactly if they hold an
index or a slice.  Otherwise reading stops at the first token with which no index and no slice goes
on. -/
theorem brackets_hold_forms (lenient : Bool) (ended : c.Ended)
    (opens : c.kind = .number ∨ c.kind = .colon) :
    (∀ form : Form, form.lexemes <+: c.lexemes →
      read lenient (.loop (.segments [none, none, none] 0)) c =
        form.outcome lenient (Cursor.advance^[form.lexemes.length] c)) ∧
    ((∀ form : Form, ¬ form.lexemes <+: c.lexemes) →
      ∃ n < c.lexemes.length, (∀ m, Viable (c.lexemes.take m) ↔ m ≤ n) ∧
        read lenient (.loop (.segments [none, none, none] 0)) c =
          fail (Cursor.advance^[n] c)
            (deadEnd (c.lexemes.take n) (Cursor.advance^[n] c).kind)) ∧
    (∀ context,
      finish lenient ⟨.bracket, context⟩ c =
        read lenient (.loop (.segments [none, none, none] 0)) c >>= goOn lenient context) ∧
    ∀ left context,
      finish lenient ⟨.subscript left, context⟩ c =
        read lenient (.loop (.segments [none, none, none] 0)) c >>= fun found =>
          goOn lenient context (.chain left found.1, found.2) := by
  refine ⟨?_, read_no_form ended opens, finish_bracket ended opens, finish_subscript ended opens⟩
  intro form starts
  exact read_form ended opens starts

theorem brackets_hold_forms_slice :
    read false (.loop (.segments [none, none, none] 0))
        ⟨"[1:2:]", ⟨.number 1, 1⟩,
          [⟨.colon, 2⟩, ⟨.number 2, 3⟩, ⟨.colon, 4⟩, ⟨.rbracket, 5⟩, ⟨.eof, 6⟩]⟩ =
      .answer (.eachItem (.slice ⟨some 1, some 2, none⟩) .current, ⟨"[1:2:]", ⟨.eof, 6⟩, []⟩) ∧
    read false (.loop (.segments [none, none, none] 0))
        ⟨"[:::]", ⟨.colon, 1⟩, [⟨.colon, 2⟩, ⟨.colon, 3⟩, ⟨.rbracket, 4⟩, ⟨.eof, 5⟩]⟩ =
      .failure (.malformed .tooManyColons "[:::]" 3) := by
  constructor
  · have ended : Cursor.Ended ⟨"[1:2:]", ⟨.number 1, 1⟩,
        [⟨.colon, 2⟩, ⟨.number 2, 3⟩, ⟨.colon, 4⟩, ⟨.rbracket, 5⟩, ⟨.eof, 6⟩]⟩ := by
      simp [Cursor.Ended, Token.EndsAt, Token.kind, Lexeme.kind]
    have form := (brackets_hold_forms false ended (.inl rfl)).1
    exact form (.slice (some 1) (some 2) (some none)) ⟨[.eof], rfl⟩
  · have ended : Cursor.Ended
        ⟨"[:::]", ⟨.colon, 1⟩, [⟨.colon, 2⟩, ⟨.colon, 3⟩, ⟨.rbracket, 4⟩, ⟨.eof, 5⟩]⟩ := by
      simp [Cursor.Ended, Token.EndsAt, Token.kind, Lexeme.kind]
    have no_form : ∀ form : Form, ¬ form.lexemes <+:
        [.colon, .colon, .colon, .rbracket, .eof] := by
      rintro (position | ⟨_ | start, _ | stop, _ | _ | step⟩) starts <;>
        simp [Form.lexemes, Form.inner, boundLexemes] at starts
    obtain ⟨n, -, first, stopped⟩ := (brackets_hold_forms false ended (.inr rfl)).2.1 no_form
    have two := (first 2).mp ⟨.slice none none (some none), ⟨[.rbracket], rfl⟩⟩
    have surplus : ¬ Viable ([.colon, .colon] ++ [.colon]) :=
      not_viable_of_next? rfl rfl fun close => by cases close
    have three := (first 3).not.mp surplus
    obtain rfl : n = 2 := by omega
    exact stopped

end Descent

end JsonQuery
