import JsonQuery.Command.Run
import Mathlib

/-!
# What a session has answered before

A table of expressions only ever holds what its parser reads from their texts.  So a session answers
every call of a run as its parser does alone, whatever its table holds, loses or never held, and the
same goes for the searches that open a session of their own.
-/

set_option autoImplicit false

namespace JsonQuery

namespace Cache

variable {cache : Cache} {text : String}

/-- Every entry is what the parser reads from its text. -/
def Sound (cache : Cache) : Prop :=
  ∀ text query, cache.get? text = some query → cache.parser.parse text = .ok query

theorem sound_empty (parser : Parser) (capacity : Nat) : (empty parser capacity).Sound := by
  intro text query held
  cases held

theorem Sound.insert {query : Query} (sound : cache.Sound)
    (read : cache.parser.parse text = .ok query) : (cache.insert text query).Sound := by
  intro other found held
  simp only [Cache.insert, get?] at held ⊢
  -- a full table was emptied first, so an entry for another text may be gone, but is never changed
  by_cases same : other = text
  · subst same
    rw [Entries.get?_insert_self, Option.some_inj] at held
    rw [read, held]
  · rw [Entries.get?_insert_of_ne same] at held
    split at held
    · cases held
    · exact sound other found held

theorem parser_parse (cache : Cache) (text : String) :
    (cache.parse text).2.parser = cache.parser := by
  unfold parse parseWith
  split
  · rfl
  · split <;> rfl

theorem Sound.parse (sound : cache.Sound) (text : String) :
    (cache.parse text).1 = cache.parser.parse text ∧ (cache.parse text).2.Sound := by
  unfold Cache.parse parseWith
  cases held : cache.get? text with
  | some query => exact ⟨(sound text query held).symm, sound⟩
  | none =>
      cases read : cache.parser.parse text with
      | ok query => exact ⟨rfl, sound.insert read⟩
      | error e => exact ⟨rfl, sound⟩

end Cache

inductive Call where
  | search (text : String) (v : Value)
  | compile (text : String)

inductive Reply where
  | found (answer : Outcome Value)
  | compiled (result : Except Error Compiled)

namespace Parser

def search (parser : Parser) (text : String) (v : Value) : Outcome Value :=
  match parser.parse text with
  | .ok query => query.simplify.search v
  | .error e => .failure e

def compile (parser : Parser) (text : String) : Except Error Compiled :=
  (parser.parse text).map fun query => ⟨text, query.simplify⟩

def reply (parser : Parser) : Call → Reply
  | .search text v => .found (parser.search text v)
  | .compile text => .compiled (parser.compile text)

end Parser

namespace Session

def reply (session : Session) : Call → Reply × Session
  | .search text v =>
      let result := session.search text v
      (.found result.1, result.2)
  | .compile text =>
      let result := session.compile text
      (.compiled result.1, result.2)

def replies (session : Session) : List Call → List Reply
  | [] => []
  | call :: calls => (session.reply call).1 :: (session.reply call).2.replies calls

/-- The session reads with the given parser, from the texts or from what they gave before. -/
structure ReadsWith (parser : Parser) (session : Session) : Prop where
  parser_eq : session.parser = parser
  cached : ∀ cache, session.cache = some cache → cache.parser = parser ∧ cache.Sound

variable {parser : Parser} {session : Session}

theorem readsWith_start (options : Options) : (start options).ReadsWith ⟨options.lenient⟩ := by
  refine ⟨rfl, fun cache kept => ?_⟩
  rw [start] at kept
  split at kept
  · cases kept
    exact ⟨rfl, Cache.sound_empty _ _⟩
  · cases kept

theorem ReadsWith.parse (reads : session.ReadsWith parser) (text : String) :
    (session.parse text).1 = parser.parse text ∧ (session.parse text).2.ReadsWith parser := by
  obtain ⟨same, cached⟩ := reads
  unfold Session.parse
  cases kept : session.cache with
  | none => exact ⟨by rw [same], same, cached⟩
  | some cache =>
      obtain ⟨own, sound⟩ := cached cache kept
      obtain ⟨result, sound'⟩ := sound.parse text
      refine ⟨by rw [result, own], same, fun cache' kept' => ?_⟩
      obtain rfl := Option.some.inj kept'
      exact ⟨(cache.parser_parse text).trans own, sound'⟩

theorem ReadsWith.compile (reads : session.ReadsWith parser) (text : String) :
    (session.compile text).1 = parser.compile text ∧
      (session.compile text).2.ReadsWith parser := by
  obtain ⟨result, reads'⟩ := reads.parse text
  exact ⟨congrArg (Except.map fun query : Query => Compiled.mk text query.simplify) result, reads'⟩

theorem search_fst (session : Session) (text : String) (v : Value) :
    (session.search text v).1 =
      match (session.compile text).1 with
      | .ok compiled => compiled.search v
      | .error e => .failure e := by
  unfold Session.search
  split <;> simp_all

theorem search_snd (session : Session) (text : String) (v : Value) :
    (session.search text v).2 = (session.compile text).2 := by
  unfold Session.search
  split <;> simp_all

theorem ReadsWith.search (reads : session.ReadsWith parser) (text : String) (v : Value) :
    (session.search text v).1 = parser.search text v ∧
      (session.search text v).2.ReadsWith parser := by
  obtain ⟨result, reads'⟩ := reads.compile text
  refine ⟨?_, by rwa [search_snd]⟩
  rw [search_fst, result, Parser.compile, Parser.search]
  cases parser.parse text <;> rfl

/-- Whatever was asked before, a call gets the answer of the parser alone. -/
theorem ReadsWith.reply (reads : session.ReadsWith parser) (call : Call) :
    (session.reply call).1 = parser.reply call ∧ (session.reply call).2.ReadsWith parser := by
  cases call with
  | search text v =>
      obtain ⟨answer, reads'⟩ := reads.search text v
      exact ⟨congrArg Reply.found answer, reads'⟩
  | compile text =>
      obtain ⟨result, reads'⟩ := reads.compile text
      exact ⟨congrArg Reply.compiled result, reads'⟩

theorem ReadsWith.replies (reads : session.ReadsWith parser) (calls : List Call) :
    session.replies calls = calls.map parser.reply := by
  -- each call leaves another session, which still reads with the same parser
  induction calls generalizing session with
  | nil => rfl
  | cons call calls ih =>
      obtain ⟨first, reads'⟩ := reads.reply call
      rw [Session.replies, List.map_cons, first, ih reads']

end Session

theorem searchWith_eq (options : Options) (text : String) (v : Value) :
    searchWith options text v = Parser.search ⟨options.lenient⟩ text v :=
  ((Session.readsWith_start options).search text v).1

theorem searchWith_of_parse {options : Options} {text : String} {q : Query}
    (read : (Parser.mk options.lenient).parse text = .ok q) (v : Value) :
    searchWith options text v = q.simplify.search v := by
  rw [searchWith_eq, Parser.search, read]

/-! ## Searches from the command line -/

namespace SearchOptions

variable {request : SearchOptions}

def parser (request : SearchOptions) : Parser :=
  ⟨request.lenient⟩

end SearchOptions

/-! ## All entry points -/

end JsonQuery
