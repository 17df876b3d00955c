import JsonQuery.Proofs.Evaluation.Simplify
import JsonQuery.Proofs.Grammar.Extension
import JsonQuery.Proofs.Session.History

/-!
# The scope of projections

Suffixes behind a projection are read in its body, where they nest differently than behind an
operand.  Both readings answer alike: while suffixes are read behind the current node on the one
hand and in a body on the other, the two differ only by a member access on the current node that
one of them still waits for.
-/

set_option autoImplicit false

namespace JsonQuery

open Grammar

/-! ## Queries that answer alike -/

namespace Query

/-- Simplified, both have the same outcomes. -/
def Agrees (p q : Query) : Prop :=
  ∀ (apply : Builtin.Apply) (v : Value), evalWith apply p.simplify v = evalWith apply q.simplify v

namespace Agrees

variable {p q p' q' : Query}

theorem refl (q : Query) : q.Agrees q :=
  fun _ _ => rfl

theorem chain (left : p.Agrees q) (right : p'.Agrees q') :
    (Query.chain p p').Agrees (.chain q q') := by
  intro apply v
  simp only [simplify, evalWith_fuseChain, evalWith]
  rw [left apply v, funext (right apply)]

theorem chain_current (agrees : p.Agrees q) : p.Agrees (.chain .current q) := by
  intro apply v
  simp only [simplify, evalWith_fuseChain, evalWith, Outcome.answer_bind]
  exact agrees apply v

theorem eachItem (target : p.Agrees q) (body : p'.Agrees q') :
    (Query.eachItem p p').Agrees (.eachItem q q') := by
  intro apply v
  simp only [simplify, evalWith_fuseItems, evalWith]
  rw [target apply v, funext (body apply)]

theorem eachMember (target : p.Agrees q) (body : p'.Agrees q') :
    (Query.eachMember p p').Agrees (.eachMember q q') := by
  intro apply v
  simp only [simplify, evalWith_fuseMembers, evalWith]
  rw [target apply v, funext (body apply)]

theorem guard (test : Query) (body : p.Agrees q) :
    (Query.guard test p).Agrees (.guard test q) := by
  intro apply v
  simp only [simplify, evalWith_fuseGuard, evalWith]
  rw [body apply v]

end Agrees

end Query

/-! ## Readings that answer alike -/

namespace Grammar

structure Source.Agrees (s t : Source) : Prop where
  power : s.power = t.power
  project {p q : Query} (body : p.Agrees q) : (s.project p).Agrees (t.project q)

structure Pending.Agrees (waiting waiting' : Pending) : Prop where
  power : waiting.power = waiting'.power
  complete {p q : Query} (right : p.Agrees q) :
    (waiting.complete p).Agrees (waiting'.complete q)

namespace Source.Agrees

variable {p q : Query}

theorem items (target : p.Agrees q) : (Source.items p).Agrees (.items q) :=
  ⟨rfl, fun body => target.eachItem body⟩

theorem members (target : p.Agrees q) : (Source.members p).Agrees (.members q) :=
  ⟨rfl, fun body => target.eachMember body⟩

theorem filtered (target : p.Agrees q) (test : Query) :
    (Source.filtered p test).Agrees (.filtered q test) :=
  ⟨rfl, fun body => target.eachItem (body.guard test)⟩

theorem sliced (target : p.Agrees q) (s : Slice) :
    (Source.sliced (some p) s).Agrees (.sliced (some q) s) :=
  ⟨rfl, fun body => target.chain ((Query.Agrees.refl _).eachItem body)⟩

theorem sliced_none (s : Slice) : (Source.sliced none s).Agrees (.sliced none s) :=
  ⟨rfl, fun body => (Query.Agrees.refl _).eachItem body⟩

theorem sliced_current (s : Slice) : (Source.sliced none s).Agrees (.sliced (some .current) s) :=
  ⟨rfl, fun body => ((Query.Agrees.refl _).eachItem body).chain_current⟩

theorem projection {s t : Source} (sources : s.Agrees t) :
    (Pending.projection s).Agrees (.projection t) :=
  ⟨sources.power, sources.project⟩

end Source.Agrees

theorem Pending.Agrees.member {p q : Query} (left : p.Agrees q) :
    (Pending.member p).Agrees (.member q) :=
  ⟨rfl, fun right => left.chain right⟩

/-- The waiting operators complete alike, up to a member access on the current node outside of all
others. -/
inductive WaitAlike : List Pending → List Pending → Prop
  | none : WaitAlike [] []
  | member : WaitAlike [] [.member .current]
  | cons {p q : Pending} (agrees : p.Agrees q) {ps qs : List Pending} (others : WaitAlike ps qs) :
      WaitAlike (p :: ps) (q :: qs)

theorem WaitAlike.settle {ps qs : List Pending} (waits : WaitAlike ps qs) (power : Nat)
    {p q : Query} (right : p.Agrees q) :
    WaitAlike (settle power ps p).1 (settle power qs q).1 ∧
      (settle power ps p).2.Agrees (settle power qs q).2 := by
  induction waits generalizing p q with
  | none => exact ⟨.none, right⟩
  | member =>
      rw [Grammar.settle, Grammar.settle]
      split
      · exact ⟨.member, right⟩
      · exact ⟨.none, right.chain_current⟩
  | cons agrees others ih =>
      rw [Grammar.settle, Grammar.settle, agrees.power]
      split
      · exact ⟨.cons agrees others, right⟩
      · exact ih (agrees.complete right)

inductive Stop.Agrees : Stop → Stop → Prop
  | operand {p q : Query} (agrees : p.Agrees q) : Agrees (.operand p) (.operand q)
  | body {s t : Source} (agrees : s.Agrees t) : Agrees (.body s) (.body t)

namespace Progress

structure Agrees (progress progress' : Progress) : Prop where
  stop : progress.stop.Agrees progress'.stop
  pending : WaitAlike progress.pending progress'.pending

theorem Agrees.query {progress progress' : Progress} (agrees : progress.Agrees progress') :
    progress.query.Agrees progress'.query := by
  obtain ⟨stop, pending⟩ := progress
  obtain ⟨stop', pending'⟩ := progress'
  obtain ⟨stops, waits⟩ := agrees
  cases stops with
  | operand same => exact (waits.settle 0 same).2
  | body sources => exact (waits.settle 0 (sources.project (Query.Agrees.refl _))).2

end Progress

end Grammar

namespace Suffix

variable {parser : Parser}

theorem behind_agrees (suffix : Suffix parser) {p q : Query} (left : p.Agrees q)
    {ps qs : List Pending} (waits : WaitAlike ps qs) :
    (suffix.behind p ps).Agrees (suffix.behind q qs) := by
  cases suffix with
  | dot primary => exact ⟨.operand (.refl _), .cons (.member left) waits⟩
  | members => exact ⟨.body (.members left), waits⟩
  | index position => exact ⟨.operand (left.chain (.refl _)), waits⟩
  | slice bounds => exact ⟨.body (.sliced left _), waits⟩
  | items => exact ⟨.body (.items left), waits⟩
  | filter test => exact ⟨.body (.filtered left _), waits⟩

theorem start_agrees (suffix : Suffix parser) : suffix.start.Agrees suffix.start := by
  cases suffix with
  | dot primary => exact .operand (.refl _)
  | members => exact .body (.members (.refl _))
  | index position => exact .operand (.refl _)
  | slice bounds => exact .body (.sliced_none _)
  | items => exact .body (.items (.refl _))
  | filter test => exact .body (.filtered (.refl _) _)

theorem after_agrees (suffix : Suffix parser) {progress progress' : Progress}
    (agrees : progress.Agrees progress') :
    (after progress suffix).Agrees (after progress' suffix) := by
  obtain ⟨stop, pending⟩ := progress
  obtain ⟨stop', pending'⟩ := progress'
  obtain ⟨stops, waits⟩ := agrees
  cases stops with
  | operand same =>
      have settled := waits.settle suffix.power same
      exact suffix.behind_agrees settled.2 settled.1
  | body sources => exact ⟨suffix.start_agrees, .cons sources.projection waits⟩

theorem start_agrees_behind_current (suffix : Suffix parser) :
    Progress.Agrees ⟨suffix.start, []⟩ (suffix.behind .current []) := by
  cases suffix with
  | dot primary => exact ⟨.operand (.refl _), .member⟩
  | members => exact ⟨.body (.members (.refl _)), .none⟩
  | index position => exact ⟨.operand (Query.Agrees.refl _).chain_current, .none⟩
  | slice bounds => exact ⟨.body (.sliced_current _), .none⟩
  | items => exact ⟨.body (.items (.refl _)), .none⟩
  | filter test => exact ⟨.body (.filtered (.refl _) _), .none⟩

/-! ## The projection around a body -/

theorem behind_append (suffix : Suffix parser) (left : Query) (pending : List Pending)
    (outermost : Pending) :
    suffix.behind left (pending ++ [outermost]) =
      ⟨(suffix.behind left pending).stop, (suffix.behind left pending).pending ++ [outermost]⟩ := by
  cases suffix <;> rfl

theorem after_append (suffix : Suffix parser) {outermost : Pending}
    (weaker : outermost.power < suffix.power) (stop : Stop) (pending : List Pending) :
    after ⟨stop, pending ++ [outermost]⟩ suffix =
      ⟨(after ⟨stop, pending⟩ suffix).stop,
        (after ⟨stop, pending⟩ suffix).pending ++ [outermost]⟩ := by
  cases stop with
  | operand q =>
      rw [after, OperatorTree.settle_append_weaker weaker, behind_append]
      rfl
  | body source => rfl

theorem filter_power_le (suffix : Suffix parser) : TokenKind.filter.power ≤ suffix.power := by
  cases suffix <;> simp only [power] <;> decide

end Suffix

namespace Grammar

theorem settle_zero (pending : List Pending) (q : Query) :
    settle 0 pending q = ([], (settle 0 pending q).2) := by
  induction pending generalizing q with
  | nil => rfl
  | cons p ps ih => exact ih (p.complete q)

theorem Progress.query_append (stop : Stop) (pending : List Pending) (outermost : Pending) :
    Progress.query ⟨stop, pending ++ [outermost]⟩ =
      outermost.complete (Progress.query ⟨stop, pending⟩) := by
  have settled (q : Query) : (settle 0 (pending ++ [outermost]) q).2 =
      outermost.complete (settle 0 pending q).2 := by
    rw [OperatorTree.settle_append (settle_zero pending q)]
    rfl
  cases stop with
  | operand q => exact settled q
  | body source => exact settled (source.project .current)

end Grammar

section Chains

variable {parser : Parser}

theorem extend_agrees {progress progress' : Progress} (agrees : progress.Agrees progress')
    (chain : List (Suffix parser)) :
    (progress.extend chain).Agrees (progress'.extend chain) := by
  induction chain generalizing progress progress' with
  | nil => exact agrees
  | cons suffix rest ih => exact ih (suffix.after_agrees agrees)

theorem extend_append {outermost : Pending} (weak : outermost.power < TokenKind.filter.power)
    (stop : Stop) (pending : List Pending) (chain : List (Suffix parser)) :
    Progress.extend ⟨stop, pending ++ [outermost]⟩ chain =
      ⟨(Progress.extend ⟨stop, pending⟩ chain).stop,
        (Progress.extend ⟨stop, pending⟩ chain).pending ++ [outermost]⟩ := by
  -- no suffix is weaker than a filter, so none completes the outermost operator
  induction chain generalizing stop pending with
  | nil => rfl
  | cons suffix rest ih =>
      have weaker := Nat.lt_of_lt_of_le weak suffix.filter_power_le
      have first := suffix.after_append weaker stop pending
      simp only [Progress.extend, List.foldl_cons] at ih ⊢
      rw [first]
      exact ih _ _

/-- A chain of suffixes is read as the body of a projection, which answers as the chain behind the
current node. -/
theorem exists_body {source : Source} (weak : source.power < TokenKind.filter.power)
    (chain : List (Suffix parser)) :
    ∃ body, (Progress.extend ⟨.body source, []⟩ chain).query = source.project body ∧
      body.Agrees (Progress.extend ⟨.operand .current, []⟩ chain).query := by
  cases chain with
  | nil => exact ⟨.current, rfl, .refl _⟩
  | cons suffix rest =>
      have outermost : (Pending.projection source).power < TokenKind.filter.power := weak
      have framed := extend_append outermost suffix.start [] rest
      have started : Progress.extend ⟨.body source, []⟩ (suffix :: rest) =
          Progress.extend ⟨suffix.start, [] ++ [.projection source]⟩ rest := rfl
      refine ⟨(Progress.extend ⟨suffix.start, []⟩ rest).query, ?_, ?_⟩
      · rw [started, framed, Progress.query_append]
        rfl
      · exact (extend_agrees suffix.start_agrees_behind_current rest).query

end Chains

/-! ## Projections behind an expression -/

inductive Opener where
  | items
  | flattened
  | members

namespace Opener

def text : Opener → String
  | .items => "[*]"
  | .flattened => "[]"
  | .members => ".*"

def lexemes : Opener → List Lexeme
  | .items => [.lbracket, .star, .rbracket]
  | .flattened => [.flatten]
  | .members => [.dot, .star]

def source : Opener → Query → Source
  | .items, target => .items target
  | .flattened, target => .flattened target
  | .members, target => .members target

/-- What is projected from a value, if it is of the right kind. -/
def elements? : Opener → Value → Option (List Value)
  | .items, .array values => some values
  | .flattened, .array values => some (values.flatMap Value.flattened)
  | .members, .object entries => some (Entries.values entries)
  | _, _ => none

/-- The array of the answers on what is projected from a value, without nulls; null where there is
nothing to project from. -/
def project (opener : Opener) (eval : Value → Outcome Value) (v : Value) : Outcome Value :=
  match opener.elements? v with
  | none => .answer .null
  | some elements => do
      let answers ← Outcome.traverse eval elements
      return .array (answers.filter fun answer => !answer.isNull)

theorem power_source (opener : Opener) (target : Query) :
    (opener.source target).power < TokenKind.filter.power := by
  cases opener <;> simp only [source, Source.power] <;> decide

theorem lexemes_append (opener : Opener) (tail : List Char) :
    JsonQuery.lexemes (opener.text.toList ++ tail) = opener.lexemes ++ JsonQuery.lexemes tail := by
  cases opener with
  | items => exact lexemes_items tail
  | flattened => exact Lexeme.lexemes_cons rfl
  | members => exact lexemes_members tail

theorem evalWith_project (opener : Opener) (target body : Query) (apply : Builtin.Apply)
    (v : Value) :
    Query.evalWith apply ((opener.source target).project body).simplify v =
      Query.evalWith apply target.simplify v >>=
        opener.project (Query.evalWith apply body.simplify) := by
  cases opener with
  | items =>
      simp only [source, Source.project, Query.simplify, Query.evalWith_fuseItems, Query.evalWith]
      congr 1
      funext a
      cases a <;> rfl
  | flattened =>
      simp only [source, Source.project, Query.simplify, Query.evalWith_fuseItems, Query.evalWith,
        bind_assoc, Outcome.pure_eq, Outcome.answer_bind]
      congr 1
      funext a
      cases a <;> rfl
  | members =>
      simp only [source, Source.project, Query.simplify, Query.evalWith_fuseMembers, Query.evalWith]
      congr 1
      funext a
      cases a <;> rfl

end Opener

section Scope

variable {parser : Parser}

def projectionText (e : Reading parser) (opener : Opener) (chain : List (Suffix parser)) : String :=
  "(" ++ e.text ++ ")" ++ opener.text ++ suffixText chain

theorem lexemes_projectionText (e : Reading parser) (opener : Opener)
    (chain : List (Suffix parser)) :
    lexemes (projectionText e opener chain).toList =
      .lparen :: (e.lexemes ++ .rparen :: (opener.lexemes ++ chain.flatMap Suffix.lexemes)) := by
  have spelled : (projectionText e opener chain).toList =
      '(' :: (e.text.toList ++ ')' :: (opener.text.toList ++ (suffixText chain).toList)) := by
    simp [projectionText]
  rw [spelled, Lexeme.lexemes_mark (by decide), e.isLocal _ (startsSeparate_cons (by decide) _),
    Lexeme.lexemes_mark (by decide), opener.lexemes_append, lexemes_suffixText]
  rfl

theorem parse_projectionText (e : Reading parser) (opener : Opener)
    (chain : List (Suffix parser)) :
    parser.parse (projectionText e opener chain) =
      .ok (Progress.extend ⟨.body (opener.source e.query), []⟩ chain).query := by
  have grouped := walk_group e.reads .outermost
    (opener.lexemes ++ (chain.flatMap Suffix.lexemes ++ [.eof]))
  have opened : walk parser.lenient ⟨.operator e.query, .outermost⟩
      (opener.lexemes ++ (chain.flatMap Suffix.lexemes ++ [.eof])) =
      walk parser.lenient (Progress.state ⟨.body (opener.source e.query), []⟩)
        (chain.flatMap Suffix.lexemes ++ [.eof]) := by
    cases opener <;> rfl
  rw [parse_eq_ok, lexemes_projectionText, List.cons_append, List.append_assoc, List.cons_append,
    List.append_assoc]
  exact grouped.trans (opened.trans (walk_suffixes chain _))

theorem parse_current (chain : List (Suffix parser)) :
    parser.parse ("@" ++ suffixText chain) =
      .ok (Progress.extend ⟨.operand .current, []⟩ chain).query := by
  have spelled : ("@" ++ suffixText chain).toList = '@' :: (suffixText chain).toList := by simp
  rw [parse_eq_ok, spelled, Lexeme.lexemes_mark (by decide), lexemes_suffixText]
  exact walk_suffixes chain ⟨.operand .current, []⟩

end Scope

/-- Whatever suffixes follow a projection apply to each element that it projects, as they do behind
the current node: at every depth of evaluation, and for every search. -/
theorem search_projectionText (options : Options) (e : Reading ⟨options.lenient⟩) (opener : Opener)
    (chain : List (Suffix ⟨options.lenient⟩)) :
    (∃ whole each, Parser.parse ⟨options.lenient⟩ (projectionText e opener chain) = .ok whole ∧
      Parser.parse ⟨options.lenient⟩ ("@" ++ suffixText chain) = .ok each ∧
      ∀ depth v, whole.simplify.eval depth v =
        e.query.simplify.eval depth v >>= opener.project (each.simplify.eval depth)) ∧
      ∀ v, searchWith options (projectionText e opener chain) v =
        searchWith options e.text v >>=
          opener.project (searchWith options ("@" ++ suffixText chain)) := by
  obtain ⟨body, read, agrees⟩ := exists_body (opener.power_source e.query) chain
  have parsed := parse_projectionText e opener chain
  rw [read] at parsed
  have parsedEach := parse_current chain
  have evaluated (apply : Builtin.Apply) (v : Value) :
      Query.evalWith apply ((opener.source e.query).project body).simplify v =
        Query.evalWith apply e.query.simplify v >>= opener.project (Query.evalWith apply
          (Progress.extend ⟨.operand .current, []⟩ chain).query.simplify) := by
    rw [opener.evalWith_project, funext (agrees _)]
  refine ⟨⟨_, _, parsed, parsedEach, fun depth v => ?_⟩, fun v => ?_⟩
  · obtain ⟨apply, evaluates⟩ := Query.exists_eval_eq_evalWith depth
    rw [evaluates]
    exact evaluated apply v
  · have each : searchWith options ("@" ++ suffixText chain) = _ :=
      funext (searchWith_of_parse parsedEach)
    rw [searchWith_of_parse parsed, searchWith_of_parse e.reads, each, Query.search_eq_evalWith]
    exact evaluated Query.search v

theorem search_projectionText_filter :
    ∃ (e : Reading ⟨false⟩) (chain : List (Suffix ⟨false⟩)),
      projectionText e .items chain = "(a)[*].b[?c][:2]" ∧ suffixText chain = ".b[?c][:2]" ∧
        ∀ v, searchWith .standard (projectionText e .items chain) v =
          searchWith .standard e.text v >>=
            Opener.items.project (searchWith .standard ("@" ++ suffixText chain)) := by
  have readA : (Parser.mk false).parse "a" = .ok (.field "a") := by cbv
  have readC : (Parser.mk false).parse "c" = .ok (.field "c") := by cbv
  have readB : lexemes "b".toList = [.identifier "b"] := by cbv
  have readTwo : lexemes "2".toList = [.number 2] := by cbv
  refine ⟨⟨"a", _, readA⟩, [.dot (.field (.plain "b" ⟨"b", readB⟩)), .filter ⟨"c", _, readC⟩,
    .slice ⟨none, some ⟨2, "2", readTwo⟩, none, by simp⟩], by cbv, by cbv, ?_⟩
  exact (search_projectionText .standard _ .items _).2

end JsonQuery
