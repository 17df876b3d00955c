import JsonQuery.Proofs.Evaluation.Projection

/-!
# The scope of lists

A list behind a dot is all of the right-hand side there.  So a list in the body of a projection ends
the projection, which a hash in its place does not: suffixes behind the list apply once, to the
array of all that the projection collected.
-/

set_option autoImplicit false

namespace JsonQuery

open Grammar

/-! ## Queries behind another -/

namespace Query.Agrees

variable {left p q p' q' : Query}

theorem chain_behind (agrees : p.Agrees (.chain left q)) (right : p'.Agrees q') :
    (Query.chain p p').Agrees (.chain left (.chain q q')) := by
  intro apply v
  have first := agrees apply v
  simp only [simplify, evalWith_fuseChain, evalWith] at first ⊢
  rw [first, funext (right apply), bind_assoc]

theorem eachItem_behind (agrees : p.Agrees (.chain left q)) (body : p'.Agrees q') :
    (Query.eachItem p p').Agrees (.chain left (.eachItem q q')) := by
  intro apply v
  have target := agrees apply v
  simp only [simplify, evalWith_fuseChain, evalWith_fuseItems, evalWith] at target ⊢
  rw [target, funext (body apply), bind_assoc]

theorem eachMember_behind (agrees : p.Agrees (.chain left q)) (body : p'.Agrees q') :
    (Query.eachMember p p').Agrees (.chain left (.eachMember q q')) := by
  intro apply v
  have target := agrees apply v
  simp only [simplify, evalWith_fuseChain, evalWith_fuseMembers, evalWith] at target ⊢
  rw [target, funext (body apply), bind_assoc]

theorem chain_of_current (q : Query) : q.Agrees (.chain q .current) := by
  intro apply v
  simp only [simplify, evalWith_fuseChain, evalWith]
  exact (bind_pure _).symm

end Query.Agrees

/-! ## Readings behind a query -/

namespace Grammar

/-- With alike bodies, the first projects from the answer of `left` what the second projects. -/
structure Source.Behind (left : Query) (s t : Source) : Prop where
  power : s.power = t.power
  project {p q : Query} (body : p.Agrees q) : (s.project p).Agrees (.chain left (t.project q))

structure Pending.Behind (left : Query) (waiting waiting' : Pending) : Prop where
  power : waiting.power = waiting'.power
  complete {p q : Query} (right : p.Agrees q) :
    (waiting.complete p).Agrees (.chain left (waiting'.complete q))

/-- The outermost waiting operators complete behind `left`, all others alike. -/
inductive WaitBehind (left : Query) : List Pending → List Pending → Prop
  | last {p q : Pending} (behind : p.Behind left q) : WaitBehind left [p] [q]
  | cons {p q : Pending} (agrees : p.Agrees q) {ps qs : List Pending}
      (others : WaitBehind left ps qs) : WaitBehind left (p :: ps) (q :: qs)

/-- What has been read goes on from the answer of `left` as the other goes on from the value. -/
inductive Progress.Behind (left : Query) : Progress → Progress → Prop
  | operand {p q : Query} (agrees : p.Agrees (.chain left q)) :
      Behind left ⟨.operand p, []⟩ ⟨.operand q, []⟩
  | body {s t : Source} (behind : s.Behind left t) : Behind left ⟨.body s, []⟩ ⟨.body t, []⟩
  | waiting {stop stop' : Stop} (stops : stop.Agrees stop') {ps qs : List Pending}
      (waits : WaitBehind left ps qs) : Behind left ⟨stop, ps⟩ ⟨stop', qs⟩

variable {left : Query}

theorem WaitBehind.settle {ps qs : List Pending} (waits : WaitBehind left ps qs) (power : Nat)
    {p q : Query} (right : p.Agrees q) :
    Progress.Behind left ⟨.operand (settle power ps p).2, (settle power ps p).1⟩
      ⟨.operand (settle power qs q).2, (settle power qs q).1⟩ := by
  induction waits generalizing p q with
  | last behind =>
      simp only [Grammar.settle, behind.power]
      split
      · exact .waiting (.operand right) (.last behind)
      · exact .operand (behind.complete right)
  | cons agrees others ih =>
      rw [Grammar.settle, Grammar.settle, agrees.power]
      split
      · exact .waiting (.operand right) (.cons agrees others)
      · exact ih (agrees.complete right)

namespace Progress

variable {progress progress' : Progress}

theorem Behind.query (behind : progress.Behind left progress') :
    progress.query.Agrees (.chain left progress'.query) := by
  -- at the end of the text no operator waits any more
  have ended {p q : Query} {ps qs : List Pending} (right : p.Agrees q)
      (waits : WaitBehind left ps qs) :
      (settle 0 ps p).2.Agrees (.chain left (settle 0 qs q).2) := by
    have settled := waits.settle 0 right
    rw [settle_zero ps, settle_zero qs] at settled
    cases settled with
    | operand agrees => exact agrees
    | waiting _ none => cases none
  cases behind with
  | operand agrees => exact agrees
  | body behind => exact behind.project (Query.Agrees.refl _)
  | waiting stops waits =>
      cases stops with
      | operand same => exact ended same waits
      | body sources => exact ended (sources.project (Query.Agrees.refl _)) waits

end Progress

end Grammar

namespace Suffix

variable {parser : Parser} {left : Query}

theorem behind_of_chain (suffix : Suffix parser) {p q : Query} (agrees : p.Agrees (.chain left q)) :
    Progress.Behind left (suffix.behind p []) (suffix.behind q []) := by
  cases suffix with
  | dot primary =>
      exact .waiting (.operand (.refl _)) (.last ⟨rfl, fun right => agrees.chain_behind right⟩)
  | members => exact .body ⟨rfl, fun body => agrees.eachMember_behind body⟩
  | index position => exact .operand (agrees.chain_behind (.refl _))
  | slice bounds =>
      exact .body ⟨rfl, fun body => agrees.chain_behind ((Query.Agrees.refl _).eachItem body)⟩
  | items => exact .body ⟨rfl, fun body => agrees.eachItem_behind body⟩
  | filter test => exact .body ⟨rfl, fun body => agrees.eachItem_behind (body.guard _)⟩

theorem behind_of_wait (suffix : Suffix parser) {p q : Query} (same : p.Agrees q)
    {ps qs : List Pending} (waits : WaitBehind left ps qs) :
    Progress.Behind left (suffix.behind p ps) (suffix.behind q qs) := by
  have stops := (suffix.behind_agrees same .none).stop
  cases suffix with
  | dot primary => exact .waiting stops (.cons (.member same) waits)
  | _ => exact .waiting stops waits

theorem behind_of_operand (suffix : Suffix parser) {p q : Query} {ps qs : List Pending}
    (behind : Progress.Behind left ⟨.operand p, ps⟩ ⟨.operand q, qs⟩) :
    Progress.Behind left (suffix.behind p ps) (suffix.behind q qs) := by
  cases behind with
  | operand agrees => exact suffix.behind_of_chain agrees
  | waiting stops waits =>
      cases stops with
      | operand same => exact suffix.behind_of_wait same waits

theorem after_behind (suffix : Suffix parser) {progress progress' : Progress}
    (behind : progress.Behind left progress') :
    (after progress suffix).Behind left (after progress' suffix) := by
  cases behind with
  | operand agrees => exact suffix.behind_of_chain agrees
  | body source => exact .waiting suffix.start_agrees (.last ⟨source.power, source.project⟩)
  | waiting stops waits =>
      cases stops with
      | operand same => exact suffix.behind_of_operand (waits.settle suffix.power same)
      | body sources => exact .waiting suffix.start_agrees (.cons sources.projection waits)

end Suffix

section Chains

variable {parser : Parser}

theorem extend_behind {left : Query} {progress progress' : Progress}
    (behind : progress.Behind left progress') (chain : List (Suffix parser)) :
    (progress.extend chain).Behind left (progress'.extend chain) := by
  induction chain generalizing progress progress' with
  | nil => exact behind
  | cons suffix rest ih => exact ih (suffix.after_behind behind)

/-- A chain of suffixes behind an operand continues from its answer as behind the current node. -/
theorem extend_operand_agrees (q : Query) (chain : List (Suffix parser)) :
    (Progress.extend ⟨.operand q, []⟩ chain).query.Agrees
      (.chain q (Progress.extend ⟨.operand .current, []⟩ chain).query) :=
  (extend_behind (.operand (.chain_of_current q)) chain).query

end Chains

/-! ## Lists behind a dot -/

namespace Reading

variable {parser : Parser} (reading : Reading parser)

def grouped : List Char :=
  '(' :: (reading.text.toList ++ [')'])

def groupedLexemes : List Lexeme :=
  .lparen :: (reading.lexemes ++ [.rparen])

theorem lexemes_grouped (tail : List Char) :
    JsonQuery.lexemes (reading.grouped ++ tail) =
      reading.groupedLexemes ++ JsonQuery.lexemes tail := by
  have closes : Lexeme.StartsSeparate (')' :: tail) := startsSeparate_cons (by decide) tail
  rw [grouped, List.cons_append, List.append_assoc, List.singleton_append,
    Lexeme.lexemes_mark (by decide), reading.isLocal _ closes, Lexeme.lexemes_mark (by decide),
    groupedLexemes, List.cons_append, List.append_assoc]
  rfl

end Reading

section Lists

variable {parser : Parser}

/-- The items of a list behind the first, and its end. -/
def listRest (rest : List (Reading parser)) : List Char :=
  rest.flatMap (fun reading => ',' :: ' ' :: reading.grouped) ++ [']']

def listRestLexemes (rest : List (Reading parser)) : List Lexeme :=
  rest.flatMap (fun reading => .comma :: reading.groupedLexemes) ++ [.rbracket]

def listText (first : Reading parser) (rest : List (Reading parser)) : String :=
  String.ofList ('.' :: '[' :: (first.grouped ++ listRest rest))

theorem lexemes_listRest (rest : List (Reading parser)) (tail : List Char) :
    lexemes (listRest rest ++ tail) = listRestLexemes rest ++ lexemes tail := by
  induction rest with
  | nil => exact Lexeme.lexemes_mark (by decide) tail
  | cons next rest ih =>
      have blank (text : List Char) : lexemes (' ' :: text) = lexemes text :=
        Lexeme.lexemes_blank (by decide)
      simp only [listRest, listRestLexemes, List.flatMap_cons, List.append_assoc,
        List.cons_append] at ih ⊢
      rw [Lexeme.lexemes_mark (by decide), blank, next.lexemes_grouped, ih]
      rfl

theorem lexemes_listText (first : Reading parser) (rest : List (Reading parser))
    (tail : List Char) :
    lexemes ((listText first rest).toList ++ tail) =
      .dot :: .lbracket :: (first.groupedLexemes ++ (listRestLexemes rest ++ lexemes tail)) := by
  have opens (text : List Char) :
      lexemes ('[' :: (first.grouped ++ text)) = .lbracket :: lexemes (first.grouped ++ text) :=
    Lexeme.lexemes_single rfl rfl
  rw [listText, String.toList_ofList, List.cons_append, List.cons_append, List.append_assoc,
    Lexeme.lexemes_mark (by decide), opens, first.lexemes_grouped, lexemes_listRest]
  rfl

theorem walk_grouped (reading : Reading parser) (context : Context) (rest : List Lexeme) :
    walk parser.lenient ⟨.operand, context⟩ (reading.groupedLexemes ++ rest) =
      walk parser.lenient ⟨.operator reading.query, context⟩ rest := by
  rw [Reading.groupedLexemes, List.cons_append, List.append_assoc]
  exact walk_group reading.reads context rest

theorem walk_items (read : List Query) (owner : Option Pending) (context : Context)
    (first : Reading parser) (rest : List (Reading parser)) (tail : List Lexeme) :
    walk parser.lenient ⟨.operand, context.enter (.list read owner)⟩
        (first.groupedLexemes ++ (listRestLexemes rest ++ tail)) =
      closeList context (read ++ (first :: rest).map Reading.query) owner >>= fun next =>
        walk parser.lenient next tail := by
  induction rest generalizing read first with
  | nil =>
      rw [walk_grouped]
      rfl
  | cons next rest ih =>
      -- behind a comma the item starts in the mode that refuses the end of the list
      have others := ih (read ++ [first.query]) next
      rw [List.append_assoc] at others
      simp only [listRestLexemes, List.flatMap_cons, List.append_assoc, List.cons_append]
        at others ⊢
      rw [walk_grouped]
      exact others

/-- The list ends what its dot belongs to. -/
theorem walk_list (owner : Pending) (pending : List Pending) (first : Reading parser)
    (rest : List (Reading parser)) (chain : List (Suffix parser)) :
    walk parser.lenient ⟨.dot owner, ⟨pending, []⟩⟩
        (.lbracket :: (first.groupedLexemes ++
          (listRestLexemes rest ++ (chain.flatMap Suffix.lexemes ++ [.eof])))) =
      .ok ⟨.done (Progress.extend ⟨.operand (owner.complete
        (.list ((first :: rest).map Reading.query))), pending⟩ chain).query, .outermost⟩ := by
  have opened : (State.mk (.dot owner) ⟨pending, []⟩).step parser.lenient .lbracket =
      .ok ⟨.operand, Context.enter ⟨pending, []⟩ (.list [] (some owner))⟩ := rfl
  rw [walk_cons_of_step opened, walk_items]
  exact walk_suffixes chain ⟨.operand _, pending⟩

/-! ## Lists in the body of a projection -/

def projectedListText (e : Reading parser) (opener : Opener) (first : Reading parser)
    (rest : List (Reading parser)) (chain : List (Suffix parser)) : String :=
  "(" ++ e.text ++ ")" ++ opener.text ++ listText first rest ++ suffixText chain

def currentListText (first : Reading parser) (rest : List (Reading parser))
    (chain : List (Suffix parser)) : String :=
  "@" ++ listText first rest ++ suffixText chain

theorem parse_projectedListText (e : Reading parser) (opener : Opener) (first : Reading parser)
    (rest : List (Reading parser)) (chain : List (Suffix parser)) :
    parser.parse (projectedListText e opener first rest chain) =
      .ok (Progress.extend ⟨.operand ((opener.source e.query).project
        (.list ((first :: rest).map Reading.query))), []⟩ chain).query := by
  have spelled : (projectedListText e opener first rest chain).toList =
      e.grouped ++ (opener.text.toList ++
        ((listText first rest).toList ++ (suffixText chain).toList)) := by
    simp [projectedListText, Reading.grouped]
  have opened (tail : List Lexeme) :
      walk parser.lenient ⟨.operator e.query, .outermost⟩ (opener.lexemes ++ .dot :: tail) =
        walk parser.lenient ⟨.dot (.projection (opener.source e.query)), .outermost⟩ tail := by
    cases opener <;> rfl
  rw [parse_eq_ok, spelled, e.lexemes_grouped, opener.lexemes_append, lexemes_listText,
    lexemes_suffixText]
  simp only [List.append_assoc, List.cons_append]
  rw [State.start, walk_grouped, opened]
  exact walk_list _ [] first rest chain

theorem parse_currentListText (first : Reading parser) (rest : List (Reading parser))
    (chain : List (Suffix parser)) :
    parser.parse (currentListText first rest chain) =
      .ok (Progress.extend ⟨.operand (.chain .current
        (.list ((first :: rest).map Reading.query))), []⟩ chain).query := by
  have spelled : (currentListText first rest chain).toList =
      '@' :: ((listText first rest).toList ++ (suffixText chain).toList) := by
    simp [currentListText]
  have opened (tail : List Lexeme) :
      walk parser.lenient .start (.current :: .dot :: tail) =
        walk parser.lenient ⟨.dot (.member .current), .outermost⟩ tail := rfl
  rw [parse_eq_ok, spelled, Lexeme.lexemes_mark (by decide), lexemes_listText, lexemes_suffixText]
  simp only [List.append_assoc, List.cons_append]
  exact (opened _).trans (walk_list _ [] first rest chain)

theorem evalWith_projectedList (opener : Opener) (target list : Query)
    (chain : List (Suffix parser)) (apply : Builtin.Apply) (v : Value) :
    Query.evalWith apply
        (Progress.extend ⟨.operand ((opener.source target).project list), []⟩ chain).query.simplify
        v =
      (Query.evalWith apply target.simplify v >>=
          opener.project (Query.evalWith apply (Query.chain .current list).simplify)) >>=
        Query.evalWith apply (Progress.extend ⟨.operand .current, []⟩ chain).query.simplify := by
  have whole := extend_operand_agrees ((opener.source target).project list) chain apply v
  have current := funext ((Query.Agrees.refl list).chain_current apply)
  rw [whole, ← current, ← opener.evalWith_project, Query.simplify, Query.evalWith_fuseChain,
    Query.evalWith]

end Lists

/-- A list in the body of a projection collects an array from each element, and whatever suffixes
follow the list apply once to the array of these, as they do behind the current node. -/
theorem search_projectedListText (options : Options) (e : Reading ⟨options.lenient⟩)
    (opener : Opener) (first : Reading ⟨options.lenient⟩)
    (rest : List (Reading ⟨options.lenient⟩)) (chain : List (Suffix ⟨options.lenient⟩)) :
    (∃ whole each after,
      Parser.parse ⟨options.lenient⟩ (projectedListText e opener first rest chain) = .ok whole ∧
      Parser.parse ⟨options.lenient⟩ (currentListText first rest []) = .ok each ∧
      Parser.parse ⟨options.lenient⟩ ("@" ++ suffixText chain) = .ok after ∧
      ∀ depth v, whole.simplify.eval depth v =
        (e.query.simplify.eval depth v >>= opener.project (each.simplify.eval depth)) >>=
          after.simplify.eval depth) ∧
      ∀ v, searchWith options (projectedListText e opener first rest chain) v =
        (searchWith options e.text v >>=
            opener.project (searchWith options (currentListText first rest []))) >>=
          searchWith options ("@" ++ suffixText chain) := by
  have list := parse_projectedListText e opener first rest chain
  have each := parse_currentListText first rest []
  have after := parse_current chain
  have evaluated := evalWith_projectedList opener e.query
    (.list ((first :: rest).map Reading.query)) chain
  refine ⟨⟨_, _, _, list, each, after, fun depth v => ?_⟩, fun v => ?_⟩
  · obtain ⟨apply, evaluates⟩ := Query.exists_eval_eq_evalWith depth
    rw [evaluates]
    exact evaluated apply v
  · have searchEach : searchWith options (currentListText first rest []) = _ :=
      funext (searchWith_of_parse each)
    have searchAfter : searchWith options ("@" ++ suffixText chain) = _ :=
      funext (searchWith_of_parse after)
    rw [searchWith_of_parse list, searchWith_of_parse e.reads, searchEach, searchAfter,
      Query.search_eq_evalWith]
    exact evaluated Query.search v

/-- Read as a part of the body, the index would be taken from the list of each element instead. -/
theorem search_projectedListText_index :
    ∃ (e first : Reading ⟨false⟩) (chain : List (Suffix ⟨false⟩)),
      projectedListText e .items first [] chain = "(@)[*].[(@)][0]" ∧
        currentListText first [] chain = "@.[(@)][0]" ∧
        searchWith .standard (projectedListText e .items first [] chain)
            (.array [.int 1, .int 2]) = .answer (.array [.int 1]) ∧
        (searchWith .standard e.text (.array [.int 1, .int 2]) >>=
            Opener.items.project (searchWith .standard (currentListText first [] chain))) =
          .answer (.array [.int 1, .int 2]) := by
  have readCurrent : (Parser.mk false).parse "@" = .ok .current := by cbv
  have readZero : lexemes "0".toList = [.number 0] := by cbv
  have whole : (Parser.mk Options.standard.lenient).parse "(@)[*].[(@)][0]" =
      .ok (.chain (.eachItem .current (.list [.current])) (.index 0)) := by cbv
  have each : (Parser.mk Options.standard.lenient).parse "@.[(@)][0]" =
      .ok (.chain (.chain .current (.list [.current])) (.index 0)) := by cbv
  have spelled : "(@)[*].[(@)][0]" = projectedListText ⟨"@", _, readCurrent⟩ .items
      ⟨"@", _, readCurrent⟩ [] [.index ⟨0, "0", readZero⟩] := by cbv
  have spelledEach : "@.[(@)][0]" = currentListText ⟨"@", _, readCurrent⟩ []
      [.index ⟨0, "0", readZero⟩] := by cbv
  refine ⟨⟨"@", _, readCurrent⟩, ⟨"@", _, readCurrent⟩, [.index ⟨0, "0", readZero⟩],
    spelled.symm, spelledEach.symm, ?_, ?_⟩
  · rw [← spelled, searchWith_of_parse whole, Query.search_eq_evalWith]
    rfl
  · rw [← spelledEach, funext (searchWith_of_parse each), searchWith_of_parse readCurrent,
      Query.search_eq_evalWith]
    rfl

end JsonQuery
