import JsonQuery.Proofs.Token.Scan

/-!
# Reading with related queries

Reading looks at tokens and never into the queries that it has built.  So two runs over one text,
each with its own setting, stay in step, and a relation between queries that every way of building
one respects holds of what they read.
-/

set_option autoImplicit false

namespace JsonQuery

namespace Grammar

/-! ## Related states -/

section Relations

variable (rel : Query → Query → Prop)

inductive Source.Related : Source → Source → Prop
  | items {p q : Query} (target : rel p q) : Related (.items p) (.items q)
  | members {p q : Query} (target : rel p q) : Related (.members p) (.members q)
  | flattened {p q : Query} (target : rel p q) : Related (.flattened p) (.flattened q)
  | filtered {p q p' q' : Query} (target : rel p q) (test : rel p' q') :
      Related (.filtered p p') (.filtered q q')
  | sliced {p q : Option Query} (target : Option.Rel rel p q) {s : Slice} (allowed : s.Allowed) :
      Related (.sliced p s) (.sliced q s)

inductive Pending.Related : Pending → Pending → Prop
  | reference : Related .reference .reference
  | negation : Related .negation .negation
  | connective (op : Connective) {p q : Query} (left : rel p q) :
      Related (.connective op p) (.connective op q)
  | member {p q : Query} (left : rel p q) : Related (.member p) (.member q)
  | projection {s t : Source} (source : Source.Related rel s t) :
      Related (.projection s) (.projection t)

inductive Bracket.Related : Bracket → Bracket → Prop
  | group : Related .group .group
  | filter {p q : Query} (target : rel p q) : Related (.filter p) (.filter q)
  | list {ps qs : List Query} (items : List.Forall₂ rel ps qs) {o o' : Option Pending}
      (owner : Option.Rel (Pending.Related rel) o o') : Related (.list ps o) (.list qs o')
  | arguments (function : String) {ps qs : List Query} (args : List.Forall₂ rel ps qs) :
      Related (.arguments function ps) (.arguments function qs)
  | hash {ps qs : Entries Query} (entries : Entries.Coupled rel ps qs) (key : String) :
      Related (.hash ps key) (.hash qs key)

structure Level.Related (level level' : Level) : Prop where
  bracket : Bracket.Related rel level.bracket level'.bracket
  pending : List.Forall₂ (Pending.Related rel) level.pending level'.pending

structure Context.Related (context context' : Context) : Prop where
  pending : List.Forall₂ (Pending.Related rel) context.pending context'.pending
  levels : List.Forall₂ (Level.Related rel) context.levels context'.levels

inductive Mode.Related : Mode → Mode → Prop
  | operand : Related .operand .operand
  | operator {p q : Query} (left : rel p q) : Related (.operator p) (.operator q)
  | name (name : String) : Related (.name name) (.name name)
  | quotedName (name : String) : Related (.quotedName name) (.quotedName name)
  | dot {p q : Pending} (owner : Pending.Related rel p q) : Related (.dot p) (.dot q)
  | body {s t : Source} (source : Source.Related rel s t) : Related (.body s) (.body t)
  | bracket : Related .bracket .bracket
  | bracketStar : Related .bracketStar .bracketStar
  | subscript {p q : Query} (left : rel p q) : Related (.subscript p) (.subscript q)
  | subscriptStar {p q : Query} (left : rel p q) : Related (.subscriptStar p) (.subscriptStar q)
  | segments {p q : Option Query} (left : Option.Rel rel p q) (segments : Segments) :
      Related (.segments p segments) (.segments q segments)
  | argument (function : String) {ps qs : List Query} (args : List.Forall₂ rel ps qs) :
      Related (.argument function ps) (.argument function qs)
  | item {ps qs : List Query} (items : List.Forall₂ rel ps qs) {o o' : Option Pending}
      (owner : Option.Rel (Pending.Related rel) o o') : Related (.item ps o) (.item qs o')
  | key {ps qs : Entries Query} (entries : Entries.Coupled rel ps qs) : Related (.key ps) (.key qs)
  | colon {ps qs : Entries Query} (entries : Entries.Coupled rel ps qs) (key : String) :
      Related (.colon ps key) (.colon qs key)
  | done {p q : Query} (query : rel p q) : Related (.done p) (.done q)

/-- Both steps are rejected for the same reason, or both lead to related states. -/
inductive Step.Related : Step → Step → Prop
  | rejected (reason : Rejection) : Related (.error reason) (.error reason)
  | accepted {mode mode' : Mode} (modes : Mode.Related rel mode mode') {context context' : Context}
      (contexts : Context.Related rel context context') :
      Related (.ok ⟨mode, context⟩) (.ok ⟨mode', context'⟩)

/-- A relation that holds of what reading builds from related queries. -/
structure Builds (lenient lenient' : Bool) : Prop where
  current : rel .current .current
  field (name : String) : rel (.field name) (.field name)
  literal {v : Value} (document : v.isDocument = true) : rel (.literal v) (.literal v)
  index (position : Int64) : rel (.index position) (.index position)
  member {p q p' q' : Query} (left : rel p q) (right : rel p' q') :
    rel (.chain p p') (.chain q q')
  reference {p q : Query} (body : rel p q) : rel (.reference none p) (.reference none q)
  negation {p q : Query} (child : rel p q) : rel (.negate p) (.negate q)
  connective (op : Connective) {p q p' q' : Query} (left : rel p q) (right : rel p' q') :
    rel (op.join p p') (op.join q q')
  projection {s t : Source} (source : Source.Related rel s t) {p q : Query} (body : rel p q) :
    rel (s.project p) (t.project q)
  list {ps qs : List Query} (items : List.Forall₂ rel ps qs) (filled : ps ≠ []) :
    rel (.list ps) (.list qs)
  hash {ps qs : Entries Query} (entries : Entries.Coupled rel ps qs) (filled : ps ≠ []) :
    rel (.hash ps) (.hash qs)
  call {function : String} {ps qs : List Query}
    (known : (Builtin.ofName? function).isSome = true) (args : List.Forall₂ rel ps qs) :
    rel (.call function ps lenient) (.call function qs lenient')

end Relations

/-! ## Steps of related states -/

section Steps

variable {lenient lenient' : Bool} {rel : Query → Query → Prop} {context context' : Context}
  {p q : Query}

namespace Context.Related

variable (contexts : Context.Related rel context context')

include contexts

theorem push {pending pending' : Pending} (waits : Pending.Related rel pending pending') :
    Context.Related rel (context.push pending) (context'.push pending') :=
  ⟨.cons waits contexts.pending, contexts.levels⟩

theorem enter {bracket bracket' : Bracket} (opens : Bracket.Related rel bracket bracket') :
    Context.Related rel (context.enter bracket) (context'.enter bracket') :=
  ⟨.nil, .cons ⟨opens, contexts.pending⟩ contexts.levels⟩

end Context.Related

theorem found_related (contexts : Context.Related rel context context') (related : rel p q) :
    Step.Related rel (found context p) (found context' q) :=
  .accepted (.operator related) contexts

theorem Pending.Related.power {pending pending' : Pending}
    (related : Pending.Related rel pending pending') : pending.power = pending'.power := by
  cases related with
  | projection source => cases source <;> rfl
  | _ => rfl

theorem stepInfix_related (contexts : Context.Related rel context context') (left : rel p q)
    (lexeme : Lexeme) :
    Step.Related rel (stepInfix context p lexeme) (stepInfix context' q lexeme) := by
  cases lexeme with
  | pipe => exact .accepted .operand (contexts.push (.connective .pipe left))
  | or => exact .accepted .operand (contexts.push (.connective .either left))
  | and => exact .accepted .operand (contexts.push (.connective .both left))
  | comparator op => exact .accepted .operand (contexts.push (.connective (.compare op) left))
  | dot => exact .accepted (.dot (.member left)) contexts
  | filter => exact .accepted .operand (contexts.enter (.filter left))
  | flatten => exact .accepted (.body (.flattened left)) contexts
  | lbracket => exact .accepted (.subscript left) contexts
  | _ => exact .rejected _

variable (builds : Builds rel lenient lenient')

include builds

theorem Pending.Related.complete {pending pending' : Pending}
    (waits : Pending.Related rel pending pending') (right : rel p q) :
    rel (pending.complete p) (pending'.complete q) := by
  cases waits with
  | reference => exact builds.reference right
  | negation => exact builds.negation right
  | connective op left => exact builds.connective op left right
  | member left => exact builds.member left right
  | projection source => exact builds.projection source right

theorem settle_related (power : Nat) {ps qs : List Pending}
    (waits : List.Forall₂ (Pending.Related rel) ps qs) (right : rel p q) :
    List.Forall₂ (Pending.Related rel) (settle power ps p).1 (settle power qs q).1 ∧
      rel (settle power ps p).2 (settle power qs q).2 := by
  induction waits generalizing p q with
  | nil => exact ⟨.nil, right⟩
  | cons head tail ih =>
      simp only [settle, head.power]
      split
      · exact ⟨.cons head tail, right⟩
      · exact ih (head.complete builds right)

theorem stepOperand_related (contexts : Context.Related rel context context') {lexeme : Lexeme}
    (document : ∀ v, lexeme = .literal v → v.isDocument = true) :
    Step.Related rel (stepOperand context lexeme) (stepOperand context' lexeme) := by
  cases lexeme with
  | current => exact found_related contexts builds.current
  | literal v => exact found_related contexts (builds.literal (document v rfl))
  | identifier name => exact .accepted (.name name) contexts
  | quotedIdentifier name => exact .accepted (.quotedName name) contexts
  | expref => exact .accepted .operand (contexts.push .reference)
  | not => exact .accepted .operand (contexts.push .negation)
  | lparen => exact .accepted .operand (contexts.enter .group)
  | filter => exact .accepted .operand (contexts.enter (.filter builds.current))
  | flatten => exact .accepted (.body (.flattened builds.current)) contexts
  | star => exact .accepted (.body (.members builds.current)) contexts
  | lbracket => exact .accepted .bracket contexts
  | lbrace => exact .accepted (.key .nil) contexts
  | _ => exact .rejected _

theorem closeArguments_related (contexts : Context.Related rel context context')
    (function : String) {ps qs : List Query} (args : List.Forall₂ rel ps qs) :
    Step.Related rel (closeArguments lenient context function ps)
      (closeArguments lenient' context' function qs) := by
  simp only [closeArguments]
  cases known : Builtin.ofName? function with
  | none => exact .rejected _
  | some builtin => exact found_related contexts (builds.call (by rw [known]; rfl) args)

theorem closeList_related (contexts : Context.Related rel context context') {ps qs : List Query}
    (items : List.Forall₂ rel ps qs) (filled : ps ≠ []) {o o' : Option Pending}
    (owner : Option.Rel (Pending.Related rel) o o') :
    Step.Related rel (closeList context ps o) (closeList context' qs o') := by
  cases owner with
  | none => exact found_related contexts (builds.list items filled)
  | some waits =>
      exact found_related contexts (waits.complete builds (builds.list items filled))

theorem stepBracket_related {levels levels' : List Level}
    (open_ : List.Forall₂ (Level.Related rel) levels levels') (related : rel p q)
    (lexeme : Lexeme) :
    Step.Related rel (stepBracket lenient levels p lexeme)
      (stepBracket lenient' levels' q lexeme) := by
  cases open_ with
  | nil =>
      cases lexeme with
      | eof => exact .accepted (.done related) ⟨.nil, .nil⟩
      | _ => exact .rejected _
  | @cons level level' _ _ innermost outer =>
      obtain ⟨bracket, pending⟩ := level
      obtain ⟨bracket', pending'⟩ := level'
      obtain ⟨opens, waits⟩ := innermost
      have contexts : Context.Related rel ⟨pending, _⟩ ⟨pending', _⟩ := ⟨waits, outer⟩
      cases opens with
      | group =>
          cases lexeme with
          | rparen => exact found_related contexts related
          | _ => exact .rejected _
      | filter target =>
          cases lexeme with
          | rbracket => exact .accepted (.body (.filtered target related)) contexts
          | _ => exact .rejected _
      | list items owner =>
          have longer := List.rel_append items (.cons related .nil)
          cases lexeme with
          | comma => exact .accepted (.item longer owner) contexts
          | rbracket => exact closeList_related builds contexts longer (by simp) owner
          | _ => exact .rejected _
      | arguments function args =>
          have longer := List.rel_append args (.cons related .nil)
          cases lexeme with
          | comma => exact .accepted (.argument function longer) contexts
          | rparen => exact closeArguments_related builds contexts function longer
          | _ => exact .rejected _
      | hash entries key =>
          have entry : Entries.Coupled rel [(key, p)] [(key, q)] := .cons ⟨rfl, related⟩ .nil
          have longer := List.rel_append entries entry
          cases lexeme with
          | comma => exact .accepted (.key longer) contexts
          | rbrace => exact found_related contexts (builds.hash longer (by simp))
          | _ => exact .rejected _

theorem stepOperator_related (contexts : Context.Related rel context context') (left : rel p q)
    (lexeme : Lexeme) :
    Step.Related rel (stepOperator lenient context p lexeme)
      (stepOperator lenient' context' q lexeme) := by
  have settled := settle_related builds lexeme.power contexts.pending left
  have contexts' : Context.Related rel ⟨(settle lexeme.power context.pending p).1, context.levels⟩
      ⟨(settle lexeme.power context'.pending q).1, context'.levels⟩ := ⟨settled.1, contexts.levels⟩
  simp only [stepOperator]
  split
  · exact stepBracket_related builds contexts.levels settled.2 lexeme
  · exact stepInfix_related contexts' settled.2 lexeme

theorem stepBody_related (contexts : Context.Related rel context context') {s t : Source}
    (source : Source.Related rel s t) {lexeme : Lexeme}
    (document : ∀ v, lexeme = .literal v → v.isDocument = true) :
    Step.Related rel (stepBody lenient context s lexeme) (stepBody lenient' context' t lexeme) := by
  simp only [stepBody]
  split
  · exact stepOperator_related builds contexts (builds.projection source builds.current) lexeme
  · have waits := contexts.push (.projection source)
    cases lexeme with
    | dot => exact .accepted (.dot (.projection source)) contexts
    | lbracket => exact stepOperand_related builds waits document
    | filter => exact stepOperand_related builds waits document
    | _ => exact .rejected _

theorem closeSegments_related (contexts : Context.Related rel context context')
    {left left' : Option Query} (target : Option.Rel rel left left') (segments : Segments) :
    Step.Related rel (closeSegments context left segments)
      (closeSegments context' left' segments) := by
  obtain ⟨complete, current⟩ := segments
  cases complete with
  | nil =>
      cases current with
      | none => exact .rejected _
      | some position =>
          cases target with
          | none => exact found_related contexts (builds.index position)
          | some related =>
              exact found_related contexts (builds.member related (builds.index position))
  | cons start more =>
      cases more with
      | nil =>
          have allowed : Slice.Allowed ⟨start, current, none⟩ := (Option.some_ne_none 0).symm
          exact .accepted (.body (.sliced target allowed)) contexts
      | cons stop _ =>
          by_cases allowed : Slice.Allowed ⟨start, stop, current⟩
          · simp only [closeSegments, Slice.ofBounds?, if_pos allowed]
            exact .accepted (.body (.sliced target allowed)) contexts
          · simp only [closeSegments, Slice.ofBounds?, if_neg allowed]
            exact .rejected _

theorem stepSegments_related (contexts : Context.Related rel context context')
    {left left' : Option Query} (target : Option.Rel rel left left') (segments : Segments)
    (lexeme : Lexeme) :
    Step.Related rel (stepSegments context left segments lexeme)
      (stepSegments context' left' segments lexeme) := by
  simp only [stepSegments]
  split
  · exact closeSegments_related builds contexts target segments
  · split
    · exact .accepted (.segments target _) contexts
    · exact .rejected _
  · exact .accepted (.segments target _) contexts
  · exact .rejected _
  · exact .rejected _

theorem stepDot_related (contexts : Context.Related rel context context')
    {waiting waiting' : Pending} (owner : Pending.Related rel waiting waiting') {lexeme : Lexeme}
    (document : ∀ v, lexeme = .literal v → v.isDocument = true) :
    Step.Related rel (stepDot context waiting lexeme) (stepDot context' waiting' lexeme) := by
  simp only [stepDot]
  have waits := contexts.push owner
  split
  · cases lexeme with
    | lbracket => exact .accepted .operand (contexts.enter (.list .nil (.some owner)))
    | star =>
        cases owner with
        | member left => exact .accepted (.body (.members left)) contexts
        | _ => exact stepOperand_related builds waits document
    | _ => exact stepOperand_related builds waits document
  · exact .rejected _

theorem stepOpened_related (contexts : Context.Related rel context context') {lexeme : Lexeme}
    (document : ∀ v, lexeme = .literal v → v.isDocument = true) :
    Step.Related rel (stepOpened context lexeme) (stepOpened context' lexeme) := by
  have opened := contexts.enter (.list .nil .none)
  cases lexeme with
  | number n => exact .accepted (.segments .none _) contexts
  | colon => exact .accepted (.segments .none _) contexts
  | star => exact .accepted .bracketStar contexts
  | _ => exact stepOperand_related builds opened document

omit builds in
theorem stepSubscript_related (contexts : Context.Related rel context context') (left : rel p q)
    (lexeme : Lexeme) :
    Step.Related rel (stepSubscript context p lexeme) (stepSubscript context' q lexeme) := by
  cases lexeme with
  | number n => exact .accepted (.segments (.some left) _) contexts
  | colon => exact .accepted (.segments (.some left) _) contexts
  | star => exact .accepted (.subscriptStar left) contexts
  | _ => exact .rejected _

theorem step_related {mode mode' : Mode} (modes : Mode.Related rel mode mode')
    (contexts : Context.Related rel context context') {lexeme : Lexeme}
    (document : ∀ v, lexeme = .literal v → v.isDocument = true) :
    Step.Related rel (State.step lenient ⟨mode, context⟩ lexeme)
      (State.step lenient' ⟨mode', context'⟩ lexeme) := by
  cases modes with
  | operand => exact stepOperand_related builds contexts document
  | operator left => exact stepOperator_related builds contexts left lexeme
  | name name =>
      have operator := stepOperator_related builds contexts (builds.field name) lexeme
      cases lexeme with
      | lparen => exact .accepted (.argument name .nil) contexts
      | _ => exact operator
  | quotedName name =>
      have operator := stepOperator_related builds contexts (builds.field name) lexeme
      cases lexeme with
      | lparen => exact .rejected _
      | _ => exact operator
  | dot owner => exact stepDot_related builds contexts owner document
  | body source => exact stepBody_related builds contexts source document
  | bracket => exact stepOpened_related builds contexts document
  | bracketStar =>
      have opened := contexts.enter (.list .nil .none)
      cases lexeme with
      | rbracket => exact .accepted (.body (.items builds.current)) contexts
      | _ => exact stepBody_related builds opened (.members builds.current) document
  | subscript left => exact stepSubscript_related contexts left lexeme
  | subscriptStar left =>
      cases lexeme with
      | rbracket => exact .accepted (.body (.items left)) contexts
      | _ => exact .rejected _
  | segments target segments => exact stepSegments_related builds contexts target segments lexeme
  | argument function args =>
      have opened := contexts.enter (.arguments function args)
      cases lexeme with
      | rparen => exact closeArguments_related builds contexts function args
      | _ => exact stepOperand_related builds opened document
  | item items owner =>
      have opened := contexts.enter (.list items owner)
      cases lexeme with
      | rbracket => exact .rejected _
      | _ => exact stepOperand_related builds opened document
  | key entries =>
      cases lexeme with
      | identifier name => exact .accepted (.colon entries name) contexts
      | quotedIdentifier name => exact .accepted (.colon entries name) contexts
      | _ => exact .rejected _
  | colon entries key =>
      cases lexeme with
      | colon => exact .accepted .operand (contexts.enter (.hash entries key))
      | _ => exact .rejected _
  | done related => exact .rejected _

end Steps

end Grammar

/-! ## Runs -/

/-- Both fail with the same error, or both succeed with related results. -/
inductive Except.Related {α β : Type} (rel : α → β → Prop) : Except Error α → Except Error β → Prop
  | error (e : Error) : Related rel (.error e) (.error e)
  | ok {a : α} {b : β} (related : rel a b) : Related rel (.ok a) (.ok b)

namespace Grammar

variable {lenient lenient' : Bool} {rel : Query → Query → Prop}
  (builds : Builds rel lenient lenient')

include builds

theorem run_related {state state' : State} (modes : Mode.Related rel state.mode state'.mode)
    (contexts : Context.Related rel state.context state'.context) (text : String) (token : Token)
    (rest : List Token) (documents : Token.Documents (token :: rest)) :
    Except.Related rel (run lenient state text token rest)
      (run lenient' state' text token rest) := by
  induction rest generalizing state state' token with
  | nil =>
      have step := step_related builds modes contexts (documents token List.mem_cons_self)
      obtain ⟨mode, context⟩ := state
      obtain ⟨mode', context'⟩ := state'
      simp only [run]
      generalize State.step lenient ⟨mode, context⟩ token.lexeme = left at step
      generalize State.step lenient' ⟨mode', context'⟩ token.lexeme = right at step
      cases step with
      | rejected reason => exact .error _
      | accepted modes' _ =>
          cases modes' with
          | done related => exact .ok related
          | _ => exact .error _
  | cons following rest ih =>
      have step := step_related builds modes contexts (documents token List.mem_cons_self)
      obtain ⟨mode, context⟩ := state
      obtain ⟨mode', context'⟩ := state'
      simp only [run]
      generalize State.step lenient ⟨mode, context⟩ token.lexeme = left at step
      generalize State.step lenient' ⟨mode', context'⟩ token.lexeme = right at step
      cases step with
      | rejected reason => exact .error _
      | accepted modes' contexts' =>
          exact ih modes' contexts' following fun next found =>
            documents next (List.mem_cons_of_mem _ found)

theorem parse_related (text : String) :
    Except.Related rel ((Parser.mk lenient).parse text) ((Parser.mk lenient').parse text) := by
  obtain ⟨token, rest, tokens⟩ := tokenize_eq_cons text
  have documents : Token.Documents (token :: rest) :=
    tokens ▸ Token.scan_documents 0 text.toList
  rw [Parser.parse_eq_run _ tokens, Parser.parse_eq_run _ tokens]
  exact run_related builds .operand ⟨.nil, .nil⟩ text token rest documents

end Grammar

end JsonQuery
