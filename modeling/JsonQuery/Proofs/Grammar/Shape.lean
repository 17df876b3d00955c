import JsonQuery.Proofs.Grammar.Inside

/-!
# The shape of queries that are read

Reading builds plain trees, in which chains of members lean to the left: a member behind a chain
takes all of the chain as its left-hand side.  While an expression is read, this holds because no
member access waits directly inside of another one.
-/

set_option autoImplicit false

namespace JsonQuery

namespace Query

def endsInMember : Query → Bool
  | .chain _ (.field _) => true
  | _ => false

mutual

/-- No fused forms, and no chain to the right that ends in a member. -/
def isRead : Query → Bool
  | .current | .field _ | .index _ | .literal _ | .slice _ => true
  | .chain left right => isRead left && isRead right && !endsInMember right
  | .pipe left right => isRead left && isRead right
  | .flatten child => isRead child
  | .eachItem target body => isRead target && isRead body
  | .eachMember target body => isRead target && isRead body
  | .guard test body => isRead test && isRead body
  | .compare _ left right => isRead left && isRead right
  | .both left right => isRead left && isRead right
  | .either left right => isRead left && isRead right
  | .negate child => isRead child
  | .list items => listIsRead items
  | .hash entries => entriesAreRead entries
  | .reference _ body => isRead body
  | .call _ args _ => listIsRead args
  | .path _ | .presentItems _ | .presentMembers _ | .guardCompare _ _ _ _
  | .guardLiteral _ _ _ _ | .range _ _ => false
termination_by structural query => query

def listIsRead : List Query → Bool
  | [] => true
  | query :: rest => isRead query && listIsRead rest
termination_by structural queries => queries

def entriesAreRead : List (String × Query) → Bool
  | [] => true
  | (_, query) :: rest => isRead query && entriesAreRead rest
termination_by structural entries => entries

end

theorem listIsRead_append (first second : List Query) :
    listIsRead (first ++ second) = (listIsRead first && listIsRead second) := by
  induction first with
  | nil => rfl
  | cons query rest ih => simp only [List.cons_append, listIsRead, ih, Bool.and_assoc]

theorem entriesAreRead_append (first second : List (String × Query)) :
    entriesAreRead (first ++ second) = (entriesAreRead first && entriesAreRead second) := by
  induction first with
  | nil => rfl
  | cons entry rest ih => simp only [List.cons_append, entriesAreRead, ih, Bool.and_assoc]

end Query

namespace Grammar

/-! ## States that read plain trees -/

def Source.IsRead : Source → Prop
  | .items target | .members target | .flattened target => target.isRead = true
  | .filtered target test => target.isRead = true ∧ test.isRead = true
  | .sliced target _ => ∀ q ∈ target, q.isRead = true

def Pending.IsRead : Pending → Prop
  | .reference | .negation => True
  | .connective _ left | .member left => left.isRead = true
  | .projection source => source.IsRead

/-- No member access waits innermost. -/
def Clear (pending : List Pending) : Prop :=
  ∀ left, pending.head? ≠ some (.member left)

/-- What may wait directly inside of a member access: projections only. -/
def Pending.StandsOn (pending : List Pending) : Pending → Prop
  | .projection _ => True
  | _ => Clear pending

def Ordered : List Pending → Prop
  | [] => True
  | p :: ps => p.IsRead ∧ p.StandsOn ps ∧ Ordered ps

/-- The query may become the right-hand side of what waits. -/
structure Fits (pending : List Pending) (q : Query) : Prop where
  isRead : q.isRead = true
  clear : q.endsInMember = true → Clear pending

def Bracket.IsRead (pending : List Pending) : Bracket → Prop
  | .group => Clear pending
  | .filter target => target.isRead = true
  | .list items owner => Query.listIsRead items = true ∧ ∀ p ∈ owner, p.IsRead
  | .arguments _ args => Query.listIsRead args = true
  | .hash entries _ => Query.entriesAreRead entries = true

structure Level.IsRead (level : Level) : Prop where
  bracket : level.bracket.IsRead level.pending
  ordered : Ordered level.pending

structure Context.IsRead (context : Context) : Prop where
  ordered : Ordered context.pending
  levels : ∀ level ∈ context.levels, level.IsRead

def Mode.IsRead (pending : List Pending) : Mode → Prop
  | .operand => Clear pending
  | .operator left => Fits pending left
  | .dot owner => owner.IsRead ∧ owner.StandsOn pending
  | .body source => source.IsRead
  | .subscript left | .subscriptStar left => left.isRead = true
  | .segments left _ => ∀ q ∈ left, q.isRead = true
  | .argument _ args => Query.listIsRead args = true
  | .item items owner => Query.listIsRead items = true ∧ ∀ p ∈ owner, p.IsRead
  | .key entries | .colon entries _ => Query.entriesAreRead entries = true
  | .done query => query.isRead = true
  | .name _ | .quotedName _ | .bracket | .bracketStar => True

structure State.IsRead (state : State) : Prop where
  mode : state.mode.IsRead state.context.pending
  context : state.context.IsRead

def Step.IsRead : Step → Prop
  | .ok next => next.IsRead
  | .error _ => True

/-! ## Steps -/

section Steps

variable {context : Context} {pending : List Pending} {q : Query}

theorem clear_nil : Clear [] :=
  nofun

theorem Fits.of_not_endsInMember (read : q.isRead = true) (ends : q.endsInMember = false) :
    Fits pending q :=
  ⟨read, fun member => absurd member (by rw [ends]; exact Bool.false_ne_true)⟩

theorem Context.IsRead.push (read : context.IsRead) {p : Pending} (isRead : p.IsRead)
    (stands : p.StandsOn context.pending) : (context.push p).IsRead :=
  ⟨⟨isRead, stands, read.ordered⟩, read.levels⟩

theorem Context.IsRead.enter (read : context.IsRead) {bracket : Bracket}
    (opens : bracket.IsRead context.pending) : (context.enter bracket).IsRead := by
  refine ⟨trivial, ?_⟩
  intro level found
  rcases List.mem_cons.mp found with rfl | found
  · exact ⟨opens, read.ordered⟩
  · exact read.levels level found

theorem found_isRead (read : context.IsRead) (fits : Fits context.pending q) :
    Step.IsRead (found context q) :=
  ⟨fits, read⟩

theorem project_isRead {source : Source} (read : source.IsRead) (body : q.isRead = true) :
    (source.project q).isRead = true ∧ (source.project q).endsInMember = false := by
  cases source with
  | filtered target test =>
      refine ⟨?_, rfl⟩
      simp only [Source.project, Query.isRead, read.1, read.2, body, Bool.and_self]
  | sliced target s =>
      cases target with
      | none => exact ⟨by simp only [Source.project, Query.isRead, body, Bool.and_self], rfl⟩
      | some target =>
          refine ⟨?_, rfl⟩
          have left := read target rfl
          simp only [Source.project, Query.isRead, left, body, Query.endsInMember, Bool.and_self,
            Bool.not_false]
  | items target =>
      have left : target.isRead = true := read
      exact ⟨by simp only [Source.project, Query.isRead, left, body, Bool.and_self], rfl⟩
  | members target =>
      have left : target.isRead = true := read
      exact ⟨by simp only [Source.project, Query.isRead, left, body, Bool.and_self], rfl⟩
  | flattened target =>
      have left : target.isRead = true := read
      exact ⟨by simp only [Source.project, Query.isRead, left, body, Bool.and_self], rfl⟩

/-- What an operator makes with its right-hand side fits what waits outside of it. -/
theorem complete_fits {p : Pending} (read : p.IsRead) (stands : p.StandsOn pending)
    (right : Fits (p :: pending) q) : Fits pending (p.complete q) := by
  cases p with
  | reference => exact .of_not_endsInMember right.isRead rfl
  | negation => exact .of_not_endsInMember right.isRead rfl
  | connective op left =>
      have both : (left.isRead && q.isRead) = true := by
        rw [right.isRead, Bool.and_true]
        exact read
      cases op <;> exact .of_not_endsInMember both rfl
  | member left =>
      have inner : q.endsInMember = false := by
        rw [Bool.eq_false_iff]
        intro member
        exact right.clear member left rfl
      have left' : left.isRead = true := read
      refine ⟨?_, fun _ => stands⟩
      simp only [Pending.complete, Query.isRead, left', right.isRead, inner, Bool.not_false,
        Bool.and_self]
  | projection source =>
      have projected := project_isRead read right.isRead
      exact .of_not_endsInMember projected.1 projected.2

theorem settle_isRead (power : Nat) (ordered : Ordered pending) (fits : Fits pending q) :
    Ordered (settle power pending q).1 ∧ Fits (settle power pending q).1 (settle power pending q).2 ∧
      (power ≤ TokenKind.dot.power → Clear (settle power pending q).1) := by
  induction pending generalizing q with
  | nil => exact ⟨trivial, fits, fun _ => clear_nil⟩
  | cons p ps ih =>
      rw [settle]
      -- a member access has the power of a dot, so it only stays for a stronger operator
      by_cases weaker : p.power < power
      · rw [if_pos weaker]
        refine ⟨ordered, fits, ?_⟩
        rintro low left ⟨⟩
        exact absurd weaker (Nat.not_lt.mpr low)
      · rw [if_neg weaker]
        exact ih ordered.2.2 (complete_fits ordered.1 ordered.2.1 fits)

theorem stepOperand_isRead (read : context.IsRead) {lexeme : Lexeme}
    (prefixed : lexeme = .expref ∨ lexeme = .not ∨ lexeme = .lparen → Clear context.pending) :
    Step.IsRead (stepOperand context lexeme) := by
  cases lexeme with
  | current => exact found_isRead read (.of_not_endsInMember rfl rfl)
  | literal v => exact found_isRead read (.of_not_endsInMember rfl rfl)
  | identifier name => exact ⟨trivial, read⟩
  | quotedIdentifier name => exact ⟨trivial, read⟩
  | expref => exact ⟨nofun, read.push trivial (prefixed (.inl rfl))⟩
  | not => exact ⟨nofun, read.push trivial (prefixed (.inr (.inl rfl)))⟩
  | lparen => exact ⟨clear_nil, read.enter (prefixed (.inr (.inr rfl)))⟩
  | filter => exact ⟨clear_nil, read.enter rfl⟩
  | flatten => exact ⟨rfl, read⟩
  | star => exact ⟨rfl, read⟩
  | lbracket => exact ⟨trivial, read⟩
  | lbrace => exact ⟨rfl, read⟩
  | _ => trivial

theorem stepEntered_isRead (read : context.IsRead) {bracket : Bracket}
    (opens : bracket.IsRead context.pending) (lexeme : Lexeme) :
    Step.IsRead (stepOperand (context.enter bracket) lexeme) :=
  stepOperand_isRead (read.enter opens) fun _ => clear_nil

theorem stepInfix_isRead {power : Nat} (ordered : Ordered pending) (fits : Fits pending q)
    {levels : List Level} (outside : ∀ level ∈ levels, level.IsRead) {lexeme : Lexeme}
    (same : lexeme.power = power) :
    Step.IsRead (stepInfix ⟨(settle power pending q).1, levels⟩ (settle power pending q).2
      lexeme) := by
  obtain ⟨ordered', fits', clear⟩ := settle_isRead power ordered fits
  have context' : Context.IsRead ⟨(settle power pending q).1, levels⟩ := ⟨ordered', outside⟩
  subst same
  cases lexeme with
  | pipe => exact ⟨nofun, context'.push fits'.isRead (clear (by decide))⟩
  | or => exact ⟨nofun, context'.push fits'.isRead (clear (by decide))⟩
  | and => exact ⟨nofun, context'.push fits'.isRead (clear (by decide))⟩
  | comparator op =>
      refine ⟨nofun, context'.push fits'.isRead (clear ?_)⟩
      simp only [Lexeme.power, Lexeme.kind]
      decide
  | dot => exact ⟨⟨fits'.isRead, clear (by decide)⟩, context'⟩
  | filter => exact ⟨clear_nil, context'.enter fits'.isRead⟩
  | flatten => exact ⟨fits'.isRead, context'⟩
  | lbracket => exact ⟨fits'.isRead, context'⟩
  | _ => trivial

theorem closeArguments_isRead {lenient : Bool} (read : context.IsRead) (function : String)
    {args : List Query} (all : Query.listIsRead args = true) :
    Step.IsRead (closeArguments lenient context function args) := by
  unfold closeArguments
  split
  · exact found_isRead read (.of_not_endsInMember all rfl)
  · trivial

theorem completeList_isRead {p : Pending} (read : p.IsRead) {items : List Query}
    (all : Query.listIsRead items = true) :
    (p.complete (.list items)).isRead = true ∧
      (p.complete (.list items)).endsInMember = false := by
  have stands : p.StandsOn [] := by cases p <;> first | exact clear_nil | trivial
  have right : Fits [p] (.list items) := .of_not_endsInMember all rfl
  refine ⟨(complete_fits read stands right).isRead, ?_⟩
  cases p with
  | connective op left => cases op <;> rfl
  | projection source => exact (project_isRead read right.isRead).2
  | _ => rfl

theorem closeList_isRead (read : context.IsRead) {items : List Query} {owner : Option Pending}
    (all : Query.listIsRead items = true) (owned : ∀ p ∈ owner, p.IsRead) :
    Step.IsRead (closeList context items owner) := by
  cases owner with
  | none => exact found_isRead read (.of_not_endsInMember all rfl)
  | some p =>
      have completed := completeList_isRead (owned p rfl) all
      exact found_isRead read (.of_not_endsInMember completed.1 completed.2)

theorem stepBracket_isRead {lenient : Bool} {levels : List Level}
    (outside : ∀ level ∈ levels, level.IsRead) (read : q.isRead = true) (lexeme : Lexeme) :
    Step.IsRead (stepBracket lenient levels q lexeme) := by
  cases levels with
  | nil =>
      cases lexeme with
      | eof => exact ⟨read, trivial, nofun⟩
      | _ => trivial
  | cons level outer =>
      obtain ⟨bracket, pending⟩ := level
      obtain ⟨⟨opens, ordered⟩, outside⟩ := List.forall_mem_cons.mp outside
      have context : Context.IsRead ⟨pending, outer⟩ := ⟨ordered, outside⟩
      cases bracket with
      | group =>
          cases lexeme with
          | rparen => exact found_isRead context ⟨read, fun _ => opens⟩
          | _ => trivial
      | filter target =>
          cases lexeme with
          | rbracket => exact ⟨⟨opens, read⟩, context⟩
          | _ => trivial
      | list items owner =>
          have longer : Query.listIsRead (items ++ [q]) = true := by
            simp only [Query.listIsRead_append, opens.1, Query.listIsRead, read, Bool.and_self]
          cases lexeme with
          | comma => exact ⟨⟨longer, opens.2⟩, context⟩
          | rbracket => exact closeList_isRead context longer opens.2
          | _ => trivial
      | arguments function args =>
          have all : Query.listIsRead args = true := opens
          have longer : Query.listIsRead (args ++ [q]) = true := by
            simp only [Query.listIsRead_append, all, Query.listIsRead, read, Bool.and_self]
          cases lexeme with
          | comma => exact ⟨longer, context⟩
          | rparen => exact closeArguments_isRead context function longer
          | _ => trivial
      | hash entries key =>
          have all : Query.entriesAreRead entries = true := opens
          have longer : Query.entriesAreRead (entries ++ [(key, q)]) = true := by
            simp only [Query.entriesAreRead_append, all, Query.entriesAreRead, read, Bool.and_self]
          cases lexeme with
          | comma => exact ⟨longer, context⟩
          | rbrace => exact found_isRead context (.of_not_endsInMember longer rfl)
          | _ => trivial

theorem stepOperator_isRead (lenient : Bool) (read : context.IsRead)
    (fits : Fits context.pending q) (lexeme : Lexeme) :
    Step.IsRead (stepOperator lenient context q lexeme) := by
  unfold stepOperator
  split
  · have settled := settle_isRead lexeme.power read.ordered fits
    exact stepBracket_isRead read.levels settled.2.1.isRead lexeme
  · exact stepInfix_isRead read.ordered fits read.levels rfl

theorem stepBody_isRead (lenient : Bool) (read : context.IsRead) {source : Source}
    (isRead : source.IsRead) (lexeme : Lexeme) :
    Step.IsRead (stepBody lenient context source lexeme) := by
  unfold stepBody
  split
  · have projected := project_isRead (q := .current) isRead rfl
    exact stepOperator_isRead lenient read (.of_not_endsInMember projected.1 projected.2) lexeme
  · have pushed := read.push (p := .projection source) isRead trivial
    split
    · exact ⟨⟨isRead, trivial⟩, read⟩
    · exact stepOperand_isRead pushed (by simp)
    · exact stepOperand_isRead pushed (by simp)
    · trivial

theorem closeSegments_isRead (read : context.IsRead) {left : Option Query}
    (target : ∀ q ∈ left, q.isRead = true) (segments : Segments) :
    Step.IsRead (closeSegments context left segments) := by
  unfold closeSegments
  split
  · split
    · exact found_isRead read (.of_not_endsInMember rfl rfl)
    · rename_i chained
      have left' := target _ rfl
      refine found_isRead read (.of_not_endsInMember ?_ rfl)
      simp only [Query.isRead, left', Query.endsInMember, Bool.and_self, Bool.not_false]
  · trivial
  · dsimp only
    split
    · exact ⟨target, read⟩
    · trivial

theorem stepSegments_isRead (read : context.IsRead) {left : Option Query}
    (target : ∀ q ∈ left, q.isRead = true) (segments : Segments) (lexeme : Lexeme) :
    Step.IsRead (stepSegments context left segments lexeme) := by
  unfold stepSegments
  split
  · exact closeSegments_isRead read target segments
  · split
    · exact ⟨target, read⟩
    · trivial
  · exact ⟨target, read⟩
  · trivial
  · trivial

/-- Nothing that may follow a dot lets a member access wait inside of another one. -/
theorem stepDot_isRead (read : context.IsRead) {owner : Pending} (isRead : owner.IsRead)
    (stands : owner.StandsOn context.pending) (lexeme : Lexeme) :
    Step.IsRead (stepDot context owner lexeme) := by
  unfold stepDot
  split
  · rename_i follows
    split
    · refine ⟨clear_nil, read.enter ⟨rfl, ?_⟩⟩
      rintro _ ⟨⟩
      exact isRead
    · exact ⟨isRead, read⟩
    · refine stepOperand_isRead (read.push isRead stands) ?_
      rintro (rfl | rfl | rfl) <;> exact absurd follows (by decide)
  · trivial

theorem stepOpened_isRead (read : context.IsRead) (lexeme : Lexeme) :
    Step.IsRead (stepOpened context lexeme) := by
  have opens : Bracket.IsRead context.pending (.list [] none) := ⟨rfl, nofun⟩
  have opened := stepEntered_isRead read opens lexeme
  cases lexeme with
  | number n => exact ⟨nofun, read⟩
  | colon => exact ⟨nofun, read⟩
  | star => exact ⟨trivial, read⟩
  | _ => exact opened

theorem stepSubscript_isRead (read : context.IsRead) (isRead : q.isRead = true)
    (lexeme : Lexeme) : Step.IsRead (stepSubscript context q lexeme) := by
  have left : ∀ p ∈ some q, p.isRead = true := by
    rintro _ ⟨⟩
    exact isRead
  cases lexeme with
  | number n => exact ⟨left, read⟩
  | colon => exact ⟨left, read⟩
  | star => exact ⟨isRead, read⟩
  | _ => trivial

theorem step_isRead (lenient : Bool) {state : State} (read : state.IsRead) (lexeme : Lexeme) :
    Step.IsRead (state.step lenient lexeme) := by
  obtain ⟨mode, context⟩ := state
  obtain ⟨inMode, inContext⟩ := read
  cases mode with
  | operand => exact stepOperand_isRead inContext fun _ => inMode
  | operator left => exact stepOperator_isRead lenient inContext inMode lexeme
  | name name =>
      have operator := stepOperator_isRead lenient inContext
        (.of_not_endsInMember (q := .field name) rfl rfl) lexeme
      cases lexeme with
      | lparen => exact ⟨rfl, inContext⟩
      | _ => exact operator
  | quotedName name =>
      have operator := stepOperator_isRead lenient inContext
        (.of_not_endsInMember (q := .field name) rfl rfl) lexeme
      cases lexeme with
      | lparen => trivial
      | _ => exact operator
  | dot owner => exact stepDot_isRead inContext inMode.1 inMode.2 lexeme
  | body source => exact stepBody_isRead lenient inContext inMode lexeme
  | bracket => exact stepOpened_isRead inContext lexeme
  | bracketStar =>
      have opens : Bracket.IsRead context.pending (.list [] none) := ⟨rfl, nofun⟩
      have members : Source.IsRead (.members .current) := rfl
      have body := stepBody_isRead lenient (inContext.enter opens) members lexeme
      cases lexeme with
      | rbracket => exact ⟨rfl, inContext⟩
      | _ => exact body
  | subscript left => exact stepSubscript_isRead inContext inMode lexeme
  | subscriptStar left =>
      cases lexeme with
      | rbracket => exact ⟨inMode, inContext⟩
      | _ => trivial
  | segments left segments => exact stepSegments_isRead inContext inMode segments lexeme
  | argument function args =>
      have opens : Bracket.IsRead context.pending (.arguments function args) := inMode
      have opened := stepEntered_isRead inContext opens lexeme
      cases lexeme with
      | rparen => exact closeArguments_isRead inContext function inMode
      | _ => exact opened
  | item items owner =>
      have opens : Bracket.IsRead context.pending (.list items owner) := inMode
      have opened := stepEntered_isRead inContext opens lexeme
      cases lexeme with
      | rbracket => trivial
      | _ => exact opened
  | key entries =>
      cases lexeme with
      | identifier name => exact ⟨inMode, inContext⟩
      | quotedIdentifier name => exact ⟨inMode, inContext⟩
      | _ => trivial
  | colon entries key =>
      cases lexeme with
      | colon => exact ⟨clear_nil, inContext.enter inMode⟩
      | _ => trivial
  | done query => trivial

theorem walk_isRead {lenient : Bool} {state next : State} (read : state.IsRead)
    {lexemes : List Lexeme} (walked : walk lenient state lexemes = .ok next) : next.IsRead := by
  induction lexemes generalizing state with
  | nil =>
      cases walked
      exact read
  | cons lexeme rest ih =>
      obtain ⟨middle, first, others⟩ := bind_eq_ok walked
      have stepped := step_isRead lenient read lexeme
      rw [first] at stepped
      exact ih stepped others

end Steps

end Grammar

theorem isRead_of_parse {parser : Parser} {text : String} {q : Query}
    (read : parser.parse text = .ok q) : q.isRead = true := by
  have start : Grammar.State.start.IsRead := ⟨Grammar.clear_nil, trivial, nofun⟩
  exact (Grammar.walk_isRead start (parse_eq_ok.mp read)).mode

end JsonQuery
