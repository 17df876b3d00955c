import JsonQuery.Query.Eval

/-!
# Applications of references

The applications of references that evaluation makes, in their order.  When one of them does not
answer, no later one is made.  They are all that evaluation depends on besides the query and the
value, and evaluation is cut off exactly when one of them is.
-/

set_option autoImplicit false

namespace JsonQuery

structure Application where
  query : Query
  input : Value

def Application.outcome (apply : Builtin.Apply) (x : Application) : Outcome Value :=
  apply x.query x.input

namespace Outcome

variable {α β γ : Type}

def afterward (outcome : Outcome α) (next : α → List γ) : List γ :=
  match outcome with
  | .answer a => next a
  | .failure _ | .aborted | .unsettled => []

/-- What is made on the way through the items of a list, up to the first without an answer. -/
def along (f : α → Outcome β) (made : α → List γ) : List α → List γ
  | [] => []
  | a :: rest => made a ++ (f a).afterward fun _ => along f made rest

end Outcome

/-- The query that a function applies to items, when its arguments are as it expects. -/
def Builtin.applied? (builtin : Builtin) (args : List Value) : Option (Query × List Value) :=
  match builtin, args with
  | .map, [.reference _ query, .array items] => some (query, items)
  | .sortBy, [.array items, .reference _ query] => some (query, items)
  | .maxBy, [.array items, .reference _ query] => some (query, items)
  | .minBy, [.array items, .reference _ query] => some (query, items)
  | _, _ => none

def Builtin.applications (apply : Apply) (name : String) (args : List Value) : List Application :=
  match (ofName? name).bind fun builtin => builtin.applied? args with
  | none => []
  | some (query, items) => Outcome.along (apply query) (fun v => [⟨query, v⟩]) items

namespace Query

mutual

/-- The applications that evaluation makes itself, without those made inside of them. -/
def applications (apply : Builtin.Apply) : Query → Value → List Application
  | .current, _ | .field _, _ | .path _, _ | .index _, _ | .slice _, _ | .range _ _, _
  | .literal _, _ | .reference _ _, _ => []
  | .chain left right, v =>
      applications apply left v ++ (evalWith apply left v).afterward (applications apply right)
  | .pipe left right, v =>
      applications apply left v ++ (evalWith apply left v).afterward (applications apply right)
  | .flatten child, v | .negate child, v | .presentItems child, v | .presentMembers child, v =>
      applications apply child v
  | .eachItem target body, v =>
      applications apply target v ++ (evalWith apply target v).afterward fun a =>
        match a with
        | .array items => Outcome.along (evalWith apply body) (applications apply body) items
        | _ => []
  | .eachMember target body, v =>
      applications apply target v ++ (evalWith apply target v).afterward fun a =>
        match a with
        | .object entries =>
            Outcome.along (evalWith apply body) (applications apply body) (Entries.values entries)
        | _ => []
  | .guard test body, v =>
      applications apply test v ++ (evalWith apply test v).afterward fun a =>
        if a.isTruthy then applications apply body v else []
  | .compare _ left right, v =>
      applications apply left v ++
        (evalWith apply left v).afterward fun _ => applications apply right v
  | .guardCompare op left right body, v =>
      applications apply left v ++ (evalWith apply left v).afterward fun a =>
        applications apply right v ++ (evalWith apply right v).afterward fun b =>
          if op.test? a b == some true then applications apply body v else []
  | .guardLiteral negated left expected body, v =>
      applications apply left v ++ (evalWith apply left v).afterward fun a =>
        if a.equals expected != negated then applications apply body v else []
  | .both left right, v =>
      applications apply left v ++ (evalWith apply left v).afterward fun a =>
        if a.isTruthy then applications apply right v else []
  | .either left right, v =>
      applications apply left v ++ (evalWith apply left v).afterward fun a =>
        if a.isTruthy then [] else applications apply right v
  | .list items, v => if v.isNull then [] else listApplications apply items v
  | .hash entries, v => if v.isNull then [] else entriesApplications apply entries v
  | .call name args _, v =>
      listApplications apply args v ++
        (evalList apply args v).afterward (Builtin.applications apply name)
termination_by structural query => query

def listApplications (apply : Builtin.Apply) : List Query → Value → List Application
  | [], _ => []
  | query :: rest, v =>
      applications apply query v ++
        (evalWith apply query v).afterward fun _ => listApplications apply rest v
termination_by structural queries => queries

def entriesApplications (apply : Builtin.Apply) :
    List (String × Query) → Value → List Application
  | [], _ => []
  | (_, query) :: rest, v =>
      applications apply query v ++
        (evalWith apply query v).afterward fun _ => entriesApplications apply rest v
termination_by structural entries => entries

end

end Query

/-! ## What a run depends on -/

/-- A run depends on applications only through those that it makes, and one of these that is cut off
or fails beyond forgiveness ends it. -/
structure Tracks {α : Type} (run : Builtin.Apply → Outcome α)
    (made : Builtin.Apply → List Application) : Prop where
  congr : ∀ {f g : Builtin.Apply}, (∀ x ∈ made f, x.outcome f = x.outcome g) →
    run f = run g ∧ made f = made g
  cut : ∀ {f : Builtin.Apply} {x : Application}, x ∈ made f → x.outcome f = .unsettled →
    run f = .unsettled
  fails : ∀ {f : Builtin.Apply} {x : Application} {e : Error}, x ∈ made f →
    e.isForgivable = false → x.outcome f = .failure e → run f = .failure e
  cause : ∀ {f : Builtin.Apply}, run f = .unsettled → ∃ x ∈ made f, x.outcome f = .unsettled

namespace Tracks

variable {α β : Type} {run : Builtin.Apply → Outcome α} {made : Builtin.Apply → List Application}

/-- A run that makes no application. -/
theorem settled {outcome : Outcome α} (settled : outcome ≠ .unsettled) :
    Tracks (fun _ => outcome) fun _ => [] where
  congr _ := ⟨rfl, rfl⟩
  cut := nofun
  fails := nofun
  cause unsettled := (settled unsettled).elim

theorem answer (a : α) : Tracks (fun _ => .answer a) fun _ => [] :=
  settled nofun

/-- A single application. -/
theorem single (query : Query) (v : Value) :
    Tracks (fun apply => apply query v) fun _ => [⟨query, v⟩] where
  congr agree := ⟨agree _ List.mem_cons_self, rfl⟩
  cut found unsettled := by
    obtain rfl := List.mem_singleton.mp found
    exact unsettled
  fails found _ failed := by
    obtain rfl := List.mem_singleton.mp found
    exact failed
  cause unsettled := ⟨_, List.mem_cons_self, unsettled⟩

theorem bind {next : Builtin.Apply → α → Outcome β}
    {made' : Builtin.Apply → α → List Application} (first : Tracks run made)
    (second : ∀ a, Tracks (fun apply => next apply a) fun apply => made' apply a) :
    Tracks (fun apply => run apply >>= next apply)
      fun apply => made apply ++ (run apply).afterward (made' apply) where
  congr {f g} agree := by
    simp only [List.forall_mem_append] at agree
    obtain ⟨sameRun, sameMade⟩ := first.congr agree.1
    simp only [← sameRun, ← sameMade]
    cases outcome : run f with
    | answer a =>
        simp only [outcome, Outcome.afterward] at agree
        obtain ⟨sameNext, sameMade'⟩ := (second a).congr agree.2
        exact ⟨sameNext, by simp only [Outcome.afterward, sameMade']⟩
    | failure e => exact ⟨rfl, rfl⟩
    | aborted => exact ⟨rfl, rfl⟩
    | unsettled => exact ⟨rfl, rfl⟩
  cut {f x} found unsettled := by
    obtain found | found := List.mem_append.mp found
    · simp only [first.cut found unsettled, Outcome.unsettled_bind]
    · cases outcome : run f with
      | answer a =>
          simp only [outcome] at found
          exact (second a).cut found unsettled
      | failure e => simp only [outcome, Outcome.afterward, List.not_mem_nil] at found
      | aborted => simp only [outcome, Outcome.afterward, List.not_mem_nil] at found
      | unsettled => rfl
  fails {f x e} found unforgivable failed := by
    obtain found | found := List.mem_append.mp found
    · simp only [first.fails found unforgivable failed, Outcome.failure_bind]
    · cases outcome : run f with
      | answer a =>
          simp only [outcome] at found
          exact (second a).fails found unforgivable failed
      | failure e => simp only [outcome, Outcome.afterward, List.not_mem_nil] at found
      | aborted => simp only [outcome, Outcome.afterward, List.not_mem_nil] at found
      | unsettled => simp only [outcome, Outcome.afterward, List.not_mem_nil] at found
  cause {f} unsettled := by
    simp only [List.mem_append]
    cases outcome : run f with
    | answer a =>
        simp only [outcome, Outcome.answer_bind] at unsettled
        obtain ⟨x, found, cut⟩ := (second a).cause unsettled
        exact ⟨x, .inr found, cut⟩
    | failure e => simp [outcome] at unsettled
    | aborted => simp [outcome] at unsettled
    | unsettled =>
        obtain ⟨x, found, cut⟩ := first.cause outcome
        exact ⟨x, .inl found, cut⟩

/-- The rest of a run that makes no more applications. -/
theorem finish {next : α → Outcome β} (first : Tracks run made)
    (settles : ∀ a, next a ≠ .unsettled) : Tracks (fun apply => run apply >>= next) made := by
  have rest (a : α) : Tracks (fun _ => next a) fun _ => [] := settled (settles a)
  have whole := first.bind rest
  have nothing (apply : Builtin.Apply) :
      (run apply).afterward (fun _ => ([] : List Application)) = [] := by
    cases run apply <;> rfl
  simpa only [nothing, List.append_nil] using whole

theorem traverse {f : Builtin.Apply → α → Outcome β}
    {each : Builtin.Apply → α → List Application}
    (tracks : ∀ a, Tracks (fun apply => f apply a) fun apply => each apply a) (items : List α) :
    Tracks (fun apply => Outcome.traverse (f apply) items)
      fun apply => Outcome.along (f apply) (each apply) items := by
  induction items with
  | nil => exact answer []
  | cons a rest ih => exact (tracks a).bind fun b => ih.finish nofun

theorem project {f : Builtin.Apply → Value → Outcome Value}
    {each : Builtin.Apply → Value → List Application}
    (tracks : ∀ v, Tracks (fun apply => f apply v) fun apply => each apply v)
    (items : List Value) :
    Tracks (fun apply => Query.project (f apply) items)
      fun apply => Outcome.along (f apply) (each apply) items :=
  (traverse tracks items).finish nofun

theorem branch {left right : Builtin.Apply → Outcome α}
    {made' : Builtin.Apply → List Application} (condition : Bool) (first : Tracks left made)
    (second : Tracks right made') :
    Tracks (fun apply => if condition then left apply else right apply)
      fun apply => if condition then made apply else made' apply := by
  cases condition with
  | true => exact first
  | false => exact second

theorem forgive {run : Builtin.Apply → Outcome Value} (tracks : Tracks run made) :
    Tracks (fun apply => Query.forgive (run apply)) made where
  congr agree := ⟨by rw [(tracks.congr agree).1], (tracks.congr agree).2⟩
  cut found unsettled := by
    rw [tracks.cut found unsettled]
    rfl
  fails found unforgivable failed := by
    rw [tracks.fails found unforgivable failed]
    simp only [Query.forgive, unforgivable, Bool.false_eq_true, if_false]
  cause {f} unsettled := by
    refine tracks.cause ?_
    cases outcome : run f with
    | answer a => simp [outcome, Query.forgive] at unsettled
    | failure e =>
        simp only [outcome, Query.forgive] at unsettled
        split at unsettled <;> cases unsettled
    | aborted => simp [outcome, Query.forgive] at unsettled
    | unsettled => rfl

end Tracks

/-! ## What evaluation depends on -/

namespace Builtin

theorem check_of_applied? {builtin : Builtin} {args items : List Value} {query : Query}
    (found : builtin.applied? args = some (query, items)) : builtin.check args = .ok () := by
  simp only [applied?] at found
  split at found <;> first | rfl | cases found

theorem keyed_tracks (function : String) (query : Query) (items : List Value)
    {finish : List Functions.Keyed → Outcome Value} (settles : ∀ keyed, finish keyed ≠ .unsettled) :
    Tracks (fun apply => do finish (← Functions.keyed apply function query items))
      fun apply => Outcome.along (apply query) (fun v => [⟨query, v⟩]) items := by
  refine Tracks.finish (Tracks.finish (Tracks.traverse (Tracks.single query) items) ?_) settles
  intro keys
  split <;> nofun

theorem run_tracks {builtin : Builtin} {args items : List Value} {query : Query}
    (found : builtin.applied? args = some (query, items)) :
    Tracks (fun apply => builtin.run apply args)
      fun apply => Outcome.along (apply query) (fun v => [⟨query, v⟩]) items := by
  simp only [applied?] at found
  split at found
  · cases found
    exact (Tracks.traverse (Tracks.single query) items).finish nofun
  · cases found
    exact keyed_tracks "sort_by" query items (Functions.sorted_ne_unsettled _)
  · cases found
    refine keyed_tracks "max_by" query items ?_
    nofun
  · cases found
    refine keyed_tracks "min_by" query items ?_
    nofun
  · cases found

theorem ofAnswer_ne_unsettled (answer : Functions.Answer) : ofAnswer answer ≠ .unsettled := by
  cases answer <;> nofun

theorem withItems_ne_unsettled (v : Value) {finish : List Value → Outcome Value}
    (settles : ∀ items, finish items ≠ .unsettled) : withItems v finish ≠ .unsettled := by
  cases v with
  | array items => exact settles items
  | _ => nofun

/-- Anything but a reference and an array is refused before an application. -/
theorem withReference_refuses {r v : Value}
    (mismatch : ∀ tag query items, r = .reference tag query → v ≠ .array items) :
    ∃ e, ∀ f : Query → List Value → Outcome Value,
      (withReference r fun query => withItems v (f query)) = .failure e := by
  cases r with
  | reference tag query =>
      cases v with
      | array items => exact absurd rfl (mismatch tag query items rfl)
      | _ => exact ⟨_, fun _ => rfl⟩
  | _ => exact ⟨_, fun _ => rfl⟩

theorem withItems_refuses {v r : Value}
    (mismatch : ∀ tag query items, r = .reference tag query → v ≠ .array items) :
    ∃ e, ∀ f : List Value → Query → Outcome Value,
      (withItems v fun items => withReference r (f items)) = .failure e := by
  cases v with
  | array items =>
      cases r with
      | reference tag query => exact absurd rfl (mismatch tag query items rfl)
      | _ => exact ⟨_, fun _ => rfl⟩
  | _ => exact ⟨_, fun _ => rfl⟩

/-- All other runs settle at once, whatever applying a reference would give. -/
theorem run_of_applied?_eq_none {builtin : Builtin} {args : List Value}
    (nothing : builtin.applied? args = none) :
    ∃ outcome, outcome ≠ .unsettled ∧ ∀ apply, builtin.run apply args = outcome := by
  simp only [run]
  split
  all_goals try
    refine ⟨_, ?_, fun _ => rfl⟩
    first
      | exact ofAnswer_ne_unsettled _
      | exact withItems_ne_unsettled _ fun _ => Functions.sorted_ne_unsettled _ _
      | exact withItems_ne_unsettled _ nofun
      | nofun
  case h_10 r v =>
    obtain ⟨e, refuses⟩ : ∃ e, ∀ f : Query → List Value → Outcome Value,
        (withReference r fun query => withItems v (f query)) = .failure e := by
      refine withReference_refuses ?_
      rintro tag query items rfl rfl
      cases nothing
    exact ⟨.failure e, nofun, fun apply => refuses _⟩
  all_goals
    rename_i v r
    obtain ⟨e, refuses⟩ : ∃ e, ∀ f : List Value → Query → Outcome Value,
        (withItems v fun items => withReference r (f items)) = .failure e := by
      refine withItems_refuses ?_
      rintro tag query items rfl rfl
      cases nothing
    exact ⟨.failure e, nofun, fun apply => refuses _⟩

theorem call_tracks (name : String) (args : List Value) :
    Tracks (fun apply => call apply name args) fun apply => applications apply name args := by
  simp only [call, applications]
  cases ofName? name with
  | none => exact .settled nofun
  | some builtin =>
      simp only [Option.bind_some]
      cases found : builtin.applied? args with
      | none =>
          obtain ⟨outcome, settled, same⟩ := run_of_applied?_eq_none found
          simp only [invoke]
          cases builtin.check args with
          | error e => exact .settled nofun
          | ok =>
              simp only [same]
              exact .settled settled
      | some applied =>
          obtain ⟨query, items⟩ := applied
          simp only [invoke, check_of_applied? found]
          exact run_tracks found

end Builtin

namespace Query

mutual

/-- Evaluation depends on its applications only, and it is cut off exactly when one of them is. -/
theorem evalWith_tracks (q : Query) (v : Value) :
    Tracks (fun apply => evalWith apply q v) fun apply => applications apply q v := by
  cases q with
  | current => exact .answer _
  | field name => exact .answer _
  | path keys => exact .answer _
  | index position => exact .answer _
  | slice s => exact .answer _
  | range start stop => exact .answer _
  | literal a => exact .answer _
  | reference tag body => exact .answer _
  | chain left right => exact (evalWith_tracks left v).bind (evalWith_tracks right)
  | pipe left right => exact (evalWith_tracks left v).bind (evalWith_tracks right)
  | flatten child => exact (evalWith_tracks child v).finish nofun
  | negate child => exact (evalWith_tracks child v).finish nofun
  | presentItems target =>
      refine (evalWith_tracks target v).finish fun a => ?_
      cases a <;> nofun
  | presentMembers target =>
      refine (evalWith_tracks target v).finish fun a => ?_
      cases a <;> nofun
  | eachItem target body =>
      refine (evalWith_tracks target v).bind fun a => ?_
      cases a with
      | array items => exact Tracks.project (evalWith_tracks body) items
      | _ => exact .answer _
  | eachMember target body =>
      refine (evalWith_tracks target v).bind fun a => ?_
      cases a with
      | object entries => exact Tracks.project (evalWith_tracks body) _
      | _ => exact .answer _
  | guard test body =>
      refine (evalWith_tracks test v).bind fun a => ?_
      exact Tracks.branch _ (evalWith_tracks body v) (.answer _)
  | compare op left right =>
      exact (evalWith_tracks left v).bind fun a => (evalWith_tracks right v).finish nofun
  | guardCompare op left right body =>
      refine (evalWith_tracks left v).bind fun a => (evalWith_tracks right v).bind fun b => ?_
      exact Tracks.branch _ (evalWith_tracks body v) (.answer _)
  | guardLiteral negated left expected body =>
      refine (evalWith_tracks left v).bind fun a => ?_
      exact Tracks.branch _ (evalWith_tracks body v) (.answer _)
  | both left right =>
      refine (evalWith_tracks left v).bind fun a => ?_
      exact Tracks.branch _ (evalWith_tracks right v) (.answer _)
  | either left right =>
      refine (evalWith_tracks left v).bind fun a => ?_
      exact Tracks.branch _ (.answer _) (evalWith_tracks right v)
  | list items => exact Tracks.branch _ (.answer _) ((evalList_tracks items v).finish nofun)
  | hash entries => exact Tracks.branch _ (.answer _) ((evalEntries_tracks entries v).finish nofun)
  | call name args lenient =>
      refine (evalList_tracks args v).bind fun values => ?_
      cases lenient with
      | true => exact (Builtin.call_tracks name values).forgive
      | false => exact Builtin.call_tracks name values
termination_by structural q

theorem evalList_tracks (queries : List Query) (v : Value) :
    Tracks (fun apply => evalList apply queries v) fun apply => listApplications apply queries v := by
  cases queries with
  | nil => exact .answer _
  | cons q rest =>
      exact (evalWith_tracks q v).bind fun a => (evalList_tracks rest v).finish nofun
termination_by structural queries

theorem evalEntries_tracks (entries : Entries Query) (v : Value) :
    Tracks (fun apply => evalEntries apply entries v)
      fun apply => entriesApplications apply entries v := by
  cases entries with
  | nil => exact .answer _
  | cons entry rest =>
      obtain ⟨key, q⟩ := entry
      exact (evalWith_tracks q v).bind fun a => (evalEntries_tracks rest v).finish nofun
termination_by structural entries

end

/-- Outcomes of applications that are not cut off are all that a settled outcome depends on. -/
theorem evalWith_of_below {f g : Builtin.Apply} {q : Query} {v : Value}
    (below : ∀ p w, f p w ≠ .unsettled → g p w = f p w)
    (settled : evalWith f q v ≠ .unsettled) :
    evalWith g q v = evalWith f q v ∧ applications g q v = applications f q v := by
  have same := (evalWith_tracks q v).congr (f := f) (g := g) fun x found => by
    refine (below x.query x.input fun unsettled => ?_).symm
    exact settled ((evalWith_tracks q v).cut found unsettled)
  exact ⟨same.1.symm, same.2.symm⟩

end Query

end JsonQuery
