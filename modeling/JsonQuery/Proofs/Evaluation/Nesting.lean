import JsonQuery.Grammar.Parse
import JsonQuery.Query.Application
import JsonQuery.Proofs.Evaluation.Discipline
import JsonQuery.Query.Simplify
import Mathlib

/-!
# When evaluation returns

Evaluation returns unless applications of references nest in each other without end.  The bodies in
such a chain are all held by the query or the value it starts from, so one of them is applied again
and again inside its own application.
-/

set_option autoImplicit false

namespace JsonQuery

/-! ## Nested applications -/

namespace Application

variable {x y : Application}

/-- Evaluation of the application comes to an end. -/
def Returns (x : Application) : Prop :=
  ∃ outcome, x.query.Settles x.input outcome

/-- The first application is made while the second one is evaluated, and not inside a third. -/
def Within (x y : Application) : Prop :=
  x ∈ y.query.applications Query.search y.input

theorem returns_iff_search : x.Returns ↔ x.query.search x.input ≠ .unsettled := by
  constructor
  · rintro ⟨outcome, settles⟩
    obtain ⟨settled, rfl⟩ := Query.settles_iff_search.mp settles
    exact settled
  · exact fun settled => ⟨_, Query.settles_iff_search.mpr ⟨settled, rfl⟩⟩

theorem returns_iff_within : x.Returns ↔ ∀ y : Application, y.Within x → y.Returns := by
  simp only [returns_iff_search]
  constructor
  · intro settled y within unsettled
    refine settled ?_
    rw [Query.search_eq]
    exact (Query.evalWith_tracks _ _).cut within unsettled
  · intro settled unsettled
    rw [Query.search_eq] at unsettled
    obtain ⟨y, within, cut⟩ := (Query.evalWith_tracks _ _).cause unsettled
    exact settled y within cut

theorem acc_of_eval {depth : Nat} (settled : x.query.eval depth x.input ≠ .unsettled) :
    Acc Within x := by
  induction depth generalizing x with
  | zero =>
      refine ⟨x, fun y within => ?_⟩
      rw [Within, (Query.evalWith_of_below (fun _ _ => absurd rfl) settled).2] at within
      exact absurd ((Query.evalWith_tracks _ _).cut within rfl) settled
  | succ depth ih =>
      refine ⟨x, fun y within => ih fun unsettled => ?_⟩
      rw [Within, (Query.evalWith_of_below (fun _ _ => Query.search_of_eval) settled).2] at within
      exact settled ((Query.evalWith_tracks _ _).cut within unsettled)

/-- Evaluation returns exactly where nesting is well-founded. -/
theorem returns_iff_acc : x.Returns ↔ Acc Within x := by
  constructor
  · rintro ⟨outcome, settled, depth, rfl⟩
    exact acc_of_eval settled
  · intro accessible
    induction accessible with
    | intro x _ ih => exact returns_iff_within.mpr ih

end Application

/-! ## The bodies in a chain -/

/-- The same body, one of those listed. -/
def Listed (bodies : List Query) (p q : Query) : Prop :=
  p = q ∧ p ∈ bodies

/-- The coupling of a run with itself, whose references are all listed. -/
def listing (bodies : List Query) : Coupling where
  refs := Listed bodies
  admits _ := True
  pardons := False
  cuts := True

section Listed

variable {bodies : List Query}

theorem listed_respectful : Query.Respectful (Listed bodies) :=
  Query.respectful_of_eq fun _ _ => And.left

theorem coupled_listed {q : Query} (listed : q.references ⊆ bodies) :
    Query.Coupled (listing bodies) q q := by
  have calls := (listing bodies).allowsCall_of_admits (fun _ => trivial) id
  exact Query.coupled_self calls q fun body found => ⟨rfl, listed found⟩

theorem Nested.references_subset (nested : Nested bodies) {body : Query} (found : body ∈ bodies) :
    body.references ⊆ bodies :=
  fun _ inner => (nested body found).subset (List.mem_cons_of_mem body inner)

/-- Listed references answer with listed references. -/
theorem search_listed (nested : Nested bodies) {body : Query} (found : body ∈ bodies) {v : Value}
    (input : Value.Coupled (Listed bodies) v v) :
    Outcome.Follows (listing bodies) (Value.Coupled (Listed bodies))
      (body.search v) (body.search v) := by
  cases reached : body.search v with
  | unsettled => exact trivial
  | aborted => exact rfl
  | failure e => exact .failure trivial
  | answer a =>
      have settled : Outcome.answer a ≠ .unsettled := nofun
      obtain ⟨-, depth, answered⟩ := Query.settles_iff_search.mpr ⟨settled, reached⟩
      have follows := Query.eval_follows (c := listing bodies) listed_respectful trivial
        (fun p q listed => listed.1 ▸ coupled_listed (nested.references_subset listed.2))
        (Nat.le_refl depth) (coupled_listed (nested.references_subset found)) input
      rw [answered] at follows
      exact follows

open Classical in
/-- Applies listed references only, and those to values with listed references; fails otherwise. -/
noncomputable def guarded (bodies : List Query) (e : Error) : Builtin.Apply := fun p v =>
  if p ∈ bodies ∧ Value.Coupled (Listed bodies) v v then p.search v else .failure e

/-- Evaluation does not see that other applications would fail. -/
theorem guarded_failure (nested : Nested bodies) {x : Application}
    (listed : x.query.references ⊆ bodies) (input : Value.Coupled (Listed bodies) x.input x.input)
    {e : Error} (failed : Query.evalWith (guarded bodies e) x.query x.input = .failure e) :
    Query.evalWith Query.search x.query x.input = .failure e := by
  have applies (p q : Query) (v w : Value) (same : Listed bodies p q)
      (coupled : Value.Coupled (Listed bodies) v w) :
      Outcome.Follows (listing bodies) (Value.Coupled (Listed bodies))
        (guarded bodies e p v) (q.search w) := by
    obtain ⟨rfl, found⟩ := same
    obtain rfl := coupled.eq fun _ _ same => same.1
    rw [guarded, if_pos ⟨found, coupled⟩]
    exact search_listed nested found coupled
  have follows := Coupling.Applies.evalWith_follows ⟨listed_respectful, applies⟩ x.query
    (coupled_listed listed) input
  rw [failed] at follows
  exact follows.2.resolve_left id

/-- An application of anything else would make evaluation fail with every error that is never
forgiven. -/
theorem Application.Within.listed_or_fails (nested : Nested bodies) {x y : Application}
    (within : y.Within x) (listed : x.query.references ⊆ bodies)
    (input : Value.Coupled (Listed bodies) x.input x.input) {e : Error}
    (unforgivable : e.isForgivable = false) :
    (y.query ∈ bodies ∧ Value.Coupled (Listed bodies) y.input y.input) ∨
      Query.evalWith Query.search x.query x.input = .failure e := by
  have tracks := Query.evalWith_tracks x.query x.input
  by_cases all : ∀ z ∈ x.query.applications (guarded bodies e) x.input,
      z.query ∈ bodies ∧ Value.Coupled (Listed bodies) z.input z.input
  · have agree := tracks.congr (f := guarded bodies e) (g := Query.search)
      fun z made => if_pos (all z made)
    rw [Application.Within, ← agree.2] at within
    exact .inl (all y within)
  · push Not at all
    obtain ⟨z, made, other⟩ := all
    have failed := tracks.fails made unforgivable (if_neg fun both => other both.1 both.2)
    exact .inr (guarded_failure nested listed input failed)

/-- All applications are of listed references, to values with listed references. -/
theorem Application.Within.listed (nested : Nested bodies) {x y : Application} (within : y.Within x)
    (listed : x.query.references ⊆ bodies)
    (input : Value.Coupled (Listed bodies) x.input x.input) :
    y.query ∈ bodies ∧ Value.Coupled (Listed bodies) y.input y.input := by
  obtain both | failed := within.listed_or_fails nested listed input (e := .zeroStep) rfl
  · exact both
  · obtain both | failed' :=
      within.listed_or_fails nested listed input (e := .unknownFunction "") rfl
    · exact both
    · rw [failed] at failed'
      cases failed'

/-- Each application starts from the one before it and is made inside of it. -/
def Application.IsChain (chain : Nat → Application) : Prop :=
  ∀ k, (chain (k + 1)).Within (chain k)

theorem Application.IsChain.listed {chain : Nat → Application} (chained : IsChain chain)
    (nested : Nested bodies) (listed : (chain 0).query.references ⊆ bodies)
    (input : Value.Coupled (Listed bodies) (chain 0).input (chain 0).input) (k : Nat) :
    (chain (k + 1)).query ∈ bodies ∧
      Value.Coupled (Listed bodies) (chain (k + 1)).input (chain (k + 1)).input := by
  induction k with
  | zero => exact (chained 0).listed nested listed input
  | succ k ih => exact (chained (k + 1)).listed nested (nested.references_subset ih.1) ih.2

/-- Some body comes up in the chain again and again. -/
theorem Application.IsChain.recurs {chain : Nat → Application}
    (member : ∀ k, (chain (k + 1)).query ∈ bodies) :
    ∃ body ∈ bodies, ∀ n, ∃ k, n < k ∧ (chain k).query = body := by
  have finite : Finite {body // body ∈ bodies} := bodies.finite_toSet
  obtain ⟨body, infinite⟩ := Finite.exists_infinite_fiber
    fun k => (⟨(chain (k + 1)).query, member k⟩ : {body // body ∈ bodies})
  refine ⟨body.1, body.2, fun n => ?_⟩
  obtain ⟨k, same, above⟩ := (Set.infinite_coe_iff.mp infinite).exists_gt n
  exact ⟨k + 1, by omega, congrArg Subtype.val same⟩

end Listed

/-! ## A query that never returns -/

namespace Query

/-- Applies the member `f` of an object to that same object. -/
def selfApplied : Query :=
  .call "map" [.field "f", .list [.current]] false

/-- An object in which that query is the member. -/
def selfHolder : Value :=
  .object [("f", .reference none selfApplied)]

/-- Builds the object and applies the query to it. -/
def selfApplication : Query :=
  .pipe (.hash [("f", .reference none selfApplied)])
    (.both selfApplied (.literal (.string "done")))

theorem selfApplied_unsettled (depth : Nat) : eval depth selfApplied selfHolder = .unsettled := by
  induction depth with
  | zero => rfl
  | succ depth ih =>
      have step : eval (depth + 1) selfApplied selfHolder =
          (do return .array (← Outcome.traverse (eval depth selfApplied) [selfHolder])) := rfl
      rw [step]
      simp only [Outcome.traverse, ih, Outcome.unsettled_bind]

theorem selfApplication_unsettled (depth : Nat) :
    eval depth selfApplication (.object []) = .unsettled := by
  have step : eval depth selfApplication (.object []) =
      (do
        let a ← eval depth selfApplied selfHolder
        if a.isTruthy then return .string "done" else return a) := by
    cases depth <;> rfl
  rw [step, selfApplied_unsettled, Outcome.unsettled_bind]

theorem selfApplication_not_settles : ¬∃ outcome, selfApplication.Settles (.object []) outcome := by
  rintro ⟨outcome, settled, depth, rfl⟩
  exact settled (selfApplication_unsettled depth)

end Query

/-! ## Returning and nesting -/

/-- Evaluation on a plain value returns unless applications nest without end, and then some body of
the query is applied again and again inside its own application. -/
theorem settles_iff_no_chain (q : Query) (v : Value) (plain : v.isPlain = true) :
    ((∃ outcome, q.Settles v outcome) ↔
      ¬∃ chain, Application.IsChain chain ∧ chain 0 = ⟨q, v⟩) ∧
      ∀ chain, Application.IsChain chain → chain 0 = ⟨q, v⟩ →
        ∃ body ∈ q.references, ∀ n, ∃ k, n < k ∧ (chain k).query = body := by
  constructor
  · have returns := Application.returns_iff_acc (x := ⟨q, v⟩)
    rw [Application.Returns] at returns
    rw [returns, ← not_iff_not, not_not, not_acc_iff_exists_descending_chain]
    exact exists_congr fun _ => And.comm
  · intro chain chained start
    have listed : (chain 0).query.references ⊆ q.references := by
      rw [start]
      exact List.Subset.refl _
    have input : Value.Coupled (Listed q.references) (chain 0).input (chain 0).input := by
      rw [start]
      exact Value.coupled_of_isPlain plain
    exact Application.IsChain.recurs fun k =>
      (chained.listed q.references_nested listed input k).1

/-- A query that does not return starts a chain in which its one reference recurs. -/
theorem settles_iff_no_chain_selfApplication :
    ∃ chain, Application.IsChain chain ∧ chain 0 = ⟨Query.selfApplication, .object []⟩ ∧
      ∃ body ∈ Query.selfApplication.references, ∀ n, ∃ k, n < k ∧ (chain k).query = body := by
  have exact_condition := settles_iff_no_chain Query.selfApplication (.object []) rfl
  have some : ∃ chain, Application.IsChain chain ∧
      chain 0 = ⟨Query.selfApplication, .object []⟩ := by
    by_contra none
    exact Query.selfApplication_not_settles (exact_condition.1.mpr none)
  obtain ⟨chain, chained, start⟩ := some
  exact ⟨chain, chained, start, exact_condition.2 chain chained start⟩

/-- A reference that is stored in an object can be handed to itself; neither form of the query that
is read from this text returns on a plain value. -/
theorem parse_selfApplication :
    ∃ q, (Parser.mk false).parse "\x7bf: &map(f, [@])\x7d | map(f, [@]) && 'done'" = .ok q ∧
      Value.isPlain (.object []) = true ∧
      (¬∃ outcome, q.Settles (.object []) outcome) ∧
      ¬∃ outcome, q.simplify.Settles (.object []) outcome := by
  have read : (Parser.mk false).parse "\x7bf: &map(f, [@])\x7d | map(f, [@]) && 'done'" =
      .ok Query.selfApplication := by cbv
  have simplified : Query.selfApplication.simplify = Query.selfApplication := rfl
  refine ⟨Query.selfApplication, read, rfl, Query.selfApplication_not_settles, ?_⟩
  rw [simplified]
  exact Query.selfApplication_not_settles

end JsonQuery
