import JsonQuery.Query.Application

/-!
# Search

Searching evaluates a query and searches again wherever a reference is applied.  Its outcome is that
of evaluation at every depth that is great enough.  Where there is none, searching does not return.
-/

set_option autoImplicit false

namespace JsonQuery.Query

variable {q : Query} {v : Value} {depth depth' : Nat} {apply : Builtin.Apply}
  {outcome other : Outcome Value}

theorem exists_eval_eq_evalWith (depth : Nat) : ∃ apply, eval depth = evalWith apply := by
  cases depth with
  | zero => exact ⟨fun _ _ => .unsettled, rfl⟩
  | succ depth => exact ⟨eval depth, rfl⟩

theorem eval_mono (settled : q.eval depth v ≠ .unsettled) (le : depth ≤ depth') :
    q.eval depth' v = q.eval depth v := by
  induction depth generalizing depth' q v with
  | zero =>
      obtain ⟨apply, evaluates⟩ := exists_eval_eq_evalWith depth'
      rw [evaluates]
      exact (evalWith_of_below (fun _ _ => absurd rfl) settled).1
  | succ depth ih =>
      cases depth' with
      | zero => exact absurd le (Nat.not_succ_le_zero depth)
      | succ depth' =>
          have deeper : depth ≤ depth' := Nat.le_of_succ_le_succ le
          exact (evalWith_of_below (fun _ _ below => ih below deeper) settled).1

/-! ## Outcomes without a bound -/

/-- The outcome at every depth that is great enough, and `unsettled` if there is no such depth. -/
structure IsLimit (q : Query) (v : Value) (outcome : Outcome Value) : Prop where
  of_depth : ∀ depth, q.eval depth v ≠ .unsettled → q.eval depth v = outcome
  exists_depth : outcome ≠ .unsettled → ∃ depth, q.eval depth v = outcome

theorem exists_isLimit (q : Query) (v : Value) : ∃ outcome, IsLimit q v outcome := by
  by_cases settles : ∃ depth, q.eval depth v ≠ .unsettled
  · obtain ⟨depth, settled⟩ := settles
    refine ⟨q.eval depth v, fun depth' settled' => ?_, fun _ => ⟨depth, rfl⟩⟩
    rw [← eval_mono settled (Nat.le_max_left depth depth'),
      eval_mono settled' (Nat.le_max_right depth depth')]
  · exact ⟨.unsettled, fun depth settled => (settles ⟨depth, settled⟩).elim,
      fun settled => (settled rfl).elim⟩

theorem IsLimit.eq_of_settled (first : IsLimit q v outcome) (second : IsLimit q v other)
    (settled : outcome ≠ .unsettled) : outcome = other := by
  obtain ⟨depth, rfl⟩ := first.exists_depth settled
  exact second.of_depth depth settled

theorem IsLimit.unique (first : IsLimit q v outcome) (second : IsLimit q v other) :
    outcome = other := by
  by_cases settled : outcome = .unsettled
  · by_cases settled' : other = .unsettled
    · rw [settled, settled']
    · exact (second.eq_of_settled first settled').symm
  · exact first.eq_of_settled second settled

/-- Finitely many applications reach their outcomes at a common depth. -/
theorem exists_common_depth (limits : ∀ p w, IsLimit p w (apply p w)) {made : List Application}
    (settled : ∀ x ∈ made, x.outcome apply ≠ .unsettled) :
    ∃ depth, ∀ x ∈ made, x.outcome apply = x.outcome (eval depth) := by
  induction made with
  | nil => exact ⟨0, nofun⟩
  | cons x rest ih =>
      rw [List.forall_mem_cons] at settled
      obtain ⟨depth, reached⟩ := (limits x.query x.input).exists_depth settled.1
      obtain ⟨depth', others⟩ := ih settled.2
      refine ⟨max depth depth', List.forall_mem_cons.mpr ⟨?_, fun y found => ?_⟩⟩
      · have settledAt : x.query.eval depth x.input ≠ .unsettled := reached ▸ settled.1
        exact reached.symm.trans (eval_mono settledAt (Nat.le_max_left _ _)).symm
      · have settledAt : y.outcome (eval depth') ≠ .unsettled :=
          others y found ▸ settled.2 y found
        exact (others y found).trans (eval_mono settledAt (Nat.le_max_right _ _)).symm

/-- Where references are applied without a bound, so is the query. -/
theorem isLimit_evalWith (limits : ∀ p w, IsLimit p w (apply p w)) (q : Query) (v : Value) :
    IsLimit q v (evalWith apply q v) where
  of_depth depth settled := by
    cases depth with
    | zero => exact (evalWith_of_below (fun _ _ => absurd rfl) settled).1.symm
    | succ depth =>
        have below (p : Query) (w : Value) (settled : p.eval depth w ≠ .unsettled) :
            apply p w = p.eval depth w := ((limits p w).of_depth depth settled).symm
        exact (evalWith_of_below below settled).1.symm
  exists_depth settled := by
    obtain ⟨depth, agree⟩ := exists_common_depth limits fun x found unsettled =>
      settled ((evalWith_tracks q v).cut found unsettled)
    exact ⟨depth + 1, ((evalWith_tracks q v).congr agree).1.symm⟩

instance (x : Application) : Nonempty { outcome // IsLimit x.query x.input outcome } :=
  have ⟨outcome, limit⟩ := exists_isLimit x.query x.input
  ⟨⟨outcome, limit⟩⟩

/-- The outcome of an application, by searching again where references are applied.  Its type says
which one this is, so that the recursion is over no order. -/
def find : (x : Application) → { outcome // IsLimit x.query x.input outcome } :=
  WellFounded.extrinsicFix (fun _ _ => True) fun x find =>
    ⟨evalWith (fun p w => (find ⟨p, w⟩ trivial).val) x.query x.input,
      isLimit_evalWith (fun p w => (find ⟨p, w⟩ trivial).property) x.query x.input⟩

def search (query : Query) (v : Value) : Outcome Value :=
  (find ⟨query, v⟩).val

theorem isLimit_search (q : Query) (v : Value) : IsLimit q v (q.search v) :=
  (find ⟨q, v⟩).property

theorem search_eq (q : Query) (v : Value) : q.search v = evalWith search q v :=
  (isLimit_search q v).unique (isLimit_evalWith isLimit_search q v)

theorem search_eq_evalWith : search = evalWith search :=
  funext fun q => funext (search_eq q)

theorem search_of_eval (settled : q.eval depth v ≠ .unsettled) : q.search v = q.eval depth v :=
  ((isLimit_search q v).of_depth depth settled).symm

end JsonQuery.Query
