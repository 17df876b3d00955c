import JsonQuery.Query.Search

/-!
# Depth of evaluation

An outcome that is reached at some depth is reached at every greater one, so each query has at most
one outcome on a value.  It is the outcome that `eval` settles on, and the one that `search` finds.
-/

set_option autoImplicit false

namespace JsonQuery.Query

/-- Evaluation returns with the outcome, at some depth and so at all greater ones. -/
def Settles (query : Query) (v : Value) (outcome : Outcome Value) : Prop :=
  outcome ≠ .unsettled ∧ ∃ depth, query.eval depth v = outcome

variable {q : Query} {v : Value} {depth : Nat} {outcome outcome' : Outcome Value}

theorem settles_of_eval (settled : q.eval depth v ≠ .unsettled) :
    q.Settles v (q.eval depth v) :=
  ⟨settled, depth, rfl⟩

/-- Search finds the outcome that evaluation settles on, if there is one. -/
theorem settles_iff_search :
    q.Settles v outcome ↔ outcome ≠ .unsettled ∧ q.search v = outcome := by
  constructor
  · rintro ⟨settled, depth, rfl⟩
    exact ⟨settled, search_of_eval settled⟩
  · rintro ⟨settled, rfl⟩
    exact ⟨settled, (isLimit_search q v).exists_depth settled⟩

theorem Settles.unique (first : q.Settles v outcome) (second : q.Settles v outcome') :
    outcome = outcome' :=
  (settles_iff_search.mp first).2.symm.trans (settles_iff_search.mp second).2

end JsonQuery.Query
