import JsonQuery.Text

/-!
# Delimited text

What stands before the first mark that no backslash protects.  The text before it decides on its own
that it is enclosed, so nothing behind the mark matters.  A text can be enclosed once its marks are
protected, provided that none of its own backslashes stands before a mark or at the end without
belonging to an earlier one.
-/

set_option autoImplicit false

namespace JsonQuery.Text

/-- A backslash protects every mark in the text, and no backslash is without the character that it
protects. -/
inductive Enclosed (mark : Char) : List Char → Prop
  | nil : Enclosed mark []
  | escape (differs : '\\' ≠ mark) (c : Char) {rest : List Char} (others : Enclosed mark rest) :
      Enclosed mark ('\\' :: c :: rest)
  | plain {c : Char} (noMark : c ≠ mark) (noEscape : c ≠ '\\') {rest : List Char}
      (others : Enclosed mark rest) : Enclosed mark (c :: rest)

variable {mark : Char} {text body after : List Char}

theorem enclosed_of_delimited? (found : delimited? mark text = some (body, after)) :
    Enclosed mark body ∧ text = body ++ mark :: after := by
  fun_induction delimited? mark text generalizing body with
  | case1 => cases found
  | case2 rest =>
      cases found
      exact ⟨.nil, rfl⟩
  | case3 => cases found
  | case4 kept rest differs ih =>
      obtain ⟨⟨inner, after'⟩, found, same⟩ := Option.map_eq_some_iff.mp found
      cases same
      obtain ⟨enclosed, rfl⟩ := ih found
      exact ⟨.escape differs kept enclosed, rfl⟩
  | case5 c rest noMark noEscape ih =>
      obtain ⟨⟨inner, after'⟩, found, same⟩ := Option.map_eq_some_iff.mp found
      cases same
      obtain ⟨enclosed, rfl⟩ := ih found
      exact ⟨.plain noMark noEscape enclosed, rfl⟩

theorem Enclosed.delimited? (enclosed : Enclosed mark body) (after : List Char) :
    Text.delimited? mark (body ++ mark :: after) = some (body, after) := by
  induction enclosed with
  | nil =>
      rw [List.nil_append, Text.delimited?.eq_def]
      exact if_pos rfl
  | escape differs c others ih =>
      rw [List.cons_append, List.cons_append, Text.delimited?.eq_def]
      simp only [if_neg differs, if_true, ih, Option.map_some]
  | plain noMark noEscape others ih =>
      rw [List.cons_append, Text.delimited?.eq_def]
      simp only [if_neg noMark, if_neg noEscape, ih, Option.map_some]

theorem delimited?_append (found : delimited? mark text = some (body, after))
    (tail : List Char) : delimited? mark (text ++ tail) = some (body, after ++ tail) := by
  obtain ⟨enclosed, rfl⟩ := enclosed_of_delimited? found
  rw [List.append_assoc, List.cons_append]
  exact enclosed.delimited? (after ++ tail)

/-! ## Protected marks -/

/-- Puts a backslash before every mark. -/
def protect (mark : Char) (text : List Char) : List Char :=
  text.flatMap fun c => if c = mark then ['\\', c] else [c]

theorem protect_mark (mark : Char) (rest : List Char) :
    protect mark (mark :: rest) = '\\' :: mark :: protect mark rest := by
  simp only [protect, List.flatMap_cons, if_true, List.cons_append, List.nil_append]

theorem protect_other {c : Char} (noMark : c ≠ mark) (rest : List Char) :
    protect mark (c :: rest) = c :: protect mark rest := by
  simp only [protect, List.flatMap_cons, if_neg noMark, List.cons_append, List.nil_append]

theorem protect_head? (differs : '\\' ≠ mark) (text : List Char) :
    (protect mark text).head? ≠ some mark := by
  cases text with
  | nil => nofun
  | cons c rest =>
      by_cases same : c = mark
      · rw [same, protect_mark, List.head?_cons, ne_eq, Option.some_inj]
        exact differs
      · rw [protect_other same, List.head?_cons, ne_eq, Option.some_inj]
        exact same

/-- A character that is no backslash in front of a mark stays. -/
theorem unprotect_cons {c : Char} {rest : List Char}
    (apart : c = '\\' → rest.head? ≠ some mark) :
    unprotect mark (c :: rest) = c :: unprotect mark rest := by
  cases rest with
  | nil => rfl
  | cons d more =>
      have kept : ¬(c = '\\' ∧ d = mark) := by
        rintro ⟨escape, rfl⟩
        exact apart escape rfl
      rw [unprotect, if_neg kept]

/-- The marks that were protected are all that a replacement finds. -/
theorem unprotect_protect (differs : '\\' ≠ mark) (text : List Char) :
    unprotect mark (protect mark text) = text := by
  induction text with
  | nil => rfl
  | cons c rest ih =>
      by_cases same : c = mark
      · rw [same, protect_mark, unprotect, if_pos ⟨rfl, rfl⟩, ih]
      · rw [protect_other same, unprotect_cons fun _ => protect_head? differs rest, ih]

/-- Every backslash has a character behind it that it escapes, and that is no mark. -/
inductive Paired (mark : Char) : List Char → Prop
  | nil : Paired mark []
  | escape {c : Char} (noMark : c ≠ mark) {rest : List Char} (others : Paired mark rest) :
      Paired mark ('\\' :: c :: rest)
  | plain {c : Char} (noEscape : c ≠ '\\') {rest : List Char} (others : Paired mark rest) :
      Paired mark (c :: rest)

namespace Paired

theorem append {rest : List Char} (first : Paired mark text) (second : Paired mark rest) :
    Paired mark (text ++ rest) := by
  induction first with
  | nil => exact second
  | escape noMark _ ih => exact .escape noMark ih
  | plain noEscape _ ih => exact .plain noEscape ih

theorem of_noEscape (noEscape : ∀ c ∈ text, c ≠ '\\') : Paired mark text := by
  induction text with
  | nil => exact .nil
  | cons c rest ih =>
      refine .plain (noEscape c List.mem_cons_self) (ih ?_)
      intro d found
      exact noEscape d (List.mem_cons_of_mem c found)

theorem enclosed_protect (differs : '\\' ≠ mark) (paired : Paired mark text) :
    Enclosed mark (protect mark text) := by
  induction paired with
  | nil => exact .nil
  | @escape c noMark rest others ih =>
      rw [protect_other differs, protect_other noMark]
      exact .escape differs c ih
  | @plain c noEscape rest others ih =>
      by_cases same : c = mark
      · rw [same, protect_mark]
        exact .escape differs mark ih
      · rw [protect_other same]
        exact .plain same noEscape ih

end Paired

end JsonQuery.Text
