import Mathlib.Data.List.Infix
import JsonQuery.Proofs.Token.Scan

/-!
# Cursors that move on

A cursor moves over a list of tokens of which the last one, and no other, marks the end of the text.
So it moves on strictly until it stands on that one.
-/

set_option autoImplicit false

namespace JsonQuery

/-- The only lexeme of a kind, if its lexemes carry nothing. -/
def TokenKind.bare? : TokenKind → Option Lexeme
  | .dot => some .dot
  | .star => some .star
  | .flatten => some .flatten
  | .filter => some .filter
  | .lbracket => some .lbracket
  | .rbracket => some .rbracket
  | .lbrace => some .lbrace
  | .rbrace => some .rbrace
  | .lparen => some .lparen
  | .rparen => some .rparen
  | .comma => some .comma
  | .colon => some .colon
  | .current => some .current
  | .expref => some .expref
  | .pipe => some .pipe
  | .or => some .or
  | .and => some .and
  | .not => some .not
  | .eof => some .eof
  | _ => none

theorem Lexeme.eq_of_kind {lexeme only : Lexeme} {kind : TokenKind} (found : lexeme.kind = kind)
    (bare : kind.bare? = some only) : lexeme = only := by
  subst found
  cases lexeme <;> cases bare <;> rfl

/-- The last token, and no other, marks the end of the text. -/
def Token.EndsAt : Token → List Token → Prop
  | token, [] => token.kind = .eof
  | token, next :: rest => token.kind ≠ .eof ∧ EndsAt next rest

theorem Token.EndsAt.of_suffix {token later : Token} {rest behind : List Token}
    (ends : EndsAt token rest) (suffix : later :: behind <:+ token :: rest) :
    EndsAt later behind := by
  induction rest generalizing token with
  | nil =>
      obtain same | short := List.suffix_cons_iff.mp suffix
      · cases same
        exact ends
      · exact absurd (List.suffix_nil.mp short) (List.cons_ne_nil _ _)
  | cons next rest ih =>
      obtain same | short := List.suffix_cons_iff.mp suffix
      · cases same
        exact ends
      · exact ih ends.2 short

namespace Cursor

variable {c c' c'' : Cursor}

/-- Only the last token that the cursor can move to marks the end of the text. -/
def Ended (c : Cursor) : Prop :=
  c.token.EndsAt c.rest

/-- The current token of the second cursor is that of the first one, or behind it. -/
def Reaches (c c' : Cursor) : Prop :=
  c'.text = c.text ∧ c'.token :: c'.rest <:+ c.token :: c.rest

/-- The second cursor is strictly further than the first one. -/
def Passes (c c' : Cursor) : Prop :=
  c'.text = c.text ∧ c'.token :: c'.rest <:+ c.rest

theorem Reaches.refl (c : Cursor) : c.Reaches c :=
  ⟨rfl, List.suffix_refl _⟩

theorem Passes.reaches (passes : c.Passes c') : c.Reaches c' :=
  ⟨passes.1, passes.2.trans (List.suffix_cons _ _)⟩

theorem Passes.trans_reaches (passes : c.Passes c') (reaches : c'.Reaches c'') : c.Passes c'' :=
  ⟨reaches.1.trans passes.1, reaches.2.trans passes.2⟩

theorem Reaches.trans (first : c.Reaches c') (second : c'.Reaches c'') : c.Reaches c'' :=
  ⟨second.1.trans first.1, second.2.trans first.2⟩

theorem Reaches.trans_passes (reaches : c.Reaches c') (passes : c'.Passes c'') : c.Passes c'' := by
  obtain same | behind := List.suffix_cons_iff.mp reaches.2
  · obtain ⟨-, rest⟩ := List.cons.inj same
    exact ⟨passes.1.trans reaches.1, rest ▸ passes.2⟩
  · exact Passes.trans_reaches ⟨reaches.1, behind⟩ passes.reaches

theorem Passes.length_lt (passes : c.Passes c') : c'.rest.length < c.rest.length := by
  have le := passes.2.length_le
  rw [List.length_cons] at le
  omega

theorem Ended.of_reaches (ended : c.Ended) (reaches : c.Reaches c') : c'.Ended :=
  Token.EndsAt.of_suffix ended reaches.2

theorem Ended.rest_eq_nil (ended : c.Ended) (last : c.kind = .eof) : c.rest = [] := by
  obtain ⟨text, token, rest⟩ := c
  cases rest with
  | nil => rfl
  | cons next rest => exact absurd last ended.1

theorem Ended.passes_advance (ended : c.Ended) (more : c.kind ≠ .eof) : c.Passes c.advance := by
  obtain ⟨text, token, rest⟩ := c
  cases rest with
  | nil => exact absurd ended more
  | cons next rest => exact ⟨rfl, List.suffix_refl _⟩

theorem Ended.advance_eq (ended : c.Ended) (last : c.kind = .eof) : c.advance = c := by
  simp only [advance, ended.rest_eq_nil last]

theorem reaches_advance (c : Cursor) : c.Reaches c.advance := by
  obtain ⟨text, token, rest⟩ := c
  cases rest with
  | nil => exact Reaches.refl _
  | cons next rest => exact ⟨rfl, List.suffix_cons _ _⟩

theorem lookahead_one (c : Cursor) : c.lookahead 1 = c.advance.token := by
  obtain ⟨text, token, rest⟩ := c
  cases rest <;> rfl

end Cursor

/-! ## The tokens of a text -/

theorem Token.scan_endsAt (position : Nat) (text : List Char) :
    ∀ token rest, scan position text = token :: rest → token.EndsAt rest := by
  fun_induction scan position text with
  | case1 position =>
      intro token rest scanned
      cases scanned
      exact rfl
  | case2 position c text _ ih => exact ih
  | case3 position c text _ n ih =>
      intro token rest scanned
      obtain ⟨rfl, rfl⟩ := List.cons.inj scanned
      obtain ⟨next, behind, more⟩ := List.exists_cons_of_ne_nil
        (scan_ne_nil (position + 1 + n) (text.drop n))
      rw [more]
      exact ⟨fun last => (Lexeme.ofSpelling_spelled c _).1 (Lexeme.eq_of_kind last rfl), ih _ _ more⟩

theorem Cursor.ended_ofTokens (text : String) : (ofTokens text (tokenize text)).Ended := by
  obtain ⟨token, rest, tokens⟩ := tokenize_eq_cons text
  rw [ofTokens_tokenize tokens]
  exact Token.scan_endsAt 0 text.toList token rest tokens

end JsonQuery
